import TedgeDot.Library.Reach
import TedgeDot.Runtime.Atomic
import TedgeDot.Runtime.SetConfig

/-!
# The files a command can make the resolver look at

A management command, accepted or refused, is resolved on the files of the gateway. Which of them
it can make the resolver test or open is what the guard of path references is there to bound: the
paths a device already refers to, and the names in the search path. The guard compares references
only, and a `set-config` of `[connector]` may patch the search path itself.
-/

namespace TedgeDot.Management

open Library

/-! ## What a command touches -/

/-- The surroundings of a change that is resolved at a site. -/
def Surroundings.on (around : Surroundings) (site : Site) : Surroundings :=
  { around with resolve := fun doc => (Library.resolve site doc).result }

variable {M : Type}

/-- `candidate`, with the files that resolving it touches. -/
def tracedCandidate (h : Host M) (site : Site) (doc : Document) (verb : String) (json : Json) :
    Traced Touch String (Document × ConnectorConfig) := do
  let doc' ← .lift (applyManagement verb json doc)
  .lift (rejectPathReferences doc.toToml doc'.toToml)
  .lift (rejectLocalOnlySettings doc.toToml doc'.toToml h.localOnlySettings)
  let config ← (resolve site doc'.toToml).relabel id fun e => s!"resulting config is invalid: {e}"
  return (doc', config)

theorem result_tracedCandidate (h : Host M) (site : Site) (around : Surroundings) (doc : Document)
    (verb : String) (json : Json) :
    (tracedCandidate h site doc verb json).result =
      candidate h (around.on site) doc verb json := by
  unfold tracedCandidate candidate
  simp only [Traced.result_bind, Traced.result_lift, Surroundings.on, Traced.relabel]
  cases applyManagement verb json doc with
  | error e => rfl
  | ok doc' =>
    simp only [bind, Except.bind]
    cases rejectPathReferences doc.toToml doc'.toToml with
    | error e => rfl
    | ok u =>
      cases rejectLocalOnlySettings doc.toToml doc'.toToml h.localOnlySettings with
      | error e => rfl
      | ok u' =>
        cases (resolve site doc'.toToml).result with
        | error e => rfl
        | ok config => rfl

/-- A change of a running connector's configuration, with the site it is resolved at. -/
inductive Change where
  | command (site : Site) (around : Surroundings) (verb : String) (json : Json)
  | reload (site : Site) (around : Surroundings)
  | edited (file : Except String Document)

/-- The change as the runtime goes through it. -/
def Change.event : Change → Event
  | .command site around verb json => .command (around.on site) verb json
  | .reload site around => .reload (around.on site)
  | .edited file => .edited file

def touched (h : Host M) (s : State M) : Change → List Touch
  | .command site around verb json =>
    if around.executing then (tracedCandidate h site s.doc verb json).events else []
  | _ => []

/-- One change: the state after it, and for a command the running document and what was
touched. -/
def watched (h : Host M) (s : State M) (change : Change) : State M × (Toml × List Touch) :=
  ((step h s change.event).1, (s.doc.toToml, touched h s change))

/-! ## What a command may touch -/

/-- A file the running document already gives access to for a device: a path the device refers to,
or a library of the search path by its name. -/
def Granted (site : Site) (running : Toml) (t : Touch) : Prop :=
  (∃ device ∈ devices running, Library.deviceName device = t.device ∧
    ∃ r ∈ references device, isPathReference r = true ∧ t.path = absolutise r site.baseDir) ∨
  ∃ protocol dirs dir name, protocolOf running = some protocol ∧ searchPath site running = .ok dirs ∧
    dir ∈ dirs ∧ '/' ∉ name.toList ∧ t.path = libraryFile dir protocol name

/-- A loaded device refers to a library by its name. -/
def UsesName (doc : Toml) : Prop :=
  ∃ device ∈ devices doc, switchedOff device = false ∧
    ∃ r ∈ references device, isPathReference r = false

/-- The candidate looks names up in directories of the running search path only, and no device of
it passes for another one, which the guard cannot tell apart: one without a name is called
`<unnamed>` there. -/
structure KeepsReach (site : Site) (running candidate : Toml) : Prop where
  searchPath : UsesName candidate → ∀ dirs dir, searchPath site candidate = .ok dirs → dir ∈ dirs →
    ∃ known, Library.searchPath site running = .ok known ∧ dir ∈ known
  devices : ∀ device ∈ devices running, ∀ device' ∈ Library.devices candidate,
    deviceLabel device = deviceLabel device' →
    (∃ r ∈ references device, r ∈ references device' ∧ isPathReference r = true) →
    Library.deviceName device = Library.deviceName device'

/-- A command that keeps the reach of the running document. -/
def KeepsReachAt (s : State M) : Change → Prop
  | .command site _ verb json => ∀ doc', applyManagement verb json s.doc = .ok doc' →
      KeepsReach site s.doc.toToml doc'.toToml
  | _ => True

/-! ## What the guard lets through -/

theorem mem_pathReferences {doc : Toml} {r : String × String} :
    r ∈ pathReferences doc ↔ ∃ device ∈ devices doc, deviceLabel device = r.1 ∧
      r.2 ∈ references device ∧ isPathReference r.2 = true := by
  obtain ⟨name, reference⟩ := r
  simp only [pathReferences, List.mem_flatMap, List.mem_map, List.mem_filter, Prod.mk.injEq]
  constructor
  · rintro ⟨device, hdevice, _, ⟨hr, hpath⟩, hname, rfl⟩
    exact ⟨device, hdevice, hname, hr, hpath⟩
  · rintro ⟨device, hdevice, hname, hr, hpath⟩
    exact ⟨device, hdevice, reference, ⟨hr, hpath⟩, hname, rfl⟩

theorem pathReferences_of_guard {running candidate : Toml}
    (h : rejectPathReferences running candidate = .ok ()) {r : String × String}
    (hr : r ∈ pathReferences candidate) : r ∈ pathReferences running := by
  unfold rejectPathReferences at h
  split at h
  · cases h
  · rename_i hnone
    simpa using List.find?_eq_none.mp hnone r hr

theorem not_slash_of_name {reference : String} (h : isPathReference reference = false) :
    '/' ∉ reference.toList := by
  unfold isPathReference at h
  simp only [Bool.or_eq_false_iff] at h
  simpa using h.2

theorem granted_of_named {site : Site} {running candidate : Toml} {t : Touch}
    (hguard : rejectPathReferences running candidate = .ok ())
    (hprotocol : protocolOf candidate = protocolOf running)
    (hkeeps : KeepsReach site running candidate) (hnamed : Named site candidate t) :
    Granted site running t := by
  obtain ⟨protocol, dirs, device', r, hcandidate, hdirs, hdevice', hon, hname, hr, hlooked⟩ := hnamed
  rcases hlooked with ⟨hpath, htouched⟩ | ⟨hplain, dir, hdir, htouched⟩
  · -- the guard has found the reference at a device of the same label
    have hmem : (deviceLabel device', r) ∈ pathReferences candidate :=
      mem_pathReferences.mpr ⟨device', hdevice', rfl, hr, hpath⟩
    obtain ⟨device, hdevice, hlabel, hr', -⟩ :=
      mem_pathReferences.mp (pathReferences_of_guard hguard hmem)
    have hsame := hkeeps.devices device hdevice device' hdevice' hlabel ⟨r, hr', hr, hpath⟩
    exact .inl ⟨device, hdevice, hsame.trans hname, r, hr', hpath, htouched⟩
  · obtain ⟨known, hknown, hmem⟩ :=
      hkeeps.searchPath ⟨device', hdevice', hon, r, hr, hplain⟩ dirs dir hdirs hdir
    exact .inr ⟨protocol, known, dir, r, hprotocol ▸ hcandidate, hknown, hmem,
      not_slash_of_name hplain, htouched⟩

theorem prefix_join (base path : String) (h : isAbsolute path = false) :
    base.toList <+: (join base path).toList := by
  unfold join
  rw [if_neg (by simp [h])]
  split
  · rw [String.toList_append]
    exact List.prefix_append _ _
  · rw [String.toList_append, String.toList_append, List.append_assoc]
    exact List.prefix_append _ _

theorem prefix_libraryFile (dir protocol : String) {name : String} (h : '/' ∉ name.toList) :
    (join dir protocol).toList <+: (libraryFile dir protocol name).toList := by
  apply prefix_join
  unfold isAbsolute
  rw [String.toList_append]
  cases hname : name.toList with
  | nil => rfl
  | cons c rest =>
    have hc : c ≠ '/' := fun heq => h (by rw [hname, heq]; exact List.mem_cons_self)
    simpa using hc

/-! ## No command changes the protocol -/

theorem get_toToml (doc : Document) (key : String) :
    doc.toToml.get key = Section.value doc (.root key) := by
  rw [Section.value_root]
  exact Item.get_entriesToToml doc key

theorem get_tableOf (v : Option Toml) (key : String) :
    (v.bind fun v => v.get key) = (tableOf v).get key := by
  cases v with
  | none => rfl
  | some v => cases v <;> rfl

theorem get_mergeObject_of_not_mem {table table' : EditTable} {patch : JsonMap} {key : String}
    (hkey : patch.containsKey key = false) (h : mergeObject table patch = .ok table') :
    table'.get key = table.get key := by
  induction patch generalizing table with
  | nil =>
    obtain rfl := Except.ok.inj h
    rfl
  | cons m rest ih =>
    unfold JsonMap.containsKey at hkey ih
    rw [JsonMap.get_cons] at hkey
    unfold mergeObject at h
    split at h
    · cases h
    · split at hkey
      · cases hkey
      · rename_i hne
        rw [ih hkey h, EditTable.get_insert, if_neg hne]

variable {json : Json} {doc doc' : Document} {verb : String}

theorem protocol_not_patched (h : applySetConfig json doc = .ok doc')
    (htarget : (json.get "target").bind Json.asStr = some "connector") :
    (patchOf json).containsKey "protocol" = false := by
  unfold applySetConfig at h
  unfold patchOf
  rw [htarget] at h
  split at h
  · cases h
  · rename_i target hsome
    obtain rfl := Option.some.inj hsome
    split at h
    · cases h
    · rename_i patch hpatch
      rw [hpatch]
      split at h
      · cases h
      · rename_i hnone
        simpa using List.find?_eq_none.mp hnone "protocol" (by simp)

theorem target_of_section {doc : Document} {key : String}
    (h : targetSection json doc = some (.root key)) :
    (json.get "target").bind Json.asStr = some key := by
  unfold targetSection at h
  obtain ⟨target, htarget, h⟩ := Option.bind_eq_some_iff.mp h
  rw [htarget]
  split at h
  · obtain ⟨devices, -, h⟩ := Option.bind_eq_some_iff.mp h
    obtain ⟨i, -, h⟩ := Option.map_eq_some_iff.mp h
    cases h
  · obtain rfl := Section.root.inj (Option.some.inj h)
    rfl

/-- Only a set-config of a section changes it. -/
theorem section_kept (key : String) (hkey : key ≠ "device")
    (h : applyManagement verb json doc = .ok doc') :
    Section.value doc' (.root key) = Section.value doc (.root key) ∨
      (verb = "set-config" ∧ applySetConfig json doc = .ok doc' ∧
        targetSection json doc = some (.root key)) := by
  have hdevice (item : Item) :
      Section.value (doc.insert "device" item) (.root key) = Section.value doc (.root key) := by
    rw [Section.value_root, Section.value_root, EditTable.get_insert, if_neg hkey.symm]
  unfold applyManagement at h
  split at h
  · obtain ⟨s, entries', hsection, -, hpatched⟩ := applySetConfig_spec h
    by_cases hs : s = .root key
    · exact .inr ⟨rfl, h, hs ▸ hsection⟩
    · left
      apply hpatched.others
      cases s with
      | root key' => exact fun hsame => hs (congrArg Section.root hsame)
      | device i => exact hkey
  · left
    unfold applyDefineDevice at h
    repeat' split at h
    all_goals first
      | cases h; done
      | obtain rfl := Except.ok.inj h
        exact hdevice _
  · left
    unfold applyRemoveDevice at h
    repeat' split at h
    all_goals first
      | cases h; done
      | obtain rfl := Except.ok.inj h
        exact hdevice _
  · cases h

theorem connector_kept (h : applyManagement verb json doc = .ok doc') :
    Section.value doc' (.root "connector") = Section.value doc (.root "connector") ∨
      (verb = "set-config" ∧ applySetConfig json doc = .ok doc' ∧
        targetSection json doc = some (.root "connector")) :=
  section_kept "connector" (by decide) h

theorem protocolOf_eq (doc : Document) :
    protocolOf doc.toToml =
      ((tableOf (Section.value doc (.root "connector"))).get "protocol").bind Toml.asStr := by
  unfold protocolOf
  rw [get_toToml, get_tableOf]

theorem protocolOf_applyManagement (h : applyManagement verb json doc = .ok doc') :
    protocolOf doc'.toToml = protocolOf doc.toToml := by
  rw [protocolOf_eq, protocolOf_eq]
  rcases connector_kept h with hsame | ⟨-, hset, hsection⟩
  · rw [hsame]
  · obtain ⟨s, entries', hsection', hmerge, hpatched⟩ := applySetConfig_spec hset
    obtain rfl := Option.some.inj (hsection.symm.trans hsection')
    have hkey := protocol_not_patched hset (target_of_section hsection)
    rw [hpatched.after, hpatched.before]
    show ((Item.entriesToToml entries').get "protocol").bind Toml.asStr = _
    rw [Item.get_entriesToToml, Item.get_entriesToToml, get_mergeObject_of_not_mem hkey hmerge]

theorem searchPath_kept (site : Site) (h : applyManagement verb json doc = .ok doc')
    (hother : verb ≠ "set-config" ∨ targetSection json doc ≠ some (.root "connector")) :
    searchPath site doc'.toToml = searchPath site doc.toToml := by
  rcases connector_kept h with hsame | ⟨hverb, -, hsection⟩
  · unfold searchPath
    rw [get_toToml, get_toToml, hsame]
  · rcases hother with hother | hother
    · exact absurd hverb hother
    · exact absurd hsection hother

/-! ## Runs -/

theorem events_tracedCandidate {h : Host M} {site : Site} {doc : Document} {t : Touch}
    (ht : t ∈ (tracedCandidate h site doc verb json).events) :
    ∃ doc', applyManagement verb json doc = .ok doc' ∧
      rejectPathReferences doc.toToml doc'.toToml = .ok () ∧
        t ∈ (resolve site doc'.toToml).events := by
  unfold tracedCandidate at ht
  rcases Traced.mem_events_bind.mp ht with ht | ⟨doc', happly, ht⟩
  · cases ht
  rcases Traced.mem_events_bind.mp ht with ht | ⟨_, hpaths, ht⟩
  · cases ht
  rcases Traced.mem_events_bind.mp ht with ht | ⟨_, -, ht⟩
  · cases ht
  refine ⟨doc', happly, hpaths, ?_⟩
  rcases Traced.mem_events_bind.mp ht with ht | ⟨_, -, ht⟩
  · simpa [Traced.relabel] using ht
  · cases ht

theorem granted_of_touched {h : Host M} {s : State M} {site : Site} {around : Surroundings}
    (hkeeps : KeepsReachAt s (.command site around verb json)) {t : Touch}
    (ht : t ∈ touched h s (.command site around verb json)) : Granted site s.doc.toToml t := by
  simp only [touched] at ht
  by_cases hexecuting : around.executing = true
  · rw [if_pos hexecuting] at ht
    obtain ⟨doc', happly, hguard, ht⟩ := events_tracedCandidate ht
    apply granted_of_named hguard (protocolOf_applyManagement happly) (hkeeps doc' happly)
    exact (only_resolve site doc'.toToml).mem t ht
  · rw [if_neg hexecuting] at ht
    cases ht

/-- The entry of a run is a command that touched only what the document running before it
granted. -/
def GrantedEntry (entry : Change × (Toml × List Touch)) : Prop :=
  ∀ site around verb json, entry.1 = .command site around verb json →
    ∀ t ∈ entry.2.2, Granted site entry.2.1 t

/-- In every run whose commands keep the reach of the document they find, every command touches
only files that document grants. -/
theorem commands_touch_granted {h : Host M} {s : State M} {changes : List Change}
    (hkeeps : Machine.AllSteps (watched h) KeepsReachAt s changes) :
    ∀ entry ∈ Machine.log (watched h) s changes, GrantedEntry entry := by
  refine Machine.log_forall_of (P := fun _ => True) (fun _ _ _ _ => trivial) ?_ hkeeps trivial
  intro s change hstep _ site around verb json hchange t ht
  obtain rfl : change = .command site around verb json := hchange
  exact granted_of_touched hstep ht

/-! A device that refers to a library by its name, and a `set-config` of the search path. -/

/-- A library of one point, in the site's own directory. -/
def meterLibrary : Toml :=
  .table [("library", .table [("protocol", .string "modbus")]),
    ("point", .array [.table [("id", .string "power")]])]

def plantSite : Site where
  baseDir := "/etc/tedge/plugins/ot"
  isFile path := path == "/etc/tedge/plugins/ot/points.d/modbus/meter.toml"
  read _ := .ok meterLibrary
  pointConfig _ := .ok ()
  typed _ := .ok { protocol := "modbus", devices := [{ name := "plc" }] }

def meterDocument : Document :=
  [("connector", .table [("protocol", .value (.string "modbus"))]),
   ("device", .arrayOfTables [[("name", .value (.string "plc")),
     ("points_from", .value (.array [.string "meter"]))]])]

def anyHost : Host Unit where
  configure _ _ := ((), .ok ())
  protocol := "modbus"
  callsMethods := false
  localOnlySettings := []
  needsRestart _ _ := false
  same _ _ := false

def meterState : State Unit where
  config := { protocol := "modbus", devices := [{ name := "plc" }] }
  doc := meterDocument
  file := .ok meterDocument
  connector := ()

/-- `set-config` of `[connector]` with a directory of the sender's choosing. -/
def searchPatch : Json :=
  .object [("target", .string "connector"),
    ("config", .object [("point_library_path", .array [.string "/home/guest"])])]

def searchChange : Change :=
  .command plantSite { resolve := fun _ => .error "" } "set-config" searchPatch

theorem searchPath_meter :
    searchPath plantSite meterDocument.toToml = .ok [SITE_LIBRARY_DIR, PACKAGED_LIBRARY_DIR] := rfl

theorem references_meter {device : Toml} (h : device ∈ devices meterDocument.toToml) {r : String}
    (hr : r ∈ references device) : r = "meter" := by
  obtain rfl := List.mem_singleton.mp h
  exact List.mem_singleton.mp hr

theorem not_granted_home (t : Touch) (h : t.path = "/home/guest/modbus/meter.toml") :
    ¬ Granted plantSite meterDocument.toToml t := by
  rintro (⟨device, hdevice, -, r, hr, hpath, -⟩ | ⟨protocol, dirs, dir, name, hprotocol, hdirs,
    hdir, hname, heq⟩)
  · obtain rfl := references_meter hdevice hr
    exact absurd hpath (by decide)
  · obtain rfl : "modbus" = protocol := Option.some.inj hprotocol
    obtain rfl := Except.ok.inj (searchPath_meter.symm.trans hdirs)
    -- a library of the search path begins with its directory
    have hstart := prefix_libraryFile dir "modbus" hname
    rw [← heq, h] at hstart
    rcases List.mem_pair.mp hdir with rfl | rfl
    · exact absurd hstart (by decide)
    · exact absurd hstart (by decide)

/-- The running document resolves, and the command makes the resolver look into the directory it
names. -/
theorem looks_elsewhere :
    (resolve plantSite meterState.doc.toToml).result.isOk = true ∧
      ∃ t ∈ touched anyHost meterState searchChange, ¬ Granted plantSite meterState.doc.toToml t := by
  refine ⟨by decide +kernel, ⟨some "plc", "/home/guest/modbus/meter.toml"⟩, ?_, ?_⟩
  · show _ ∈ [Touch.mk (some "plc") "/home/guest/modbus/meter.toml"]
    exact List.mem_singleton_self _
  · exact not_granted_home _ rfl

/-- A second device with the same library. -/
def defineChange : Change :=
  .command plantSite { resolve := fun _ => .error "" } "define-device"
    (.object [("device", .object [("name", .string "plc-2"),
      ("points_from", .array [.string "meter"])])])

theorem keepsReach_define : KeepsReachAt meterState defineChange := by
  intro doc' happly
  constructor
  · intro _ dirs dir hdirs hdir
    rw [searchPath_kept plantSite happly (.inl (by decide))] at hdirs
    exact ⟨dirs, hdirs, hdir⟩
  · rintro device hdevice device' _ _ ⟨r, hr, -, hpath⟩
    obtain rfl := references_meter hdevice hr
    exact absurd hpath (by decide)

/-- A define-device with a library that is granted. -/
theorem commands_touch_granted_define :
    (touched anyHost meterState defineChange).length = 3 ∧
      ∀ entry ∈ Machine.log (watched anyHost) meterState [defineChange], GrantedEntry entry :=
  ⟨by decide +kernel, commands_touch_granted ⟨keepsReach_define, trivial⟩⟩

end TedgeDot.Management
