import TedgeDot.Library.Resolve

/-!
# What the resolver touches

Every file `resolve` tests or opens is named by a reference of a device that is loaded: the path
the reference is, or the file of that name in a directory of the search path.
-/

namespace TedgeDot.Library

open Traced

/-- A path that looking up a reference may test. -/
def Looked (site : Site) (protocol : String) (searchPath : List String) (reference path : String) :
    Prop :=
  (isPathReference reference = true ∧ path = absolutise reference site.baseDir) ∨
    (isPathReference reference = false ∧ ∃ dir ∈ searchPath, path = libraryFile dir protocol reference)

/-- A device that `enabled = false` takes out of the configuration. -/
def switchedOff (device : Toml) : Bool :=
  (deviceName device).isSome &&
    match device.get "enabled" with
    | some (.boolean false) => true
    | _ => false

/-- What resolving a document may touch. -/
def Named (site : Site) (doc : Toml) (t : Touch) : Prop :=
  ∃ protocol dirs device reference, protocolOf doc = some protocol ∧
    searchPath site doc = .ok dirs ∧ device ∈ devices doc ∧ switchedOff device = false ∧
    deviceName device = t.device ∧ reference ∈ references device ∧
    Looked site protocol dirs reference t.path

/-! ## Looking up and reading one library -/

section Lookup

variable (site : Site) (reference protocol : String)

theorem only_locateName (dirs tried : List String) :
    (locateName site reference protocol dirs tried).Only
      fun path => ∃ dir ∈ dirs, path = libraryFile dir protocol reference := by
  induction dirs generalizing tried with
  | nil =>
    unfold locateName
    split <;> exact Only.fail _
  | cons dir dirs ih =>
    unfold locateName
    apply Only.bind
    · exact Only.touch ⟨dir, List.mem_cons_self, rfl⟩
    · intro _ _
      split
      · exact Only.pure _
      · -- the directories after this one
        apply (ih _).mono
        rintro path ⟨dir', hdir', rfl⟩
        exact ⟨dir', List.mem_cons_of_mem _ hdir', rfl⟩

theorem only_locate (searchPath : List String) :
    (locate site reference protocol searchPath).Only
      (Looked site protocol searchPath reference) := by
  unfold locate
  split
  · rename_i hpath
    apply Only.bind
    · exact Only.touch (.inl ⟨hpath, rfl⟩)
    · intro _ _
      split
      · exact Only.pure _
      · exact Only.fail _
  · rename_i hname
    apply (only_locateName site reference protocol searchPath []).mono
    intro path hpath
    exact .inr ⟨Bool.eq_false_iff.mpr hname, hpath⟩

theorem located_name {dirs tried : List String} {path : String}
    (h : (locateName site reference protocol dirs tried).result = .ok path) :
    ∃ dir ∈ dirs, path = libraryFile dir protocol reference := by
  induction dirs generalizing tried with
  | nil =>
    unfold locateName at h
    split at h <;> cases h
  | cons dir dirs ih =>
    unfold locateName at h
    simp only [result_bind] at h
    obtain ⟨_, -, h⟩ := bind_ok h
    split at h
    · obtain rfl := Except.ok.inj h
      exact ⟨dir, List.mem_cons_self, rfl⟩
    · obtain ⟨dir', hdir', hpath⟩ := ih h
      exact ⟨dir', List.mem_cons_of_mem _ hdir', hpath⟩

theorem located {searchPath : List String} {path : String}
    (h : (locate site reference protocol searchPath).result = .ok path) :
    Looked site protocol searchPath reference path := by
  unfold locate at h
  split at h
  · rename_i hpath
    simp only [result_bind] at h
    obtain ⟨_, -, h⟩ := bind_ok h
    split at h
    · obtain rfl := Except.ok.inj h
      exact .inl ⟨hpath, rfl⟩
    · cases h
  · rename_i hname
    exact .inr ⟨Bool.eq_false_iff.mpr hname, located_name site reference protocol h⟩

theorem only_readLibrary (path : String) :
    (readLibrary site path protocol).Only fun p => p = path := by
  unfold readLibrary
  apply Only.bind
  · exact Only.touch rfl
  · intro _ _
    apply Only.bind (Only.lift _)
    intro _ _
    exact Only.lift _

theorem only_cachedLibrary (path : String) (cache : Cache) :
    (cachedLibrary site protocol path cache).Only fun p => p = path := by
  unfold cachedLibrary
  split
  · exact Only.pure _
  · apply Only.bind (only_readLibrary site protocol path)
    intro _ _
    exact Only.pure _

end Lookup

theorem only_gather (site : Site) (protocol name : String) (searchPath : List String) (g : Gathered)
    (reference : String) :
    (gather site protocol name searchPath g reference).Only
      (Looked site protocol searchPath reference) := by
  unfold gather
  apply Only.bind
  · apply Only.relabel
    exact only_locate site reference protocol searchPath
  · intro path hpath
    have hlooked : Looked site protocol searchPath reference path := by
      apply located
      cases hresult : (locate site reference protocol searchPath).result with
      | error e => simp [relabel, hresult, Except.mapError] at hpath
      | ok p => simpa [relabel, hresult, Except.mapError] using hpath
    apply Only.bind
    · apply (only_cachedLibrary site protocol path g.cache).mono
      rintro _ rfl
      exact hlooked
    · intro _ _
      exact Only.pure _

/-! ## The references of a device -/

theorem referenceOf_ok {name : String} {entry : Toml} {s : String}
    (h : referenceOf name entry = .ok s) : entry.asStr = some s := by
  unfold referenceOf at h
  split at h
  · rename_i s' hs
    obtain rfl := Except.ok.inj h
    exact (Option.filter_eq_some_iff.mp hs).1
  · cases h

theorem mapM_referenceOf {name : String} {entries : List Toml} {refs : List String}
    (h : entries.mapM (referenceOf name) = .ok refs) : refs = entries.filterMap Toml.asStr := by
  induction entries generalizing refs with
  | nil =>
    obtain rfl := Except.ok.inj h
    rfl
  | cons entry entries ih =>
    rw [List.mapM_cons] at h
    obtain ⟨s, hs, h⟩ := bind_ok h
    obtain ⟨rest, hrest, h⟩ := bind_ok h
    obtain rfl := Except.ok.inj h
    rw [List.filterMap_cons_some (referenceOf_ok hs), ih hrest]

theorem deviceRefs_ok {device : Toml} {name : String} {refs : List String}
    (h : deviceRefs device name = .ok refs) : refs = references device := by
  unfold deviceRefs at h
  unfold references
  split at h
  · rename_i hget
    obtain rfl := Except.ok.inj h
    rw [hget]
    rfl
  · rename_i value hget
    rw [hget, Option.bind_some]
    split at h
    · cases h
    · rename_i array harray
      rw [harray, mapM_referenceOf h]
      rfl

/-- Expanding a device looks only where its references may be found. -/
theorem only_expandDevice (site : Site) (protocol : String) (searchPath : List String)
    (device : Toml) (cache : Cache) :
    (expandDevice site protocol searchPath device cache).Only
      fun path => ∃ r ∈ references device, Looked site protocol searchPath r path := by
  unfold expandDevice
  apply Only.bind (Only.lift _)
  intro _ _
  apply Only.bind (Only.lift _)
  intro refs hrefs
  rw [result_lift] at hrefs
  have hsame := deviceRefs_ok hrefs
  split
  · apply Only.bind (Only.lift _)
    intro _ _
    exact Only.pure _
  · apply Only.bind
    · -- one reference after the other
      apply Only.foldlM
      intro g r hr
      apply (only_gather site protocol (deviceLabel device) searchPath g r).mono
      intro path hpath
      exact ⟨r, hsame ▸ hr, hpath⟩
    · intro _ _
      apply Only.bind (Only.lift _)
      intro _ _
      apply Only.bind (Only.lift _)
      intro _ _
      exact Only.pure _

theorem only_expandDevices (site : Site) (protocol : String) (searchPath : List String)
    (devices : List Toml) (cache : Cache) :
    (expandDevices site protocol searchPath devices cache).Only fun t =>
      ∃ device ∈ devices, deviceName device = t.device ∧
        ∃ r ∈ references device, Looked site protocol searchPath r t.path := by
  induction devices generalizing cache with
  | nil => exact Only.pure _
  | cons device rest ih =>
    unfold expandDevices
    apply Only.bind
    · apply Only.relabel
      apply (only_expandDevice site protocol searchPath device cache).mono
      intro path hpath
      exact ⟨device, List.mem_cons_self, rfl, hpath⟩
    · intro _ _
      apply Only.bind
      · apply (ih _).mono
        rintro t ⟨device', hdevice', h⟩
        exact ⟨device', List.mem_cons_of_mem _ hdevice', h⟩
      · intro _ _
        exact Only.pure _

/-! ## The first pass -/

theorem get_setKey (v : Toml) (key key' : String) (value : Toml) (h : key ≠ key') :
    (setKey v key value).get key' = v.get key' := by
  cases v with
  | table entries =>
    show TomlTable.get (TomlTable.insert entries key value) key' = _
    rw [TomlTable.get_insert, if_neg h]
    rfl
  | _ => rfl

theorem normaliseType_get {device device' : Toml} {name key : String}
    (h : normaliseType device name = .ok device') (hkey : "type" ≠ key) :
    device'.get key = device.get key := by
  unfold normaliseType at h
  split at h
  · obtain rfl := Except.ok.inj h
    rfl
  · split at h
    · obtain rfl := Except.ok.inj h
      exact get_setKey _ _ _ _ hkey
    · cases h

/-- Screening a device changes its type at most. -/
theorem screenDevice_get {device device' : Toml} {seen : List String}
    (h : screenDevice device seen = .ok (some device')) :
    switchedOff device = false ∧ ∀ key, "type" ≠ key → device'.get key = device.get key := by
  unfold screenDevice at h
  split at h
  · rename_i hname
    obtain rfl := Option.some.inj (Except.ok.inj h)
    exact ⟨by simp [switchedOff, hname], fun _ _ => rfl⟩
  · split at h
    · cases h
    · split at h
      · cases h
      · rename_i henabled
        obtain ⟨_, -, h⟩ := bind_ok h
        obtain ⟨device'', hnormal, h⟩ := bind_ok h
        obtain rfl := Option.some.inj (Except.ok.inj h)
        exact ⟨by simp [switchedOff, henabled], fun key hkey => normaliseType_get hnormal hkey⟩
      · cases h
      · rename_i henabled
        obtain ⟨_, -, h⟩ := bind_ok h
        obtain ⟨device'', hnormal, h⟩ := bind_ok h
        obtain rfl := Option.some.inj (Except.ok.inj h)
        exact ⟨by simp [switchedOff, henabled], fun key hkey => normaliseType_get hnormal hkey⟩

theorem mem_screenDevices {devices screened : List Toml} {seen : List String}
    (h : screenDevices devices seen = .ok screened) {device' : Toml} (hmem : device' ∈ screened) :
    ∃ device ∈ devices, switchedOff device = false ∧
      ∀ key, "type" ≠ key → device'.get key = device.get key := by
  induction devices generalizing seen screened with
  | nil =>
    obtain rfl := Except.ok.inj h
    cases hmem
  | cons device rest ih =>
    unfold screenDevices at h
    obtain ⟨first, hfirst, h⟩ := bind_ok h
    obtain ⟨others, hothers, h⟩ := bind_ok h
    obtain rfl := Except.ok.inj h
    rcases List.mem_append.mp hmem with hmem | hmem
    · obtain rfl : first = some device' := by simpa using hmem
      exact ⟨device, List.mem_cons_self, screenDevice_get hfirst⟩
    · obtain ⟨device'', hdevice'', hget⟩ := ih hothers hmem
      exact ⟨device'', List.mem_cons_of_mem _ hdevice'', hget⟩

/-! ## The whole document -/

/-- Expanding a document looks only at places it names. -/
theorem only_expand (site : Site) (doc : Toml) : (expand site doc).Only (Named site doc) := by
  unfold expand
  split
  · exact Only.pure _
  · rename_i protocol hprotocol
    apply Only.bind (Only.lift _)
    intro dirs hdirs
    rw [result_lift] at hdirs
    split
    · exact Only.pure _
    · rename_i all hall
      apply Only.bind (Only.lift _)
      intro screened hscreened
      rw [result_lift] at hscreened
      apply Only.bind
      · apply (only_expandDevices site protocol dirs screened []).mono
        rintro t ⟨device', hdevice', hname, r, hr, hlooked⟩
        obtain ⟨device, hdevice, hon, hget⟩ := mem_screenDevices hscreened hdevice'
        refine ⟨protocol, dirs, device, r, hprotocol, hdirs, ?_, hon, ?_, ?_, hlooked⟩
        · unfold devices
          rw [hall]
          exact hdevice
        · rw [← hname]
          unfold deviceName
          rw [hget "name" (by decide)]
        · unfold references at hr ⊢
          rwa [← hget "points_from" (by decide)]
      · intro _ _
        exact Only.pure _

/-- **The trace of the resolver**: it touches nothing but what the references of the loaded devices
name. -/
theorem only_resolve (site : Site) (doc : Toml) : (resolve site doc).Only (Named site doc) := by
  unfold resolve
  apply Only.bind (Only.lift _)
  intro _ _
  have htail : (do
      let doc ← expand site doc
      lift (site.typed doc) : Traced Touch String ConnectorConfig).Only (Named site doc) := by
    apply Only.bind (only_expand site doc)
    intro _ _
    exact Only.lift _
  split
  · exact htail
  · apply Only.bind (Only.lift _)
    intro _ _
    exact htail

end TedgeDot.Library
