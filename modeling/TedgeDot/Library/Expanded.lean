import TedgeDot.Library.Law
import TedgeDot.Library.Reach

/-!
# The points of a loaded device

What a configuration that is accepted holds for each of its devices: the points of the libraries
it refers to and its own, merged under the merge law, without those that are switched off. A
device that names no library is the exception: its points are not merged.
-/

namespace TedgeDot.Library

/-- The parsers outside this crate, as far as the resolver relies on them: tables have each key
once, and the typed parse needs the protocol and reads one device for each entry of `device` and
one point, with its `id`, for each entry of `point`. -/
structure Site.Lawful (site : Site) : Prop where
  wellFormed : ∀ path doc, site.read path = .ok doc → doc.WellFormed
  protocol : ∀ doc config, site.typed doc = .ok config → protocolOf doc = some config.protocol
  points : ∀ doc config, site.typed doc = .ok config →
    List.Forall₂ (fun device (d : DeviceConfig) =>
      (elements device "point").map pointId = d.points.map fun p => some p.id)
      (devices doc) config.devices

/-- The devices that are not switched off. -/
def loaded (doc : Toml) : List Toml := (devices doc).filter fun device => !switchedOff device

/-- A point that `enabled = false` takes out of the list. -/
def pointOff (point : Toml) : Bool :=
  match point.get "enabled" with
  | some (.boolean false) => true
  | _ => false

def libraryDefinitions (lib : Toml) : List Definition :=
  (elements lib "point").map (Definition.mk (lib.get "library"))

/-- The definitions of a device: those of its libraries, in order, and then its own. -/
def deviceDefinitions (libs : List Toml) (device : Toml) : List Definition :=
  libs.flatMap libraryDefinitions ++ (elements device "point").map (Definition.mk none)

/-- The points that `expand` writes back for a device. -/
def devicePoints (libs : List Toml) (device : Toml) : List Toml :=
  resolvedPoints (libs.map fun lib => (libraryDefinitions lib).map Definition.laid)
    (elements device "point")

/-- The library a reference is read from: the file it is looked up at, or one at the same path
that has been read before. -/
def Reads (site : Site) (protocol : String) (dirs : List String) (reference : String) (lib : Toml) :
    Prop :=
  ∃ path file parsed, (locate site reference protocol dirs).result = .ok path ∧
    components file = components path ∧ site.read file = .ok lib ∧
    parseLibrary lib file protocol = .ok parsed

/-- What the second pass makes of a device. -/
structure Expanded (site : Site) (protocol : String) (dirs : List String) (device expanded : Toml)
    (libs : List Toml) : Prop where
  reads : List.Forall₂ (Reads site protocol dirs) (references device) libs
  points : elements expanded "point" = (devicePoints libs device).filter fun p => !pointOff p

/-! ## One library -/

variable {key : String} {points : List Toml} {site : Site} {dirs : List String} {name : String}
  {device : Toml} {libs : List Toml} {protocol : String} {doc : Toml}

theorem elements_of_asArray {v : Toml} {w : Toml} (hget : v.get key = some w) {items : List Toml}
    (hitems : w.asArray = some items) : elements v key = items := by
  unfold elements
  rw [hget, Option.bind_some, hitems]
  rfl

theorem libraryPoints_ok {lib : Toml} {path : String} (h : libraryPoints lib path = .ok points) :
    points = elements lib "point" := by
  unfold libraryPoints at h
  split at h
  · cases h
  · rename_i w hget
    split at h
    · cases h
    · rename_i items hitems
      split at h
      · cases h
      · obtain rfl := Except.ok.inj h
        exact (elements_of_asArray hget hitems).symm

theorem mapError_ok {ε ε' α : Type} {f : ε → ε'} {x : Except ε α} {a : α}
    (h : x.mapError f = .ok a) : x = .ok a := by
  cases x with
  | error e => cases h
  | ok b => exact congrArg Except.ok (Except.ok.inj h)

theorem checkLibraryPoints_ok {path : String} {seen : List String}
    (h : checkLibraryPoints path points seen = .ok ()) :
    ∀ p ∈ points, p.get ADDRESS_ORIGIN = none := by
  induction points generalizing seen with
  | nil => simp
  | cons p points ih =>
    unfold checkLibraryPoints at h
    obtain ⟨_, hkeys, h⟩ := bind_ok h
    obtain ⟨_, -, h⟩ := bind_ok h
    split at h
    · cases h
    · split at h
      · cases h
      · exact List.forall_mem_cons.mpr ⟨no_addressOrigin (mapError_ok hkeys), ih h⟩

/-- A library's points are its definitions laid out, and none names an origin itself. -/
theorem parseLibrary_ok {lib : Toml} {path protocol : String} {parsed : PointLibrary}
    (h : parseLibrary lib path protocol = .ok parsed) :
    parsed.points = (libraryDefinitions lib).map Definition.laid ∧
      ∀ p ∈ elements lib "point", p.get ADDRESS_ORIGIN = none := by
  unfold parseLibrary at h
  split at h
  · cases h
  · split at h
    · cases h
    · obtain ⟨_, -, h⟩ := bind_ok h
      obtain ⟨_, -, h⟩ := bind_ok h
      obtain ⟨_, -, h⟩ := bind_ok h
      obtain ⟨_, -, h⟩ := bind_ok h
      obtain ⟨points, hpoints, h⟩ := bind_ok h
      obtain ⟨_, hcheck, h⟩ := bind_ok h
      obtain rfl := Except.ok.inj h
      rw [libraryPoints_ok hpoints] at hcheck ⊢
      refine ⟨?_, checkLibraryPoints_ok hcheck⟩
      unfold libraryDefinitions
      rw [List.map_map]
      rfl

/-- The libraries in the cache are what their files hold. -/
def CacheOk (site : Site) (protocol : String) (cache : Cache) : Prop :=
  ∀ e ∈ cache, ∃ lib, site.read e.1 = .ok lib ∧ parseLibrary lib e.1 protocol = .ok e.2

theorem cachedLibrary_ok {protocol path : String} {cache cache' : Cache} {library : PointLibrary}
    (hcache : CacheOk site protocol cache)
    (h : (cachedLibrary site protocol path cache).result = .ok (cache', library)) :
    CacheOk site protocol cache' ∧ ∃ file lib, components file = components path ∧
      site.read file = .ok lib ∧ parseLibrary lib file protocol = .ok library := by
  unfold cachedLibrary at h
  split at h
  · rename_i found hfound
    obtain ⟨rfl, rfl⟩ := Prod.mk.inj (Except.ok.inj h)
    obtain ⟨e, hfind, rfl⟩ := Option.map_eq_some_iff.mp hfound
    obtain ⟨lib, hread, hparse⟩ := hcache e (List.mem_of_find?_eq_some hfind)
    exact ⟨hcache, e.1, lib, by simpa using List.find?_some hfind, hread, hparse⟩
  · unfold readLibrary at h
    simp only [Traced.result_bind] at h
    obtain ⟨parsed, hparsed, h⟩ := bind_ok h
    obtain ⟨_, -, hparsed⟩ := bind_ok hparsed
    obtain ⟨lib, hread, hparse⟩ := bind_ok hparsed
    obtain ⟨rfl, rfl⟩ := Prod.mk.inj (Except.ok.inj h)
    refine ⟨?_, path, lib, rfl, hread, hparse⟩
    exact List.forall_mem_cons.mpr ⟨⟨lib, hread, hparse⟩, hcache⟩

/-! ## One device -/

theorem gather_ok {protocol name reference : String} {g g' : Gathered}
    (hcache : CacheOk site protocol g.cache)
    (h : (gather site protocol name dirs g reference).result = .ok g') :
    CacheOk site protocol g'.cache ∧ ∃ lib, Reads site protocol dirs reference lib ∧
      g'.merged = ((libraryDefinitions lib).map Definition.laid).foldl mergePoint g.merged := by
  unfold gather at h
  simp only [Traced.result_bind] at h
  obtain ⟨path, hpath, h⟩ := bind_ok h
  obtain ⟨⟨cache, library⟩, hlibrary, h⟩ := bind_ok h
  obtain rfl := Except.ok.inj h
  obtain ⟨hcache', file, lib, hfile, hread, hparse⟩ := cachedLibrary_ok hcache hlibrary
  refine ⟨hcache', lib, ⟨path, file, library, mapError_ok hpath, hfile, hread, hparse⟩, ?_⟩
  rw [← (parseLibrary_ok hparse).1]

theorem gather_foldlM {protocol name : String} {dirs refs : List String} {g g' : Gathered}
    (hcache : CacheOk site protocol g.cache)
    (h : (refs.foldlM (gather site protocol name dirs) g).result = .ok g') :
    CacheOk site protocol g'.cache ∧ ∃ libs, List.Forall₂ (Reads site protocol dirs) refs libs ∧
      g'.merged =
        ((libs.flatMap libraryDefinitions).map Definition.laid).foldl mergePoint g.merged := by
  induction refs generalizing g with
  | nil =>
    obtain rfl := Except.ok.inj h
    exact ⟨hcache, [], .nil, rfl⟩
  | cons reference refs ih =>
    rw [List.foldlM_cons, Traced.result_bind] at h
    obtain ⟨g₁, hg₁, h⟩ := bind_ok h
    obtain ⟨hcache₁, lib, hreads, hmerged₁⟩ := gather_ok hcache hg₁
    obtain ⟨hcache', libs, hlibs, hmerged⟩ := ih hcache₁ h
    refine ⟨hcache', lib :: libs, .cons hreads hlibs, ?_⟩
    rw [hmerged, hmerged₁, List.flatMap_cons, List.map_append, List.foldl_append]

/-- The points kept are those not switched off. -/
theorem keptPoints_ok {points kept : List Toml} (h : keptPoints site name points = .ok kept) :
    kept = points.filter fun p => !pointOff p := by
  induction points generalizing kept with
  | nil => exact (Except.ok.inj h).symm
  | cons p points ih =>
    unfold keptPoints at h
    split at h
    · rename_i henabled
      obtain ⟨_, -, h⟩ := bind_ok h
      have hoff : pointOff p = true := by
        unfold pointOff
        rw [henabled]
      rw [ih h, List.filter_cons_of_neg (by simp [hoff])]
    · rename_i henabled
      obtain ⟨rest, hrest, h⟩ := bind_ok h
      obtain rfl := Except.ok.inj h
      have hon : pointOff p = false := by
        unfold pointOff
        split
        · rename_i hoff
          exact absurd hoff henabled
        · rfl
      rw [ih hrest, List.filter_cons_of_pos (by simp [hon])]

theorem elements_setKey {v : Toml} (h : v.asTable.isSome = true) (items : List Toml) :
    elements (setKey v key (.array items)) key = items := by
  cases v with
  | table entries =>
    apply elements_of_asArray (w := .array items)
    · show TomlTable.get (TomlTable.insert entries key _) key = _
      rw [TomlTable.get_insert, if_pos rfl]
    · rfl
  | _ => cases h

theorem asTable_of_get {v w : Toml} (h : v.get key = some w) : v.asTable.isSome = true := by
  cases v with
  | table entries => rfl
  | _ => cases h

/-- The same for the points of a device. -/
theorem dropDisabledPoints_ok {device device' : Toml}
    (h : dropDisabledPoints site device name = .ok device') :
    elements device' "point" = (elements device "point").filter fun p => !pointOff p := by
  unfold dropDisabledPoints at h
  split at h
  · rename_i hnone
    obtain rfl := Except.ok.inj h
    unfold elements
    rw [hnone]
    rfl
  · rename_i points hpoints
    obtain ⟨w, hget, hitems⟩ := Option.bind_eq_some_iff.mp hpoints
    cases hkept : keptPoints site name points with
    | error e =>
      rw [hkept] at h
      cases h
    | ok kept =>
      rw [hkept] at h
      obtain rfl := Except.ok.inj h
      rw [elements_setKey (asTable_of_get hget), elements_of_asArray hget hitems]
      exact keptPoints_ok hkept

theorem inlinePoints_ok {inline : List Toml} (h : inlinePoints device name = .ok inline) :
    inline = elements device "point" := by
  unfold inlinePoints at h
  split at h
  · rename_i hget
    obtain rfl := Except.ok.inj h
    unfold elements
    rw [hget]
    rfl
  · rename_i w hget
    split at h
    · rename_i items hitems
      obtain rfl := Except.ok.inj h
      exact (elements_of_asArray hget hitems).symm
    · cases h

theorem withResolved_ok {device device' : Toml} {deviceType : Option String}
    (h : withResolved site device name points deviceType = .ok device') :
    elements device' "point" = points.filter fun p => !pointOff p := by
  unfold withResolved at h
  split at h
  · cases h
  · rename_i table htable
    rw [dropDisabledPoints_ok h, elements_setKey]
    cases device with
    | table entries =>
      split
      · split <;> rfl
      · rfl
    | _ => cases htable

theorem laid_deviceDefinitions (libs : List Toml) (device : Toml) :
    (deviceDefinitions libs device).map Definition.laid =
      (libs.flatMap libraryDefinitions).map Definition.laid ++ elements device "point" := by
  unfold deviceDefinitions
  rw [List.map_append, List.map_map]
  congr 1
  exact List.map_id'' (fun _ => rfl) _

theorem devicePoints_eq (h : libs ≠ []) (device : Toml) :
    devicePoints libs device =
      (((deviceDefinitions libs device).map Definition.laid).foldl mergePoint {}).points := by
  rw [laid_deviceDefinitions]
  unfold devicePoints resolvedPoints
  cases libs with
  | nil => exact absurd rfl h
  | cons lib libs =>
    rw [List.map_flatMap, ← List.flatMap_def]
    rfl

/-- An expanded device has the points of its libraries and its own. -/
theorem expandDevice_ok {cache cache' : Cache} {expanded : Toml}
    (hcache : CacheOk site protocol cache)
    (h : (expandDevice site protocol dirs device cache).result = .ok (cache', expanded)) :
    CacheOk site protocol cache' ∧ ∃ libs, Expanded site protocol dirs device expanded libs := by
  unfold expandDevice at h
  simp only [Traced.result_bind, Traced.result_lift] at h
  obtain ⟨_, -, h⟩ := bind_ok h
  obtain ⟨refs, hrefs, h⟩ := bind_ok h
  have hsame := deviceRefs_ok hrefs
  split at h
  · rename_i hempty
    simp only [Traced.result_bind, Traced.result_lift] at h
    obtain ⟨device', hdrop, h⟩ := bind_ok h
    obtain ⟨rfl, rfl⟩ := Prod.mk.inj (Except.ok.inj h)
    refine ⟨hcache, [], ?_, dropDisabledPoints_ok hdrop⟩
    rw [← hsame, List.isEmpty_iff.mp hempty]
    exact .nil
  · rename_i hrefs'
    simp only [Traced.result_bind, Traced.result_lift] at h
    obtain ⟨g, hg, h⟩ := bind_ok h
    obtain ⟨inline, hinline, h⟩ := bind_ok h
    obtain ⟨device', hresolved, h⟩ := bind_ok h
    obtain ⟨rfl, rfl⟩ := Prod.mk.inj (Except.ok.inj h)
    obtain ⟨hcache', libs, hreads, hmerged⟩ := gather_foldlM hcache hg
    refine ⟨hcache', libs, hsame ▸ hreads, ?_⟩
    have hlibs : libs ≠ [] := by
      rintro rfl
      cases hreads
      exact hrefs' rfl
    rw [withResolved_ok hresolved, devicePoints_eq hlibs, laid_deviceDefinitions,
      List.foldl_append, inlinePoints_ok hinline, hmerged]

theorem expandDevices_ok {devices expanded : List Toml} {cache : Cache}
    (hcache : CacheOk site protocol cache)
    (h : (expandDevices site protocol dirs devices cache).result = .ok expanded) :
    List.Forall₂ (fun device e => ∃ libs, Expanded site protocol dirs device e libs)
      devices expanded := by
  induction devices generalizing cache expanded with
  | nil =>
    obtain rfl := Except.ok.inj h
    exact .nil
  | cons device devices ih =>
    unfold expandDevices at h
    simp only [Traced.result_bind] at h
    obtain ⟨⟨cache', e⟩, he, h⟩ := bind_ok h
    obtain ⟨rest, hrest, h⟩ := bind_ok h
    obtain rfl := Except.ok.inj h
    obtain ⟨hcache', hexpanded⟩ := expandDevice_ok hcache (mapError_ok he)
    exact .cons hexpanded (ih hcache' hrest)

/-! ## The document -/

/-- The devices kept are those not switched off, with everything but their type. -/
theorem screenDevices_ok {devices screened : List Toml} {seen : List String}
    (h : screenDevices devices seen = .ok screened) :
    List.Forall₂ (fun device s => ∀ key, "type" ≠ key → Toml.get s key = device.get key)
      (devices.filter fun device => !switchedOff device) screened := by
  induction devices generalizing seen screened with
  | nil =>
    obtain rfl := Except.ok.inj h
    exact .nil
  | cons device devices ih =>
    unfold screenDevices at h
    -- a device switched off is left out, with no name taken
    obtain ⟨first, hfirst, h⟩ := bind_ok h
    obtain ⟨rest, hrest, h⟩ := bind_ok h
    obtain rfl := Except.ok.inj h
    cases first with
    | none =>
      have hoff : switchedOff device = true := by
        unfold screenDevice at hfirst
        split at hfirst
        · cases hfirst
        · rename_i hname
          split at hfirst
          · cases hfirst
          · split at hfirst
            · rename_i henabled
              simp [switchedOff, hname, henabled]
            · obtain ⟨_, -, hfirst⟩ := bind_ok hfirst
              obtain ⟨_, -, hfirst⟩ := bind_ok hfirst
              cases hfirst
            · cases hfirst
            · obtain ⟨_, -, hfirst⟩ := bind_ok hfirst
              obtain ⟨_, -, hfirst⟩ := bind_ok hfirst
              cases hfirst
      rw [List.filter_cons_of_neg (by simp [hoff])]
      exact ih hrest
    | some s =>
      obtain ⟨hon, hget⟩ := screenDevice_get hfirst
      rw [List.filter_cons_of_pos (by simp [hon])]
      exact .cons hget (ih hrest)

theorem forall₂_trans {α β γ : Type} {R : α → β → Prop} {S : β → γ → Prop} {T : α → γ → Prop}
    {as : List α} {bs : List β} {cs : List γ} (hR : List.Forall₂ R as bs)
    (hS : List.Forall₂ S bs cs) (h : ∀ a b c, R a b → S b c → T a c) : List.Forall₂ T as cs := by
  induction hR generalizing cs with
  | nil =>
    cases hS
    exact .nil
  | cons hab _ ih =>
    cases hS with
    | cons hbc hrest => exact .cons (h _ _ _ hab hbc) (ih hrest)

theorem mem_of_forall₂ {α β : Type} {R : α → β → Prop} {as : List α} {bs : List β}
    (h : List.Forall₂ R as bs) {b : β} (hb : b ∈ bs) : ∃ a ∈ as, R a b := by
  induction h with
  | nil => cases hb
  | @cons a b' as bs hab _ ih =>
    rcases List.mem_cons.mp hb with rfl | hb
    · exact ⟨a, List.mem_cons_self, hab⟩
    · obtain ⟨a', ha', hR⟩ := ih hb
      exact ⟨a', List.mem_cons_of_mem a ha', hR⟩

theorem elements_congr {v w : Toml} (h : v.get key = w.get key) :
    elements v key = elements w key := by
  unfold elements
  rw [h]

theorem Expanded.congr {device screened expanded : Toml}
    (hget : ∀ key, "type" ≠ key → screened.get key = device.get key)
    (h : Expanded site protocol dirs screened expanded libs) :
    Expanded site protocol dirs device expanded libs := by
  have hpoints := elements_congr (hget "point" (by decide))
  constructor
  · have hrefs := h.reads
    unfold references at hrefs ⊢
    rwa [hget "points_from" (by decide)] at hrefs
  · have hdevice := h.points
    unfold devicePoints at hdevice ⊢
    rwa [hpoints] at hdevice

/-- The whole document: its devices in order, each expanded. -/
theorem expand_ok {doc doc' : Toml} (hprotocol : protocolOf doc = some protocol)
    (h : (expand site doc).result = .ok doc') :
    ∃ dirs, searchPath site doc = .ok dirs ∧
      List.Forall₂ (fun device e => ∃ libs, Expanded site protocol dirs device e libs)
        (loaded doc) (devices doc') := by
  unfold expand at h
  simp only [hprotocol, Traced.result_bind, Traced.result_lift] at h
  obtain ⟨dirs, hdirs, h⟩ := bind_ok h
  refine ⟨dirs, hdirs, ?_⟩
  split at h
  · rename_i hnone
    obtain rfl := Except.ok.inj h
    unfold loaded devices
    rw [hnone]
    exact .nil
  · rename_i all hall
    simp only [Traced.result_bind, Traced.result_lift] at h
    obtain ⟨screened, hscreened, h⟩ := bind_ok h
    obtain ⟨expanded, hexpanded, h⟩ := bind_ok h
    obtain rfl := Except.ok.inj h
    obtain ⟨w, hget, hitems⟩ := Option.bind_eq_some_iff.mp hall
    have hdevices : devices (setKey doc "device" (.array expanded)) = expanded :=
      elements_setKey (asTable_of_get hget) expanded
    have hloaded : devices doc = all := elements_of_asArray hget hitems
    unfold loaded
    rw [hdevices, hloaded]
    have hempty : CacheOk site protocol [] := by
      intro e he
      cases he
    apply forall₂_trans (screenDevices_ok hscreened) (expandDevices_ok hempty hexpanded)
    rintro device s e hgets ⟨libs, hlibs⟩
    exact ⟨libs, hlibs.congr hgets⟩

/-! ## The law of a device -/

theorem wellFormed_elements {v : Toml} (h : v.WellFormed) (key : String) :
    ∀ p ∈ elements v key, p.WellFormed := by
  unfold elements
  cases hget : v.get key with
  | none => simp
  | some w =>
    have hw := h.get hget
    cases w with
    | array items => exact (Toml.itemsWellFormed_iff items).mp hw
    | _ => simp [Toml.asArray]

theorem wellFormed_devices (h : doc.WellFormed) :
    ∀ device ∈ devices doc, device.WellFormed := wellFormed_elements h "device"

theorem written_libraryDefinitions (hsite : site.Lawful) {protocol reference : String} {lib : Toml}
    (h : Reads site protocol dirs reference lib) : ∀ d ∈ libraryDefinitions lib, d.Written := by
  obtain ⟨_, file, parsed, -, -, hread, hparse⟩ := h
  have hw := hsite.wellFormed file lib hread
  intro d hd
  obtain ⟨p, hp, rfl⟩ := List.mem_map.mp hd
  constructor
  · exact wellFormed_elements hw "point" p hp
  · intro l hl
    exact hw.get hl
  · exact (parseLibrary_ok hparse).2 p hp

theorem written_deviceDefinitions (hsite : site.Lawful) {device expanded : Toml}
    (hdevice : device.WellFormed)
    (horigin : ∀ p ∈ elements device "point", p.get ADDRESS_ORIGIN = none)
    (h : Expanded site protocol dirs device expanded libs) :
    ∀ d ∈ deviceDefinitions libs device, d.Written := by
  intro d hd
  rcases List.mem_append.mp hd with hd | hd
  · obtain ⟨lib, hlib, hd⟩ := List.mem_flatMap.mp hd
    obtain ⟨reference, -, hreads⟩ := mem_of_forall₂ h.reads hlib
    exact written_libraryDefinitions hsite hreads d hd
  · obtain ⟨p, hp, rfl⟩ := List.mem_map.mp hd
    constructor
    · exact wellFormed_elements hdevice "point" p hp
    · intro l hl
      cases hl
    · exact horigin p hp

/-- The ids of the device's own points. -/
def ownIds (device : Toml) : List String := (elements device "point").filterMap pointId

theorem ids_deviceDefinitions_nil (device : Toml) :
    (deviceDefinitions [] device).filterMap (fun d => pointId d.point) = ownIds device := by
  unfold deviceDefinitions ownIds
  rw [List.flatMap_nil, List.nil_append, List.filterMap_map]
  rfl

/-- The definitions of a device, merged. -/
def mergedPoints (libs : List Toml) (device : Toml) : List Toml :=
  (((deviceDefinitions libs device).map Definition.laid).foldl mergePoint {}).points

/-- A device's points are the merged ones unless it has no library and repeats an id. -/
theorem devicePoints_merged_iff (h : ∀ d ∈ deviceDefinitions libs device, d.Written) :
    devicePoints libs device = mergedPoints libs device ↔ (libs = [] → (ownIds device).Nodup) := by
  cases libs with
  | cons lib libs => simp [devicePoints_eq, mergedPoints]
  | nil =>
    have hids := (mergeLaw_foldl h).ids
    rw [ids_deviceDefinitions_nil] at hids
    constructor
    · intro heq _
      have hown : ownIds device = (ownIds device).eraseDups := by
        rw [← hids]
        show (devicePoints [] device).filterMap pointId = (mergedPoints [] device).filterMap pointId
        rw [heq]
      rw [hown]
      exact nodup_eraseDups _
    · intro hnodup
      have hw : ∀ p ∈ (deviceDefinitions [] device).map Definition.laid, p.WellFormed := by
        intro p hp
        obtain ⟨d, hd, rfl⟩ := List.mem_map.mp hp
        exact Definition.wellFormed_laid (h d hd)
      have hall : (deviceDefinitions [] device).map Definition.laid = elements device "point" := by
        rw [laid_deviceDefinitions]
        rfl
      have hfold := foldl_of_nodup follows_empty hw (by rw [hall]; exact hnodup rfl)
      unfold mergedPoints
      rw [hfold, hall]
      rfl

theorem mergeLaw_iff (h : ∀ d ∈ deviceDefinitions libs device, d.Written) :
    MergeLaw (deviceDefinitions libs device) (devicePoints libs device) ↔
      (libs = [] → (ownIds device).Nodup) := by
  constructor
  · rintro hlaw rfl
    have hids := hlaw.ids
    rw [ids_deviceDefinitions_nil] at hids
    have hown : ownIds device = (ownIds device).eraseDups := hids
    rw [hown]
    exact nodup_eraseDups _
  · intro hnodup
    rw [(devicePoints_merged_iff h).mpr hnodup]
    exact mergeLaw_foldl h

/-! ## What an accepted configuration holds -/

theorem no_origin_inline (h : checkDocument doc = .ok ()) :
    ∀ device ∈ devices doc, ∀ p ∈ elements device "point", p.get ADDRESS_ORIGIN = none := by
  intro device hdevice p hp
  have hkeys : checkDeviceKeys device = .ok () := by
    unfold checkDocument at h
    obtain ⟨_, -, h⟩ := bind_ok h
    split at h
    · obtain ⟨_, -, h⟩ := bind_ok h
      exact forM_ok h device hdevice
    · obtain ⟨_, -, h⟩ := bind_ok h
      obtain ⟨_, -, h⟩ := bind_ok h
      exact forM_ok h device hdevice
  unfold checkDeviceKeys at hkeys
  obtain ⟨_, -, hkeys⟩ := bind_ok hkeys
  obtain ⟨_, -, hkeys⟩ := bind_ok hkeys
  obtain ⟨_, -, hkeys⟩ := bind_ok hkeys
  exact no_addressOrigin (forM_ok hkeys p hp)

theorem resolve_ok {config : ConnectorConfig} (h : (resolve site doc).result = .ok config) :
    checkDocument doc = .ok () ∧ ∃ doc', (expand site doc).result = .ok doc' ∧
      site.typed doc' = .ok config := by
  unfold resolve at h
  rw [Traced.result_bind] at h
  obtain ⟨_, hcheck, h⟩ := bind_ok h
  refine ⟨hcheck, ?_⟩
  split at h
  · rw [Traced.result_bind] at h
    exact bind_ok h
  · rw [Traced.result_bind] at h
    obtain ⟨_, -, h⟩ := bind_ok h
    rw [Traced.result_bind] at h
    exact bind_ok h

theorem protocolOf_expand {doc doc' : Toml} (h : (expand site doc).result = .ok doc') :
    protocolOf doc' = protocolOf doc := by
  unfold expand at h
  split at h
  · obtain rfl := Except.ok.inj h
    rfl
  · simp only [Traced.result_bind, Traced.result_lift] at h
    obtain ⟨_, -, h⟩ := bind_ok h
    split at h
    · obtain rfl := Except.ok.inj h
      rfl
    · simp only [Traced.result_bind, Traced.result_lift] at h
      obtain ⟨_, -, h⟩ := bind_ok h
      obtain ⟨_, -, h⟩ := bind_ok h
      obtain rfl := Except.ok.inj h
      unfold protocolOf
      rw [get_setKey _ _ _ _ (by decide)]

/-- A device of an accepted configuration and what has become of it. -/
structure Loaded (site : Site) (protocol : String) (dirs : List String) (device expanded : Toml)
    (libs : List Toml) : Prop extends Expanded site protocol dirs device expanded libs where
  written : ∀ d ∈ deviceDefinitions libs device, d.Written

theorem Loaded.libs_nil_iff {device expanded : Toml}
    (h : Loaded site protocol dirs device expanded libs) : libs = [] ↔ references device = [] := by
  have hlength := h.reads.length_eq
  rw [← List.length_eq_zero_iff, ← List.length_eq_zero_iff, hlength]

theorem resolve_loaded {config : ConnectorConfig} (hsite : site.Lawful) (hdoc : doc.WellFormed)
    (h : (resolve site doc).result = .ok config) :
    ∃ dirs doc', searchPath site doc = .ok dirs ∧ (expand site doc).result = .ok doc' ∧
      site.typed doc' = .ok config ∧
      List.Forall₂ (fun device e => ∃ libs, Loaded site config.protocol dirs device e libs)
        (loaded doc) (devices doc') := by
  obtain ⟨hcheck, doc', hexpand, htyped⟩ := resolve_ok h
  have hprotocol : protocolOf doc = some config.protocol := by
    rw [← protocolOf_expand hexpand]
    exact hsite.protocol doc' config htyped
  obtain ⟨dirs, hdirs, hdevices⟩ := expand_ok hprotocol hexpand
  refine ⟨dirs, doc', hdirs, hexpand, htyped, ?_⟩
  have hmem : ∀ device ∈ loaded doc, device ∈ devices doc := fun device hdevice =>
    (List.mem_filter.mp hdevice).1
  apply List.Forall₂.imp _ ((List.forall₂_and_left _ _).mpr ⟨hmem, hdevices⟩)
  rintro device e ⟨hdevice, libs, hlibs⟩
  exact ⟨libs, hlibs, written_deviceDefinitions hsite (wellFormed_devices hdoc device hdevice)
    (no_origin_inline hcheck device hdevice) hlibs⟩

end TedgeDot.Library
