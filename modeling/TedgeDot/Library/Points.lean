import TedgeDot.Library.Expanded

/-!
# Point ids and the merge law

Two results about every configuration that is accepted. The points of its devices obey the merge
law, and with it their ids are unique, but for a device that names no library: there a repeated id
is not merged.
-/

namespace TedgeDot.Library

/-! ## The typed parse -/

/-- One entry of `point`, as far as it is modelled. -/
def readPoint (point : Toml) : Except String PointConfig :=
  match pointId point with
  | some id => .ok { id }
  | none => .error "missing field `id`"

/-- One entry of `device`. -/
def readDevice (device : Toml) : Except String DeviceConfig :=
  match deviceName device with
  | some name => ((elements device "point").mapM readPoint).map fun points => { name, points }
  | none => .error "missing field `name`"

/-- The typed parse of a resolved document. -/
def readConfig (doc : Toml) : Except String ConnectorConfig :=
  match protocolOf doc with
  | some protocol => ((devices doc).mapM readDevice).map fun devices => { protocol, devices }
  | none => .error "missing field `protocol`"

theorem forall₂_of_mapM_ok {ε α β : Type} {f : α → Except ε β} {items : List α} {values : List β}
    (h : items.mapM f = .ok values) : List.Forall₂ (fun x y => f x = .ok y) items values := by
  induction items generalizing values with
  | nil =>
    obtain rfl := Except.ok.inj h
    exact .nil
  | cons item items ih =>
    rw [List.mapM_cons] at h
    obtain ⟨value, hvalue, h⟩ := bind_ok h
    obtain ⟨rest, hrest, h⟩ := bind_ok h
    obtain rfl := Except.ok.inj h
    exact .cons hvalue (ih hrest)

theorem map_ok {ε α β : Type} {f : α → β} {x : Except ε α} {b : β} (h : x.map f = .ok b) :
    ∃ a, x = .ok a ∧ f a = b := by
  cases x with
  | error e => cases h
  | ok a => exact ⟨a, rfl, Except.ok.inj h⟩

theorem readPoint_id {point : Toml} {config : PointConfig} (h : readPoint point = .ok config) :
    pointId point = some config.id := by
  unfold readPoint at h
  split at h
  · rename_i id hid
    obtain rfl := Except.ok.inj h
    exact hid
  · cases h

theorem readPoints_ids {points : List Toml} {configs : List PointConfig}
    (h : List.Forall₂ (fun p config => readPoint p = .ok config) points configs) :
    points.map pointId = configs.map fun config => some config.id := by
  induction h with
  | nil => rfl
  | cons hp _ ih => rw [List.map_cons, List.map_cons, readPoint_id hp, ih]

theorem readDevice_ids {device : Toml} {d : DeviceConfig} (h : readDevice device = .ok d) :
    (elements device "point").map pointId = d.points.map fun p => some p.id := by
  unfold readDevice at h
  split at h
  · obtain ⟨points, hpoints, rfl⟩ := map_ok h
    exact readPoints_ids (forall₂_of_mapM_ok hpoints)
  · cases h

theorem lawful_readConfig {site : Site} (htyped : site.typed = readConfig)
    (hread : ∀ path doc, site.read path = .ok doc → doc.WellFormed) : site.Lawful where
  wellFormed := hread
  protocol doc config h := by
    rw [htyped] at h
    unfold readConfig at h
    split at h
    · rename_i protocol hprotocol
      obtain ⟨devices, -, rfl⟩ := map_ok h
      exact hprotocol
    · cases h
  points doc config h := by
    rw [htyped] at h
    unfold readConfig at h
    split at h
    · obtain ⟨ds, hds, rfl⟩ := map_ok h
      exact (forall₂_of_mapM_ok hds).imp fun _ _ hd => readDevice_ids hd
    · cases h

/-! A library of one point, and devices that refer to it or repeat an id of their own. -/

def pointAt (id : String) (register : Int64) : Toml :=
  .table [("address", .table [("register", .integer register)]), ("id", .string id)]

/-- A library with the power of a meter. -/
def powerLibrary : Toml :=
  .table [("library", .table [("protocol", .string "modbus")]),
    ("point", .array [pointAt "power" 7])]

def powerSite : Site where
  baseDir := "/etc/tedge/plugins/ot"
  isFile path := path == "/etc/tedge/plugins/ot/points.d/modbus/meter.toml"
  read _ := .ok powerLibrary
  pointConfig _ := .ok ()
  typed := readConfig

def documentOf (device : Toml) : Toml :=
  .table [("connector", .table [("protocol", .string "modbus")]), ("device", .array [device])]

def repeatedDevice : Toml :=
  .table [("name", .string "plc"), ("point", .array [pointAt "power" 7, pointAt "power" 9])]

/-- The same device, with a library of that point. -/
def movedDevice : Toml :=
  .table [("name", .string "plc"), ("point", .array [pointAt "power" 7, pointAt "power" 9]),
    ("points_from", .array [.string "meter"])]

/-- The point ids of the devices that a document is resolved to. -/
def resolvedIds (doc : Toml) : Option (List (List String)) :=
  (resolve powerSite doc).result.toOption.map fun config =>
    config.devices.map fun d => d.points.map PointConfig.id

theorem lawful_powerSite : powerSite.Lawful := by
  apply lawful_readConfig rfl
  intro path doc h
  obtain rfl := Except.ok.inj h
  simp only [powerLibrary, pointAt, Toml.WellFormed, Toml.EntriesWellFormed, Toml.ItemsWellFormed,
    and_true]
  decide

theorem accepted_of_ids {doc : Toml} {ids : List (List String)} (h : resolvedIds doc = some ids) :
    ∃ config, (resolve powerSite doc).result = .ok config := by
  unfold resolvedIds at h
  cases hresult : (resolve powerSite doc).result with
  | error e =>
    rw [hresult] at h
    cases h
  | ok config => exact ⟨config, rfl⟩

theorem wellFormed_documentOf {device : Toml} (h : device.WellFormed) :
    (documentOf device).WellFormed := by
  have hkeys : ["connector", "device"].Pairwise (fun a b : String => a < b) := by decide
  simp only [documentOf, Toml.WellFormed, Toml.EntriesWellFormed, Toml.ItemsWellFormed, and_true, h]
  exact ⟨hkeys, List.pairwise_singleton _ _⟩

theorem wellFormed_movedDevice : movedDevice.WellFormed := by
  simp only [movedDevice, pointAt, Toml.WellFormed, Toml.EntriesWellFormed,
    Toml.ItemsWellFormed, and_true]
  decide

/-! ## The merge law -/

/-- **The merge law.** Every device of an accepted configuration that is not switched off gets the
points of `devicePoints` without those that are off, and these obey the law of the definitions of
its libraries and its own exactly when it refers to a library or repeats no id of its own. -/
theorem merge_law {site : Site} {doc : Toml} {config : ConnectorConfig} (hsite : site.Lawful)
    (hdoc : doc.WellFormed) (h : (resolve site doc).result = .ok config) :
    ∃ dirs doc', searchPath site doc = .ok dirs ∧ (expand site doc).result = .ok doc' ∧
      site.typed doc' = .ok config ∧
      List.Forall₂ (fun device e => ∃ libs, Expanded site config.protocol dirs device e libs ∧
          (MergeLaw (deviceDefinitions libs device) (devicePoints libs device) ↔
            references device ≠ [] ∨ (ownIds device).Nodup))
        (loaded doc) (devices doc') := by
  obtain ⟨dirs, doc', hdirs, hexpand, htyped, hdevices⟩ := resolve_loaded hsite hdoc h
  refine ⟨dirs, doc', hdirs, hexpand, htyped, hdevices.imp ?_⟩
  rintro device e ⟨libs, hlibs⟩
  refine ⟨libs, hlibs.toExpanded, ?_⟩
  rw [mergeLaw_iff hlibs.written, hlibs.libs_nil_iff]
  tauto

/-- With a library, a point of the library that the device defines twice is there once. -/
theorem merge_law_moved : ∃ config, (resolve powerSite (documentOf movedDevice)).result = .ok config ∧
    ∃ dirs doc', searchPath powerSite (documentOf movedDevice) = .ok dirs ∧
      (expand powerSite (documentOf movedDevice)).result = .ok doc' ∧
      powerSite.typed doc' = .ok config ∧
      List.Forall₂ (fun device e => ∃ libs, Expanded powerSite config.protocol dirs device e libs ∧
          (MergeLaw (deviceDefinitions libs device) (devicePoints libs device) ↔
            references device ≠ [] ∨ (ownIds device).Nodup))
        (loaded (documentOf movedDevice)) (devices doc') := by
  have hids : resolvedIds (documentOf movedDevice) = some [["power"]] := by decide +kernel
  obtain ⟨config, hconfig⟩ := accepted_of_ids hids
  exact ⟨config, hconfig,
    merge_law lawful_powerSite (wellFormed_documentOf wellFormed_movedDevice) hconfig⟩

/-- Without one the law fails: the id is there twice. -/
theorem law_broken : resolvedIds (documentOf repeatedDevice) = some [["power", "power"]] ∧
    loaded (documentOf repeatedDevice) = [repeatedDevice] ∧
    ¬ MergeLaw (deviceDefinitions [] repeatedDevice) (devicePoints [] repeatedDevice) := by
  refine ⟨by decide +kernel, rfl, fun hlaw => ?_⟩
  exact absurd hlaw.ids (by decide +kernel)

/-! ## Unique ids -/

theorem ids_sublist {libs : List Toml} {device e : Toml} {site : Site} {protocol : String}
    {dirs : List String} (h : Expanded site protocol dirs device e libs) :
    ((elements e "point").filterMap pointId).Sublist ((devicePoints libs device).filterMap
      pointId) := by
  rw [h.points]
  exact List.Sublist.filterMap _ List.filter_sublist

/-- **Point ids.** In an accepted configuration the point ids of every device are pairwise
distinct, and every device's own points are merged whether or not it names a library, exactly when
no device without a library repeats an id. -/
theorem ids_unique_iff {site : Site} {doc : Toml} {config : ConnectorConfig} (hsite : site.Lawful)
    (hdoc : doc.WellFormed) (h : (resolve site doc).result = .ok config) :
    ∃ dirs doc', searchPath site doc = .ok dirs ∧ (expand site doc).result = .ok doc' ∧
      site.typed doc' = .ok config ∧
      ((∀ d ∈ config.devices, (d.points.map PointConfig.id).Nodup) ∧
        List.Forall₂ (fun device e => ∃ libs, Expanded site config.protocol dirs device e libs ∧
          devicePoints libs device = mergedPoints libs device) (loaded doc) (devices doc') ↔
        ∀ device ∈ loaded doc, references device = [] → (ownIds device).Nodup) := by
  obtain ⟨dirs, doc', hdirs, hexpand, htyped, hdevices⟩ := resolve_loaded hsite hdoc h
  refine ⟨dirs, doc', hdirs, hexpand, htyped, ?_, ?_⟩
  · rintro ⟨-, hmerged⟩ device hdevice hrefs
    obtain ⟨e, -, libs, hlibs⟩ := mem_of_forall₂ hdevices.flip hdevice
    obtain ⟨e', -, libs', hlibs', heq⟩ := mem_of_forall₂ hmerged.flip hdevice
    -- without a reference there are no libraries
    obtain rfl : libs = [] := hlibs.libs_nil_iff.mpr hrefs
    obtain rfl : libs' = [] := by
      have hreads := hlibs'.reads
      rw [hrefs] at hreads
      cases hreads
      rfl
    exact (devicePoints_merged_iff hlibs.written).mp heq rfl
  · intro hcond
    have hall := (List.forall₂_and_left _ _).mpr ⟨hcond, hdevices⟩
    have hmerged : List.Forall₂ (fun device e => ∃ libs,
        Loaded site config.protocol dirs device e libs ∧
          devicePoints libs device = mergedPoints libs device) (loaded doc) (devices doc') := by
      apply hall.imp
      rintro device e ⟨hnodup, libs, hlibs⟩
      refine ⟨libs, hlibs, (devicePoints_merged_iff hlibs.written).mpr fun hnil => ?_⟩
      exact hnodup (hlibs.libs_nil_iff.mp hnil)
    constructor
    · intro d hd
      obtain ⟨e, he, hids⟩ := mem_of_forall₂ (hsite.points doc' config htyped) hd
      obtain ⟨device, -, libs, hlibs, heq⟩ := mem_of_forall₂ hmerged he
      have hfilter : (elements e "point").filterMap pointId = d.points.map PointConfig.id := by
        calc (elements e "point").filterMap pointId
            = ((elements e "point").map pointId).filterMap id := by rw [List.filterMap_map]; rfl
          _ = (d.points.map fun p => some p.id).filterMap id := by rw [hids]
          _ = d.points.map PointConfig.id := by
            rw [List.filterMap_map]
            exact congrFun (List.filterMap_eq_map (f := PointConfig.id)) d.points
      rw [← hfilter]
      apply (ids_sublist hlibs.toExpanded).nodup
      rw [heq]
      exact (mergeLaw_foldl hlibs.written).ids ▸ nodup_eraseDups _
    · apply hmerged.imp
      rintro device e ⟨libs, hlibs, heq⟩
      exact ⟨libs, hlibs.toExpanded, heq⟩

theorem ids_unique_moved :
    ∃ config, (resolve powerSite (documentOf movedDevice)).result = .ok config ∧
    ∃ dirs doc', searchPath powerSite (documentOf movedDevice) = .ok dirs ∧
      (expand powerSite (documentOf movedDevice)).result = .ok doc' ∧
      powerSite.typed doc' = .ok config ∧
      ((∀ d ∈ config.devices, (d.points.map PointConfig.id).Nodup) ∧
        List.Forall₂ (fun device e => ∃ libs, Expanded powerSite config.protocol dirs device e libs ∧
          devicePoints libs device = mergedPoints libs device)
          (loaded (documentOf movedDevice)) (devices doc') ↔
        ∀ device ∈ loaded (documentOf movedDevice), references device = [] →
          (ownIds device).Nodup) := by
  have hids : resolvedIds (documentOf movedDevice) = some [["power"]] := by decide +kernel
  obtain ⟨config, hconfig⟩ := accepted_of_ids hids
  exact ⟨config, hconfig,
    ids_unique_iff lawful_powerSite (wellFormed_documentOf wellFormed_movedDevice) hconfig⟩

/-- The same two definitions are two points without a library and one with it. -/
theorem ids_repeated : resolvedIds (documentOf repeatedDevice) = some [["power", "power"]] ∧
    resolvedIds (documentOf movedDevice) = some [["power"]] := by decide +kernel

end TedgeDot.Library
