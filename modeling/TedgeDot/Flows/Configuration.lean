import TedgeDot.Flows.Ownership
import TedgeDot.Flows.Sources

/-!
# Configurations

What a connector is configured with for a device, and what it publishes of it: the entries of its
capability descriptor (the SDK's `parameter_keys`), its link status and the samples of its points.
-/

namespace TedgeDot.Flows

open ParameterState

/-- A configured point: its `access`, and its `meta` as the samples echo it. -/
structure ConfiguredPoint where
  id : String
  access : String
  pointMeta : Option Json

namespace ConfiguredPoint

/-- A point that is read delivers samples. -/
def readable (p : ConfiguredPoint) : Bool := p.access == "read" || p.access == "read_write"

def description (p : ConfiguredPoint) : Json :=
  .object (("access", Json.string p.access) :: (p.pointMeta.map fun v => ("meta", v)).toList)

/-- The sets of the point; none for a point that is no parameter. -/
def sets (p : ConfiguredPoint) (names : Names) : List String :=
  (setsFromSample p.description names).getD []

def key (p : ConfiguredPoint) : String := keyFromSample p.description p.id

/-- `parameter_keys`, of one point. -/
def parameterKey (device : String) (p : ConfiguredPoint) : Option Json :=
  match p.pointMeta.bind (·.get "parameter") with
  | some (.object options) =>
    let entry := [("device", Json.string device), ("point", Json.string p.id)]
    match JsonMap.get options "fragment" with
    | some fragment => some (.object (entry ++ [("fragment", fragment)]))
    | none =>
      match JsonMap.get options "key" with
      | some (.string key) => some (.object (entry ++ [("key", .string key)] ++
          ["set", "group"].filterMap fun name =>
            (JsonMap.get options name).map fun v => (name, v)))
      | _ => none
  | _ => none

end ConfiguredPoint

/-- What the connector of a device is configured with. -/
structure Configuration where
  device : String
  protocol : String
  service : String
  /-- Empty where the device has no type. -/
  deviceType : String
  points : List ConfiguredPoint

namespace Configuration

def ids (conf : Configuration) : List String := conf.points.map ConfiguredPoint.id

def names (conf : Configuration) (cfg : Config) : Names :=
  naming cfg.defaultSet conf.deviceType conf.protocol

/-- What the flow keeps of the entries of the descriptor. -/
def entries (conf : Configuration) : List Json :=
  (conf.points.filterMap (ConfiguredPoint.parameterKey conf.device)).map pick

/-- No two points share a key of a set, and no name is both a literal and a set. -/
structure Valid (conf : Configuration) (names : Names) : Prop where
  distinct : conf.ids.Nodup
  named : ∀ p ∈ conf.points, p.id ≠ ""
  unshared : ∀ p ∈ conf.points, ∀ q ∈ conf.points, ∀ set, set ∈ p.sets names → set ∈ q.sets names →
    p.key = q.key → p = q
  oneShape : ∀ p ∈ conf.points, ∀ q ∈ conf.points, ∀ set, set ∈ p.sets names → set ∈ q.sets names →
    p.key = literalKey → q.key = literalKey

/-! ## Messages -/

/-- The member `type` of a message. -/
def SaysType (conf : Configuration) (payload : Json) : Prop :=
  textOf payload "type" = (some conf.deviceType).filter fun type => type != ""

/-- A capability descriptor of the connector. -/
def Describes (conf : Configuration) (caps : Json) : Prop :=
  textOf caps "protocol" = some conf.protocol ∧ ∃ listed, descriptorEntries caps = some listed ∧
    (listed.filter fun e => e.1 = conf.device).map (·.2) = conf.entries

def Lists (conf : Configuration) (payload : Json) : Prop :=
  isObject payload = true ∧ conf.SaysType payload ∧ listedPoints payload = some conf.ids

/-- A good sample of a point. -/
structure Samples (conf : Configuration) (p : ConfiguredPoint) (value : Json) (payload : Json) :
    Prop where
  object : isObject payload = true
  type : conf.SaysType payload
  point : payload.get "point" = some (.string p.id)
  access : payload.get "access" = some (.string p.access)
  pointMeta : payload.get "meta" = p.pointMeta
  quality : payload.get "quality" = some (.string "good")
  value : payload.get "value" = some value

/-- The messages of a device that this connector alone serves. -/
def Serves (conf : Configuration) : Event → Prop
  | .message protocol kind _ _ => kind = "sample" ∨ kind = "status" → protocol = conf.protocol
  | .capabilities service caps =>
    (service = conf.service → ∀ protocol ∈ textOf caps "protocol", protocol = conf.protocol) ∧
    (service ≠ conf.service → ∀ listed ∈ descriptorEntries caps, ∀ e ∈ listed, e.1 ≠ conf.device)

end Configuration

/-! ## What the messages say of a point -/

theorem setsFromSample_congr {a b : Json} (haccess : a.get "access" = b.get "access")
    (hmeta : a.get "meta" = b.get "meta") (names : Names) :
    setsFromSample a names = setsFromSample b names := by
  have hparameter : parameterMeta a = parameterMeta b := by simp only [parameterMeta, hmeta]
  simp only [setsFromSample, hparameter, haccess]

theorem keyFromSample_congr {a b : Json} (hmeta : a.get "meta" = b.get "meta") (point : String) :
    keyFromSample a point = keyFromSample b point := by
  have hparameter : parameterMeta a = parameterMeta b := by simp only [parameterMeta, hmeta]
  simp only [keyFromSample, hparameter]

theorem fragmentOf_congr {a b : Json} (hfragment : a.get "fragment" = b.get "fragment") :
    fragmentOf a = fragmentOf b := by
  simp only [fragmentOf, hfragment]

theorem setsOf_congr {a b : Json} (hfragment : a.get "fragment" = b.get "fragment")
    (hkey : a.get "key" = b.get "key") (hset : a.get "set" = b.get "set")
    (hgroup : a.get "group" = b.get "group") (names : Names) : setsOf a names = setsOf b names := by
  simp only [setsOf, keySet, fragmentOf_congr hfragment, hkey, hset, hgroup]

theorem get_selected (f : String → Option Json) (names : List String) (name : String) :
    JsonMap.get (names.filterMap fun name => (f name).map fun v => (name, v)) name =
      if name ∈ names then f name else none := by
  induction names with
  | nil => rfl
  | cons first names ih =>
    cases hfirst : f first with
    | none =>
      rw [List.filterMap_cons_none (by rw [hfirst]; rfl), ih]
      by_cases heq : name = first
      · simp [heq, hfirst]
      · simp [heq]
    | some v =>
      rw [List.filterMap_cons_some (by rw [hfirst]; rfl), JsonMap.get_cons, ih]
      by_cases heq : first = name
      · simp [← heq, hfirst]
      · simp [heq, Ne.symm heq]

theorem pick_get (entry : Json) {name : String}
    (h : name ∈ ["point", "key", "set", "group", "fragment"]) :
    (pick entry).get name = entry.get name :=
  (get_selected entry.get _ name).trans (if_pos h)

namespace ConfiguredPoint

variable {p : ConfiguredPoint}

@[simp] theorem description_access : p.description.get "access" = some (.string p.access) := by
  simp [description, Json.get, JsonMap.get]

@[simp] theorem description_meta : p.description.get "meta" = p.pointMeta := by
  cases h : p.pointMeta <;> simp [description, h, Json.get, JsonMap.get]

theorem placed_by_options {options : JsonMap}
    (h : p.pointMeta.bind (·.get "parameter") = some (.object options)) (names : Names) :
    setsFromSample p.description names = some (setsOf (.object options) names) ∧
      p.key = (declaredKey (.object options)).getD p.id := by
  have hparameter : parameterMeta p.description = some (.object options) := by
    rw [parameterMeta, description_meta, h]
  constructor
  · simp only [setsFromSample, hparameter]
  · simp only [key, keyFromSample, hparameter, declaredKey]
    split <;> rfl

theorem placed_by_entry {options : JsonMap}
    (h : p.pointMeta.bind (·.get "parameter") = some (.object options)) {entry : Json}
    (hfragment : entry.get "fragment" = (Json.object options).get "fragment")
    (hothers : (fragmentOf entry).isSome ∨ ∀ name ∈ ["key", "set", "group"],
      entry.get name = (Json.object options).get name) {key : String}
    (hkey : declaredKey entry = some key) (names : Names) :
    key = p.key ∧ setsFromSample p.description names = some (setsOf entry names) := by
  obtain ⟨hsets, hown⟩ := placed_by_options h names
  have hfragments := fragmentOf_congr hfragment
  rw [hsets, hown]
  rcases hothers with hsome | hothers
  · obtain ⟨name, hname⟩ := Option.isSome_iff_exists.1 hsome
    have hoptions := hfragments.symm.trans hname
    have hliteral : some literalKey = some key := by simpa [declaredKey, hname] using hkey
    simp [declaredKey, setsOf, hname, hoptions, ← Option.some.inj hliteral]
  · have hsame : declaredKey (.object options) = declaredKey entry := by
      simp only [declaredKey, hfragments, hothers "key" (by simp)]
    rw [hsame, hkey, setsOf_congr hfragment (hothers "key" (by simp)) (hothers "set" (by simp))
      (hothers "group" (by simp))]
    exact ⟨rfl, rfl⟩

/-- A descriptor's entry names the key and the sets that the point's samples name. -/
theorem declared_as_sampled {device : String} {entry : Json}
    (h : p.parameterKey device = some entry) :
    entry.get "point" = some (.string p.id) ∧
    ∀ key ∈ declaredKey (pick entry), ∀ names, key = p.key ∧
      setsFromSample p.description names = some (setsOf (pick entry) names) := by
  -- the entry and the sample are made from one table of options
  unfold parameterKey at h
  split at h
  · next options hoptions =>
    dsimp only at h
    split at h
    · next fragment hfragment =>
      obtain rfl := Option.some.inj h
      refine ⟨by simp [Json.get, JsonMap.get], fun key hkey names => ?_⟩
      apply placed_by_entry hoptions _ _ hkey names
      · rw [pick_get _ (by simp)]
        exact (by simp [Json.get, JsonMap.get] : _ = some fragment).trans hfragment.symm
      · -- without its fragment the entry would declare nothing
        left
        by_contra hnone
        have hnokey : (pick (.object ([("device", .string device), ("point", .string p.id)] ++
            [("fragment", fragment)]))).get "key" = none := by
          rw [pick_get _ (by simp)]
          simp [Json.get, JsonMap.get]
        rw [Option.mem_def, declaredKey, if_neg hnone, hnokey] at hkey
        cases hkey
    · next hfragment =>
      split at h
      · next text htext =>
        obtain rfl := Option.some.inj h
        refine ⟨by simp [Json.get, JsonMap.get], fun key hkey names => ?_⟩
        apply placed_by_entry hoptions _ (Or.inr _) hkey names
        · rw [pick_get _ (by simp)]
          simp only [Json.get, JsonMap.get_cons, List.cons_append, List.nil_append, get_selected]
          simpa using hfragment.symm
        · intro name hname
          have hpicked : name ∈ ["point", "key", "set", "group", "fragment"] := by
            simp only [List.mem_cons, List.not_mem_nil, or_false] at hname ⊢
            tauto
          rw [pick_get _ hpicked]
          simp only [Json.get, JsonMap.get_cons, List.cons_append, List.nil_append, get_selected]
          simp only [List.mem_cons, List.not_mem_nil, or_false] at hname
          rcases hname with rfl | rfl | rfl
          · simpa using htext.symm
          · simp
          · simp
      · cases h
  · cases h

end ConfiguredPoint

theorem Configuration.entries_point {conf : Configuration} {e : Json} (h : e ∈ conf.entries) :
    ∃ p ∈ conf.points, e.get "point" = some (.string p.id) := by
  obtain ⟨entry, hentry, rfl⟩ := List.mem_map.1 h
  obtain ⟨p, hp, hkeys⟩ := List.mem_filterMap.1 hentry
  exact ⟨p, hp, (pick_get _ (by simp)).trans (ConfiguredPoint.declared_as_sampled hkeys).1⟩

theorem Configuration.mem_declarations {conf : Configuration} {names : Names} {e : Declaration}
    (h : e ∈ declarations names conf.entries) :
    ∃ p ∈ conf.points, p.id = e.point ∧ p.key = e.key ∧ p.sets names = e.sets := by
  obtain ⟨picked, hpicked, hplace⟩ := List.mem_filterMap.1 h
  obtain ⟨entry, hentry, rfl⟩ := List.mem_map.1 hpicked
  obtain ⟨p, hp, hkeys⟩ := List.mem_filterMap.1 hentry
  obtain ⟨hpoint, hsampled⟩ := ConfiguredPoint.declared_as_sampled hkeys
  refine ⟨p, hp, ?_⟩
  split at hplace
  · next point key hid hkey =>
    obtain rfl := Option.some.inj hplace
    obtain ⟨rfl, hsets⟩ := hsampled key hkey names
    have htext := (Option.filter_eq_some_iff.1 hid).1
    rw [pick_get _ (by simp), hpoint] at htext
    refine ⟨Option.some.inj htext, rfl, ?_⟩
    rw [ConfiguredPoint.sets, hsets]
    rfl
  · cases hplace

end TedgeDot.Flows
