import Mathlib.Data.List.AList
import TedgeDot.Lib.Machine
import TedgeDot.Measure.Plan

/-!
# The point tables

`measure.rs`, second part: the data of the `Batcher` and how `Batcher::new` builds it from a
configuration. A `HashMap` that is only looked up is a function; the open messages, which are also
iterated, are an association list. The text of a message being filled is kept as the list of its
entries (`Open.body` is the text). `ryu`, which formats doubles, is a parameter.
-/

namespace TedgeDot.Measure

/-! ## JSON text -/

/-- The `ryu` crate: `Buffer::format_finite`. -/
class Ryu where
  formatFinite : Float → String

def hexDigit (n : Nat) : Char := if n < 10 then Char.ofNat (48 + n) else Char.ofNat (87 + n)

/-- How serde_json writes one character of a string. -/
def escapeChar (c : Char) : List Char :=
  if c = '"' then ['\\', '"']
  else if c = '\\' then ['\\', '\\']
  else if c = '\x08' then ['\\', 'b']
  else if c = '\t' then ['\\', 't']
  else if c = '\n' then ['\\', 'n']
  else if c = '\x0c' then ['\\', 'f']
  else if c = '\r' then ['\\', 'r']
  else if c.toNat < 32 then ['\\', 'u', '0', '0', hexDigit (c.toNat / 16), hexDigit (c.toNat % 16)]
  else [c]

/-- `s` as a JSON string. -/
def quoted (s : String) : String :=
  String.ofList ('"' :: (s.toList.flatMap escapeChar ++ ['"']))

/-- `push_number`: an integer without a fraction, else the shortest form that reads back as the
same double. -/
def pushNumber [Ryu] (n : Float) : String :=
  if n.abs < 1e15 && n.abs.toUInt64.toFloat == n.abs then
    (if n < 0.0 then "-" else "") ++ toString n.abs.toUInt64.toNat
  else Ryu.formatFinite n

/-- `BTreeMap::insert`. -/
def btreeInsert (key value : String) : List (String × String) → List (String × String)
  | [] => [(key, value)]
  | (k, v) :: rest =>
    if key < k then (key, value) :: (k, v) :: rest
    else if key = k then (key, value) :: rest
    else (k, v) :: btreeInsert key value rest

/-- The units message of a topic. Without units it is empty. -/
def unitsText (units : List (String × String)) : String :=
  if units.isEmpty then ""
  else
    let member := fun (key, unit) => quoted key ++ ":\x7b\"unit\":" ++ quoted unit ++ "\x7d"
    "\x7b" ++ ",".intercalate (units.map member) ++ "\x7d"

/-! ## Times -/

/-- `time::OffsetDateTime`, as Unix nanoseconds. -/
abbrev OffsetDateTime := Int

namespace OffsetDateTime

/-- `9999-12-31T23:59:59Z`, in Unix seconds. -/
def MAX_SECONDS : Int := 253402300799

/-- `-9999-01-01T00:00:00Z`, in Unix seconds. -/
def MIN_SECONDS : Int := -377705116800

def fromUnixTimestampNanos (nanos : Int) : Option OffsetDateTime :=
  let seconds := nanos / 1000000000
  if MIN_SECONDS ≤ seconds ∧ seconds ≤ MAX_SECONDS then some nanos else none

/-- `ts.unix_timestamp_nanos().div_euclid(1_000_000)`. -/
def unixMs (ts : OffsetDateTime) : Int := ts / 1000000

end OffsetDateTime

/-! ## Tables -/

/-- One series of a message: the index of its point, its key and its value. -/
structure Entry where
  point : Nat
  key : String
  value : Float

/-- What is appended to the body for an entry. -/
def Entry.piece [Ryu] (e : Entry) : String := e.key ++ pushNumber e.value

/-- The text of a message's series, without the braces. -/
def bodyText [Ryu] (entries : List Entry) : String := ",".intercalate (entries.map Entry.piece)

/-- One point's place in its device's table, resolved at load. -/
structure PointPlan where
  /-- Index into the device's `topics`. -/
  topic : Nat
  /-- `"<series>":`, escaped and quoted. -/
  seriesKey : String
  measurable : Bool
  sample : Bool
  groupBy : GroupBy
  /-- Under `"sample"` with `aggregate`: each aggregate with its series key. -/
  aggregates : List (Aggregate × String)
deriving Inhabited

structure Topic where
  topic : String
  /-- `"<group>"`, escaped and quoted. -/
  groupJson : String
  /-- The retained units message for the topic (empty when no series of it has a unit). -/
  units : String
  /-- The units were settled since this batcher was built. -/
  unitsSettled : Bool
deriving Inhabited, DecidableEq

/-- A message being filled: the open `time` message of a topic, or one layer of a frame. -/
structure Open where
  time : OffsetDateTime
  timeMs : Int
  /-- When the frame opened, on the device clock. -/
  opened : Nat
  /-- The part not yet published: its text is `body`, its length `n`. -/
  entries : List Entry
  /-- Every point in the message, including the parts already published by a split. -/
  points : List Nat

namespace Open

def body [Ryu] (o : Open) : String := bodyText o.entries

def n (o : Open) : Nat := o.entries.length

end Open

/-- A point's slot under `"sample"`. -/
structure Slot where
  /-- The good value the point holds, if any. -/
  value : Option Float
  /-- Since when it holds `value`, or since when the period's sums were last closed. -/
  since : Nat
  /-- The sum of each held value times the nanoseconds it held, this period. -/
  sum : Float
  /-- The good nanoseconds this period. -/
  goodNs : Float
  /-- The smallest and largest value held this period. -/
  range : Option (Float × Float)

namespace Slot

def new (now : Nat) : Slot := { value := none, since := now, sum := 0.0, goodNs := 0.0, range := none }

/-- Add the held value's time up to `now` to the period's sums. -/
def close (slot : Slot) (now : Nat) : Slot :=
  match slot.value with
  | some v =>
    let ns := Float.ofNat (now - slot.since)
    { slot with sum := slot.sum + v * ns, goodNs := slot.goodNs + ns, since := now }
  | none => { slot with since := now }

/-- Hold `value` from `now` on (`none`: nothing good is held). Held values are finite. -/
def hold (slot : Slot) (value : Option Float) (now : Nat) : Slot :=
  let slot := { slot.close now with value := value }
  match value with
  | none => slot
  | some v =>
    { slot with
      range := some (match slot.range with
        | none => (v, v)
        | some (lo, hi) => (if v < lo then v else lo, if hi < v then v else hi)) }

/-- Start the next period with the value held now. -/
def restart (slot : Slot) (now : Nat) : Slot :=
  { slot with since := now, sum := 0.0, goodNs := 0.0, range := slot.value.map fun v => (v, v) }

end Slot

/-- A topic of a device under one grouping policy. -/
abbrev Key := Nat × GroupBy

structure DeviceTable where
  points : List PointPlan
  index : String → Option Nat
  topics : List Topic
  /-- The point's values in its open message or frame: the layer its next value goes into. -/
  depth : Nat → Nat
  /-- The open message of a `time` key, or the layers of a `frame` key, in order. -/
  openMsgs : AList fun _ : Key => List Open
  /-- The time of the last layer of each `frame` key, in Unix milliseconds, across frames. -/
  lastLayerMs : Key → Option Int
  slots : Nat → Slot
  /-- One per distinct `every` of the device: the period and the next sample time. -/
  samplers : List (Nat × Nat)
  stale : Bool

/-- The units message last published per meta topic. -/
abbrev PublishedUnits := String → Option String

/-- The point tables of a connector's devices in measurement mode. -/
structure Batcher where
  devices : List DeviceTable
  byName : String → Option Nat
  includeBoolean : Bool
  publishedUnits : PublishedUnits

namespace DeviceTable

def plan (dev : DeviceTable) (k : Nat) : PointPlan := dev.points.getD k default

def topic (dev : DeviceTable) (t : Nat) : Topic := dev.topics.getD t default

def layers (dev : DeviceTable) (key : Key) : List Open := (dev.openMsgs.lookup key).getD []

end DeviceTable

/-! ## Building -/

/-- The parts of a device table while its points are gone through. -/
structure Building where
  topics : List Topic := []
  units : List (List (String × String)) := []
  points : List PointPlan := []
  index : String → Option Nat := fun _ => none
  samplers : List (Nat × Nat) := []

namespace Building

/-- The topic of a group: the one there is, or a new one. -/
def topicFor (b : Building) (deviceName group : String) : Building × Nat :=
  match b.topics.findIdx? fun t => t.groupJson == quoted group with
  | some t => (b, t)
  | none =>
    ({ b with
        topics := b.topics ++ [{
          topic := "te/device/" ++ deviceName ++ "///m/" ++ group
          groupJson := quoted group
          units := ""
          unitsSettled := false }]
        units := b.units ++ [[]] },
      b.topics.length)

/-- The body of the loop over a device's points. -/
def addPoint (config : ConnectorConfig) (device : DeviceConfig) (now : Nat) (b : Building)
    (point : PointConfig) : Building :=
  let (group, series) := (Naming.of config).resolve config.protocol point
  let (b, topic) := b.topicFor device.name group
  let groupBy := groupByOf config device point
  let names := seriesNames config device point
  let units :=
    match point.unit.filter fun u => measurable point device && !u.isEmpty with
    | some unit =>
      b.units.modify topic fun m =>
        names.foldl (fun m (_, name) => btreeInsert (group ++ "." ++ name) unit m) m
    | none => b.units
  let samplers :=
    match groupBy with
    | .sample every =>
      if b.samplers.any fun s => s.1 == every then b.samplers
      else b.samplers ++ [(every, now + every)]
    | _ => b.samplers
  { topics := b.topics
    units := units
    points := b.points ++ [{
      topic := topic
      seriesKey := quoted series ++ ":"
      measurable := measurable point device
      sample := publishesSample point
      groupBy := groupBy
      aggregates := names.filterMap fun (a, name) => a.map fun a => (a, quoted name ++ ":") }]
    index := Function.update b.index point.id (some b.points.length)
    samplers := samplers }

end Building

def DeviceTable.new (config : ConnectorConfig) (device : DeviceConfig) (now : Nat) : DeviceTable :=
  let b := device.points.foldl (Building.addPoint config device now) {}
  { points := b.points
    index := b.index
    topics := b.topics.zipWith (fun topic units => { topic with units := unitsText units }) b.units
    depth := fun _ => 0
    openMsgs := ∅
    lastLayerMs := fun _ => none
    slots := fun _ => Slot.new now
    samplers := b.samplers
    stale := false }

/-- `Batcher::new`. `previous` hands over the units already published. -/
def Batcher.new (config : ConnectorConfig) (now : Nat) (previous : Option Batcher) : Batcher :=
  { devices := config.devices.map fun device => DeviceTable.new config device now
    byName := config.devices.zipIdx.foldl
      (fun m (device, d) => Function.update m device.name (some d)) fun _ => none
    includeBoolean := (Naming.of config).includeBoolean
    publishedUnits := (previous.map Batcher.publishedUnits).getD fun _ => none }

end TedgeDot.Measure
