import Mathlib.Data.List.Sort
import TedgeDot.Measure.Table

/-!
# The batcher

`measure.rs`, third part: the operations of `Batcher`. A method that works on one device is a
function on the device's table and the units published so far (`Desk`); a loop over keys, layers,
topics or devices is a run of its body (`Machine.exec`). What a call puts out is a list of
`Emission`s, which `Emission.message` renders as the messages of the source. The order in which a
`HashMap` gives its keys is a parameter of the calls that iterate one.
-/

namespace TedgeDot.Measure

open Machine

variable [Ryu]

/-! ## Output -/

/-- What a call puts out: a topic's units, or the series of a message. A message is tagged with
its key, and with whether it ends what was being filled (a split does not). -/
inductive Emission where
  | units (topic : Topic)
  | series (topic : Topic) (key : Key) (time : OffsetDateTime) (entries : List Entry) (ends : Bool)

/-- A message for the runtime to publish. -/
structure Message where
  topic : String
  payload : String
  retain : Bool

/-- `body`, with the formatting of times as a parameter. -/
def messageBody (formatRfc3339Ms : OffsetDateTime → String) (groupJson : String)
    (time : OffsetDateTime) (series : String) : String :=
  "\x7b\"time\":\"" ++ formatRfc3339Ms time ++ "\"," ++ groupJson ++ ":\x7b" ++ series ++ "\x7d\x7d"

def Topic.metaTopic (topic : Topic) : String := topic.topic ++ "/meta"

def Emission.message (formatRfc3339Ms : OffsetDateTime → String) : Emission → Message
  | .units topic => { topic := topic.metaTopic, payload := topic.units, retain := true }
  | .series topic _ time entries _ =>
    { topic := topic.topic
      payload := messageBody formatRfc3339Ms topic.groupJson time (bodyText entries)
      retain := false }

/-! ## One device -/

/-- A device's table, and the units published so far. -/
structure Desk where
  dev : DeviceTable
  publishedUnits : PublishedUnits

/-- `settle_units`: publish a topic's units before its first measurement, when they differ from
what was last published for it. -/
def settleUnits (topic : Topic) (published : PublishedUnits) :
    Topic × PublishedUnits × List Emission :=
  if topic.unitsSettled then (topic, published, [])
  else
    let topic := { topic with unitsSettled := true }
    let before := published topic.metaTopic
    if before = some topic.units ∨ (before = none ∧ topic.units.isEmpty) then
      (topic, published, [])
    else
      (topic, Function.update published topic.metaTopic (some topic.units), [.units topic])

namespace Desk

/-- Publish series of a key, after its topic's units when they are not published yet. -/
def publish (desk : Desk) (key : Key) (time : OffsetDateTime) (entries : List Entry)
    (ends : Bool) : Desk × List Emission :=
  let (topic, published, units) := settleUnits (desk.dev.topic key.1) desk.publishedUnits
  ({ dev := { desk.dev with topics := desk.dev.topics.set key.1 topic }
     publishedUnits := published },
    units ++ [.series topic key time entries ends])

/-- The body of the loop in `close`, over the layers. -/
def closeLayer (key : Key) (desk : Desk) (o : Open) : Desk × List Emission :=
  let desk :=
    { desk with dev := { desk.dev with
        depth := fun k => if o.points.contains k then 0 else desk.dev.depth k } }
  if o.n = 0 then (desk, []) else desk.publish key o.time o.entries true

/-- `close`: publish the open message, or every layer of the frame, of `key`. -/
def close (desk : Desk) (key : Key) : Desk × List Emission :=
  match desk.dev.openMsgs.lookup key with
  | none => (desk, [])
  | some layers =>
    exec (closeLayer key)
      { desk with dev := { desk.dev with openMsgs := desk.dev.openMsgs.erase key } } layers

/-- Whether what is open under `key` closes before a value at `tsMs` of a point at `depth` goes
in, and when the window a new frame opens in started. -/
def mustClose (dev : DeviceTable) (key : Key) (depth : Nat) (tsMs : Int) (now : Nat) :
    Bool × Nat :=
  match dev.openMsgs.lookup key with
  | some (first :: _) =>
    match key.2 with
    | .frame window =>
      if first.opened + window ≤ now then (true, now)
      else if MAX_LAYERS ≤ depth then (true, first.opened)
      else (false, now)
    | _ => (decide (0 < depth) || first.timeMs != tsMs, now)
  | _ => (false, now)

/-- The time of a new message or layer. Layer times strictly increase per key, so a point's values
stay in order. -/
def layerTime (dev : DeviceTable) (key : Key) (ts : OffsetDateTime) : OffsetDateTime × Int :=
  match key.2, dev.lastLayerMs key with
  | .frame _, some last =>
    if ts.unixMs ≤ last then
      let ms := last + 1
      ((OffsetDateTime.fromUnixTimestampNanos (ms * 1000000)).getD ts, ms)
    else (ts, ts.unixMs)
  | _, _ => (ts, ts.unixMs)

/-- `if layer == layers.len()`: open a new message or layer. -/
def openLayer (dev : DeviceTable) (key : Key) (ts : OffsetDateTime) (opened : Nat) :
    DeviceTable :=
  let layers := dev.layers key
  let (time, timeMs) := layerTime dev key ts
  let opened := match layers with
    | first :: _ => first.opened
    | [] => opened
  { dev with
    lastLayerMs :=
      match key.2 with
      | .frame _ => Function.update dev.lastLayerMs key (some timeMs)
      | _ => dev.lastLayerMs
    openMsgs := dev.openMsgs.insert key
      (layers ++ [{ time := time, timeMs := timeMs, opened := opened, entries := [], points := [] }]) }

/-- The estimated size of a message with `body` bytes and `n` series. -/
def estimate (groupLen body n : Nat) : Nat := FRAME_BYTES + groupLen + body + SERIES_OVERHEAD * n

/-- Whether an entry does not fit what is being filled any more. -/
def overflows (groupLen : Nat) (entries : List Entry) (e : Entry) : Bool :=
  0 < entries.length &&
    SIZE_BUDGET < estimate groupLen
      ((bodyText entries).utf8ByteSize + 1 + e.piece.utf8ByteSize) (entries.length + 1)

/-- The end of `add`: the entry goes into its layer, whose part so far goes out when it is full. -/
def fill (desk : Desk) (key : Key) (e : Entry) : Desk × List Emission :=
  let layers := desk.dev.layers key
  let layer := desk.dev.depth e.point
  match layers[layer]? with
  | none => (desk, [])  -- out of bounds: never, `depth` is at most the number of layers
  | some o =>
    let full := overflows (desk.dev.topic key.1).groupJson.utf8ByteSize o.entries e
    let (desk, out) := if full then desk.publish key o.time o.entries false else (desk, [])
    let entries := if full then [e] else o.entries ++ [e]
    let o := { o with entries := entries, points := o.points ++ [e.point] }
    ({ desk with dev := { desk.dev with
        openMsgs := desk.dev.openMsgs.insert key (layers.set layer o)
        depth := Function.update desk.dev.depth e.point (layer + 1) } },
      out)

/-- `add`, for the point `k`. -/
def add (desk : Desk) (k : Nat) (ts : OffsetDateTime) (value : Float) (now : Nat) :
    Desk × List Emission :=
  let plan := desk.dev.plan k
  let key : Key := (plan.topic, plan.groupBy)
  let (mustClose, opened) := mustClose desk.dev key (desk.dev.depth k) ts.unixMs now
  let (desk, closed) := if mustClose then desk.close key else (desk, [])
  let desk :=
    if desk.dev.depth k = (desk.dev.layers key).length then
      { desk with dev := openLayer desk.dev key ts opened }
    else desk
  let (desk, out) := desk.fill key { point := k, key := plan.seriesKey, value := value }
  (desk, closed ++ out)

/-- `offer`, for a reading of the point `k` that becomes a series with `value`. -/
def offerValue (desk : Desk) (k : Nat) (ts : OffsetDateTime) (value : Float) (now : Nat) :
    Desk × List Emission :=
  let plan := desk.dev.plan k
  match plan.groupBy with
  | .sample _ =>
    let slot := desk.dev.slots k
    let slot :=
      if plan.aggregates.isEmpty then { slot with value := some value }
      else slot.hold (some value) now
    ({ desk with dev := { desk.dev with slots := Function.update desk.dev.slots k slot } }, [])
  | _ => desk.add k ts value now

/-- `offer`, for a reading of the point `k` that becomes no series. -/
def offerNone (desk : Desk) (k : Nat) (quality : Quality) (now : Nat) : Desk × List Emission :=
  if quality ≠ .good then
    let slot := (desk.dev.slots k).hold none now
    ({ desk with dev := { desk.dev with slots := Function.update desk.dev.slots k slot } }, [])
  else (desk, [])

/-! ### Passes -/

end Desk

/-- The order in which a `HashMap` gives its keys: any. -/
structure IterOrder where
  apply : List Key → List Key
  perm : ∀ keys, (apply keys).Perm keys

namespace Desk

def closeAll (desk : Desk) (keys : List Key) : Desk × List Emission := exec close desk keys

/-- `end_of_pass`: publish every open `time` message. -/
def endOfPass (iter : IterOrder) (desk : Desk) : Desk × List Emission :=
  let keys := (iter.apply desk.dev.openMsgs.keys).filter fun key => key.2 == .time
  desk.closeAll (keys.mergeSort fun a b => a.1 ≤ b.1)

/-- `flush_all`: publish every open message, frames included. -/
def flushAll (iter : IterOrder) (desk : Desk) : Desk × List Emission :=
  desk.closeAll ((iter.apply desk.dev.openMsgs.keys).mergeSort fun a b => a.1 ≤ b.1)

/-- When the frame of a key opened, if its window has ended by `now`. -/
def endedAt (dev : DeviceTable) (now : Nat) (key : Key) : Option (Nat × Key) :=
  match key.2, dev.openMsgs.lookup key with
  | .frame window, some (first :: _) =>
    if first.opened + window ≤ now then some (first.opened, key) else none
  | _, _ => none

/-- The values a point gives to a sample, each with its series key. -/
def sampledSeries (plan : PointPlan) (slot : Slot) (stale : Bool) (now : Nat) :
    Slot × List (String × Float) :=
  if plan.aggregates.isEmpty then
    match slot.value with
    | some value => (slot, if stale then [] else [(plan.seriesKey, value)])
    | none => (slot, [])
  else
    let slot := slot.close now
    let series :=
      if 0.0 < slot.goodNs then
        plan.aggregates.filterMap fun (aggregate, key) =>
          let value := match aggregate with
            | .mean => some (slot.sum / slot.goodNs)
            | .min => slot.range.map Prod.fst
            | .max => slot.range.map Prod.snd
            | .last => slot.value
          value.map fun value => (key, value)
      else []
    (slot.restart now, series)

/-- A sample being filled: the device, and the series of each topic not yet published. -/
structure Sampling where
  desk : Desk
  bodies : Nat → List Entry

/-- The body of the inner loop of `sample`, over a point's values. -/
def sampleValue (every : Nat) (wall : OffsetDateTime) (t : Nat) (s : Sampling) (e : Entry) :
    Sampling × List Emission :=
  let full := overflows (s.desk.dev.topic t).groupJson.utf8ByteSize (s.bodies t) e
  let (desk, out) :=
    if full then s.desk.publish (t, .sample every) wall (s.bodies t) false else (s.desk, [])
  ({ desk := desk
     bodies := Function.update s.bodies t (if full then [e] else s.bodies t ++ [e]) },
    out)

/-- The body of the loop of `sample` over the points. -/
def samplePoint (every now : Nat) (wall : OffsetDateTime) (s : Sampling) (k : Nat) :
    Sampling × List Emission :=
  let plan := s.desk.dev.plan k
  if plan.groupBy ≠ .sample every then (s, [])
  else
    let (slot, series) := sampledSeries plan (s.desk.dev.slots k) s.desk.dev.stale now
    let s :=
      { s with desk := { s.desk with dev := { s.desk.dev with
          slots := Function.update s.desk.dev.slots k slot } } }
    exec (sampleValue every wall plan.topic) s
      (series.map fun (key, value) => { point := k, key := key, value := value })

/-- The body of the last loop of `sample`, over the topics. -/
def sampleRest (every : Nat) (wall : OffsetDateTime) (bodies : Nat → List Entry) (desk : Desk)
    (t : Nat) : Desk × List Emission :=
  if (bodies t).length = 0 then (desk, [])
  else desk.publish (t, .sample every) wall (bodies t) true

/-- `sample`: publish one sample of the slots sampled every `every`. -/
def sample (every now : Nat) (wall : OffsetDateTime) (desk : Desk) : Desk × List Emission :=
  let (s, out) := exec (samplePoint every now wall) { desk := desk, bodies := fun _ => [] }
    (List.range desk.dev.points.length)
  let (desk, rest) := exec (sampleRest every wall s.bodies) s.desk
    (List.range desk.dev.topics.length)
  (desk, out ++ rest)

/-- The body of the loop of `due` over the samplers. -/
def runSampler (now : Nat) (wall : OffsetDateTime) (desk : Desk) (i : Nat) :
    Desk × List Emission :=
  match desk.dev.samplers[i]? with
  | none => (desk, [])
  | some (every, next) =>
    if now < next then (desk, [])
    else
      let (desk, out) := desk.sample every now wall
      -- On the period's grid; a sampler that fell a whole period behind restarts.
      let next := if next + every ≤ now then now + every else next + every
      ({ desk with dev := { desk.dev with samplers := desk.dev.samplers.set i (every, next) } },
        out)

/-- `due`: publish the frames whose window has ended and the samples that are due. -/
def due (iter : IterOrder) (now : Nat) (wall : OffsetDateTime) (desk : Desk) :
    Desk × List Emission :=
  let ended := (iter.apply desk.dev.openMsgs.keys).filterMap (endedAt desk.dev now)
  let ended := ended.mergeSort fun a b => a.1 < b.1 || (a.1 == b.1 && a.2.1 ≤ b.2.1)
  let (desk, closed) := desk.closeAll (ended.map Prod.snd)
  let (desk, sampled) := exec (runSampler now wall) desk (List.range desk.dev.samplers.length)
  (desk, closed ++ sampled)

/-- `set_stale`: an aggregated slot stops counting good time when it goes stale. -/
def setStale (stale : Bool) (now : Nat) (desk : Desk) : Desk × List Emission :=
  let slots :=
    if stale && !desk.dev.stale then
      fun k => if (desk.dev.plan k).aggregates.isEmpty then desk.dev.slots k
        else (desk.dev.slots k).hold none now
    else desk.dev.slots
  ({ desk with dev := { desk.dev with slots := slots, stale := stale } }, [])

end Desk

/-! ## All devices -/

/-- `Sample`, as the batcher reads it. -/
structure Sample where
  device : String
  point : String
  ts : OffsetDateTime
  mode : Mode
  quality : Quality
  value : Option Value

/-- What the runtime does with a reading besides the measurement. -/
structure Routing where
  /-- Publish the sample envelope. -/
  sample : Bool
  /-- The reading also went into the measurements. -/
  measured : Bool
deriving DecidableEq

namespace Batcher

/-- A method on device `d`. What it puts out is tagged with the device. -/
def onDevice (b : Batcher) (d : Nat) (f : Desk → Desk × List Emission) :
    Batcher × List (Nat × Emission) :=
  match b.devices[d]? with
  | none => (b, [])
  | some dev =>
    let (desk, out) := f { dev := dev, publishedUnits := b.publishedUnits }
    ({ b with devices := b.devices.set d desk.dev, publishedUnits := desk.publishedUnits },
      out.map fun e => (d, e))

/-- `for d in 0..self.devices.len()`. -/
def eachDevice (b : Batcher) (f : Nat → Desk → Desk × List Emission) :
    Batcher × List (Nat × Emission) :=
  exec (fun b d => b.onDevice d (f d)) b (List.range b.devices.length)

/-- The series value of a reading, if it becomes one. -/
def seriesValue (b : Batcher) (plan : PointPlan) (sample : Sample) : Option Float :=
  if !plan.measurable || sample.quality ≠ .good || sample.mode ≠ .typed then none
  else
    match sample.value with
    | some (.number n) => if n.isFinite then some n else none
    | some (.bool v) => if b.includeBoolean then some (if v then 1.0 else 0.0) else none
    | _ => none

def locate (b : Batcher) (device point : String) : Option (Nat × Nat) :=
  (b.byName device).bind fun d => (b.devices[d]?.bind fun dev => dev.index point).map fun k => (d, k)

/-- `offer`: take one reading the report policy let through. -/
def offer (b : Batcher) (sample : Sample) (now : Nat) :
    Batcher × Routing × List (Nat × Emission) :=
  match b.locate sample.device sample.point with
  | none => (b, { sample := true, measured := false }, [])
  | some (d, k) =>
    let plan := (b.devices[d]?.map fun dev => dev.plan k).getD default
    match b.seriesValue plan sample with
    | none =>
      let (b, out) := b.onDevice d fun desk => desk.offerNone k sample.quality now
      (b, { sample := plan.sample, measured := false }, out)
    | some value =>
      let (b, out) := b.onDevice d fun desk => desk.offerValue k sample.ts value now
      (b, { sample := plan.sample, measured := true }, out)

def endOfPass (b : Batcher) (iter : Nat → IterOrder) : Batcher × List (Nat × Emission) :=
  b.eachDevice fun d => Desk.endOfPass (iter d)

def flushAll (b : Batcher) (iter : Nat → IterOrder) : Batcher × List (Nat × Emission) :=
  b.eachDevice fun d => Desk.flushAll (iter d)

def due (b : Batcher) (iter : Nat → IterOrder) (now : Nat) (wall : OffsetDateTime) :
    Batcher × List (Nat × Emission) :=
  b.eachDevice fun d => Desk.due (iter d) now wall

def setStale (b : Batcher) (device : String) (stale : Bool) (now : Nat) :
    Batcher × List (Nat × Emission) :=
  match b.byName device with
  | none => (b, [])
  | some d => b.onDevice d (Desk.setStale stale now)

end Batcher

/-! ## Calls -/

inductive Op where
  | offer (sample : Sample) (now : Nat)
  | endOfPass (iter : Nat → IterOrder)
  | flushAll (iter : Nat → IterOrder)
  | due (iter : Nat → IterOrder) (now : Nat) (wall : OffsetDateTime)
  | setStale (device : String) (stale : Bool) (now : Nat)

/-- One call: what it put out, and for an offer the routing of the reading. -/
structure Out where
  emissions : List (Nat × Emission)
  routing : Option Routing := none

def step (b : Batcher) : Op → Batcher × Out
  | .offer sample now =>
    let (b, routing, out) := b.offer sample now
    (b, { emissions := out, routing := some routing })
  | .endOfPass iter =>
    let (b, out) := b.endOfPass iter
    (b, { emissions := out })
  | .flushAll iter =>
    let (b, out) := b.flushAll iter
    (b, { emissions := out })
  | .due iter now wall =>
    let (b, out) := b.due iter now wall
    (b, { emissions := out })
  | .setStale device stale now =>
    let (b, out) := b.setStale device stale now
    (b, { emissions := out })

end TedgeDot.Measure
