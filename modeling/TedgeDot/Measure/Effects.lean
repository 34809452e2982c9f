import TedgeDot.Lib.Table
import TedgeDot.Measure.Batcher

/-!
# What each operation does

One lemma for each operation on a device: what it leaves in the table, and which messages it puts
out (`Part`, the series of one message). The units messages and the `unitsSettled` flags they set
are hidden behind `SameTopics`, so that the results on series do not depend on them.

- `publish_spec`: publishing.
- `close_spec`, `fill_spec`, `start_spec`: the operations on open messages.
-/

namespace TedgeDot.Measure

open Machine

/-! ## Parts -/

/-- The series of one message. -/
structure Part where
  topic : String
  key : Key
  time : OffsetDateTime
  entries : List Entry
  /-- It ends what was being filled: it is not the first part of a split. -/
  ends : Bool

def Emission.part? : Emission → Option Part
  | .units _ => none
  | .series topic key time entries ends => some { topic := topic.topic, key, time, entries, ends }

/-- The series a call puts out, without the units. -/
def parts (out : List Emission) : List Part := out.filterMap Emission.part?

@[simp] theorem parts_nil : parts [] = [] := rfl

@[simp] theorem parts_append (out out' : List Emission) :
    parts (out ++ out') = parts out ++ parts out' := List.filterMap_append

/-- What an open message publishes when it closes. -/
def Open.rest (topic : String) (key : Key) (o : Open) : Part :=
  { topic := topic, key := key, time := o.time, entries := o.entries, ends := true }

/-! ## What stays the same -/

def Topic.built (topic : Topic) : String × String × String :=
  (topic.topic, topic.groupJson, topic.units)

def SameTopics (topics topics' : List Topic) : Prop :=
  topics'.map Topic.built = topics.map Topic.built

namespace SameTopics

theorem refl (topics : List Topic) : SameTopics topics topics := rfl

theorem trans {topics topics' topics'' : List Topic} (h : SameTopics topics topics')
    (h' : SameTopics topics' topics'') : SameTopics topics topics'' := Eq.trans h' h

theorem length_eq {topics topics' : List Topic} (h : SameTopics topics topics') :
    topics'.length = topics.length := by
  simpa using congrArg List.length h

theorem getD {topics topics' : List Topic} (h : SameTopics topics topics') (t : Nat) :
    (topics'.getD t default).built = (topics.getD t default).built := by
  have := congrArg (fun l : List (String × String × String) => l.getD t (Topic.built default)) h
  simpa only [List.getD_eq_getElem?_getD, List.getElem?_map, Option.getD_map] using this

theorem set {topics : List Topic} {t : Nat} {topic : Topic}
    (h : topic.built = (topics.getD t default).built) : SameTopics topics (topics.set t topic) := by
  unfold SameTopics
  rw [List.map_set, h]
  apply List.ext_getElem?
  intro i
  rw [List.getElem?_set]
  split
  · rename_i hi
    subst hi
    split
    · simp_all [List.getD_eq_getElem?_getD]
    · simp_all
  · rfl

end SameTopics

/-- A table with the same points and topics. -/
structure Fixed (dev dev' : DeviceTable) : Prop where
  points : dev'.points = dev.points
  index : dev'.index = dev.index
  topics : SameTopics dev.topics dev'.topics

namespace Fixed

variable {dev dev' dev'' : DeviceTable}

theorem refl (dev : DeviceTable) : Fixed dev dev := ⟨rfl, rfl, SameTopics.refl _⟩

theorem trans (h : Fixed dev dev') (h' : Fixed dev' dev'') : Fixed dev dev'' :=
  ⟨h'.points.trans h.points, h'.index.trans h.index, h.topics.trans h'.topics⟩

theorem plan (h : Fixed dev dev') (k : Nat) : dev'.plan k = dev.plan k := by
  simp only [DeviceTable.plan, h.points]

theorem topic_topic (h : Fixed dev dev') (t : Nat) : (dev'.topic t).topic = (dev.topic t).topic :=
  congrArg (fun b => b.1) (h.topics.getD t)

theorem topic_groupJson (h : Fixed dev dev') (t : Nat) :
    (dev'.topic t).groupJson = (dev.topic t).groupJson :=
  congrArg (fun b => b.2.1) (h.topics.getD t)

end Fixed

/-- A table that differs in slots, samplers and flags only: the open messages are as before. -/
structure Quiet (dev dev' : DeviceTable) : Prop extends Fixed dev dev' where
  depth : dev'.depth = dev.depth
  openMsgs : dev'.openMsgs = dev.openMsgs
  lastLayerMs : dev'.lastLayerMs = dev.lastLayerMs

namespace Quiet

variable {dev dev' dev'' : DeviceTable}

theorem refl (dev : DeviceTable) : Quiet dev dev := ⟨Fixed.refl _, rfl, rfl, rfl⟩

theorem trans (h : Quiet dev dev') (h' : Quiet dev' dev'') : Quiet dev dev'' :=
  ⟨h.toFixed.trans h'.toFixed, h'.depth.trans h.depth, h'.openMsgs.trans h.openMsgs,
    h'.lastLayerMs.trans h.lastLayerMs⟩

theorem layers (h : Quiet dev dev') (key : Key) : dev'.layers key = dev.layers key := by
  simp only [DeviceTable.layers, h.openMsgs]

end Quiet

/-- Closing `layers`: their points start over. -/
structure Released (layers : List Open) (dev dev' : DeviceTable) : Prop extends Fixed dev dev' where
  depth : ∀ k, dev'.depth k = if ∃ o ∈ layers, k ∈ o.points then 0 else dev.depth k
  openMsgs : dev'.openMsgs = dev.openMsgs
  lastLayerMs : dev'.lastLayerMs = dev.lastLayerMs
  slots : dev'.slots = dev.slots

/-- Closing a key: it leaves the table, and its points start over. -/
structure Closed (key : Key) (dev dev' : DeviceTable) : Prop extends Fixed dev dev' where
  depth : ∀ k, dev'.depth k =
    if ∃ o ∈ dev.layers key, k ∈ o.points then 0 else dev.depth k
  openMsgs : dev'.openMsgs = dev.openMsgs.erase key
  lastLayerMs : dev'.lastLayerMs = dev.lastLayerMs
  slots : dev'.slots = dev.slots

/-- Filling: a layer of a key is replaced by `o`, and the point `k` goes one layer deeper. -/
structure Filled (key : Key) (k : Nat) (o : Open) (dev dev' : DeviceTable) : Prop
    extends Fixed dev dev' where
  depth : dev'.depth = Function.update dev.depth k (dev.depth k + 1)
  openMsgs : dev'.openMsgs = dev.openMsgs.insert key ((dev.layers key).set (dev.depth k) o)
  lastLayerMs : dev'.lastLayerMs = dev.lastLayerMs
  slots : dev'.slots = dev.slots

/-- Starting: the layer `o`, which holds the entry `e` only, is added to a key. -/
structure Started (key : Key) (ts : OffsetDateTime) (e : Entry) (o : Open) (dev dev' : DeviceTable) :
    Prop extends Fixed dev dev' where
  depth : dev'.depth = Function.update dev.depth e.point (dev.depth e.point + 1)
  openMsgs : dev'.openMsgs = dev.openMsgs.insert key (dev.layers key ++ [o])
  lastLayerMs : dev'.lastLayerMs = match key.2 with
    | .frame _ => Function.update dev.lastLayerMs key (some o.timeMs)
    | _ => dev.lastLayerMs
  slots : dev'.slots = dev.slots
  entries : o.entries = [e]
  points_eq : o.points = [e.point]
  time : (o.time, o.timeMs) = Desk.layerTime dev key ts

section Layers

variable {dev dev' : DeviceTable} {key : Key} {ts : OffsetDateTime} {e : Entry} {o : Open} {k : Nat}

theorem Closed.layers (h : Closed key dev dev') (key' : Key) :
    dev'.layers key' = if key' = key then [] else dev.layers key' := by
  unfold DeviceTable.layers
  rw [h.openMsgs]
  split
  · rename_i heq
    rw [heq, AList.lookup_erase, Option.getD_none]
  · rename_i hne
    rw [AList.lookup_erase_ne hne]

theorem layers_of_insert {layers : List Open} (h : dev'.openMsgs = dev.openMsgs.insert key layers)
    (key' : Key) : dev'.layers key' = if key' = key then layers else dev.layers key' := by
  unfold DeviceTable.layers
  rw [h]
  split
  · rename_i heq
    rw [heq, AList.lookup_insert, Option.getD_some]
  · rename_i hne
    rw [AList.lookup_insert_ne hne]

theorem Filled.layers (h : Filled key k o dev dev') (key' : Key) :
    dev'.layers key' =
      if key' = key then (dev.layers key).set (dev.depth k) o else dev.layers key' :=
  layers_of_insert h.openMsgs key'

theorem Started.layers (h : Started key ts e o dev dev') (key' : Key) :
    dev'.layers key' = if key' = key then dev.layers key ++ [o] else dev.layers key' :=
  layers_of_insert h.openMsgs key'

end Layers

/-! ## Publishing -/

theorem settleUnits_built (topic : Topic) (published : PublishedUnits) :
    (settleUnits topic published).1.built = topic.built := by
  unfold settleUnits
  dsimp only
  split
  · rfl
  · split <;> rfl

theorem settleUnits_parts (topic : Topic) (published : PublishedUnits) :
    parts (settleUnits topic published).2.2 = [] := by
  unfold settleUnits
  dsimp only
  split
  · rfl
  · split <;> rfl

namespace Desk

theorem publish_spec (desk : Desk) (key : Key) (time : OffsetDateTime) (entries : List Entry)
    (ends : Bool) :
    Released [] desk.dev (desk.publish key time entries ends).1.dev ∧
      parts (desk.publish key time entries ends).2 =
        [{ topic := (desk.dev.topic key.1).topic, key, time, entries, ends }] := by
  have hbuilt := settleUnits_built (desk.dev.topic key.1) desk.publishedUnits
  have hparts := settleUnits_parts (desk.dev.topic key.1) desk.publishedUnits
  have htopic := congrArg Prod.fst hbuilt
  simp only [Topic.built] at htopic
  refine ⟨⟨⟨rfl, rfl, SameTopics.set hbuilt⟩, fun k => by simp [publish], rfl, rfl, rfl⟩, ?_⟩
  simp only [publish, parts_append, hparts, List.nil_append]
  simp only [parts, List.filterMap_cons, Emission.part?, List.filterMap_nil, htopic]

/-! ## Closing -/

theorem closeLayer_spec (key : Key) (desk : Desk) (o : Open) :
    Released [o] desk.dev (closeLayer key desk o).1.dev ∧
      parts (closeLayer key desk o).2 =
        if o.n = 0 then [] else [o.rest (desk.dev.topic key.1).topic key] := by
  unfold closeLayer
  dsimp only
  split
  · exact ⟨⟨⟨rfl, rfl, SameTopics.refl _⟩, fun k => by simp, rfl, rfl, rfl⟩, rfl⟩
  · obtain ⟨hreleased, hparts⟩ := publish_spec
      { desk with dev := { desk.dev with
          depth := fun k => if o.points.contains k then 0 else desk.dev.depth k } }
      key o.time o.entries true
    refine ⟨⟨⟨hreleased.points, hreleased.index, hreleased.topics⟩, fun k => ?_,
      hreleased.openMsgs, hreleased.lastLayerMs, hreleased.slots⟩, hparts⟩
    rw [hreleased.depth]
    simp

theorem exec_closeLayer (key : Key) (desk : Desk) (layers : List Open) :
    Released layers desk.dev (exec (closeLayer key) desk layers).1.dev ∧
      parts (exec (closeLayer key) desk layers).2 =
        (layers.filter fun o => o.n ≠ 0).map (Open.rest (desk.dev.topic key.1).topic key) := by
  induction layers generalizing desk with
  | nil => exact ⟨⟨Fixed.refl _, fun k => by simp, rfl, rfl, rfl⟩, rfl⟩
  | cons o layers ih =>
    obtain ⟨hfirst, hparts₁⟩ := closeLayer_spec key desk o
    obtain ⟨hrest, hparts⟩ := ih (closeLayer key desk o).1
    refine ⟨⟨hfirst.toFixed.trans hrest.toFixed, fun k => ?_,
      hrest.openMsgs.trans hfirst.openMsgs, hrest.lastLayerMs.trans hfirst.lastLayerMs,
      hrest.slots.trans hfirst.slots⟩, ?_⟩
    · rw [exec_cons, hrest.depth, hfirst.depth]
      by_cases hk : k ∈ o.points <;> simp [hk]
    · rw [exec_cons, parts_append, hparts₁, hparts, hfirst.toFixed.topic_topic]
      by_cases hn : o.n = 0 <;> simp [hn]

/-- **Closing a key** takes it out of the table, and puts out what its layers still hold, in
order. -/
theorem close_spec (desk : Desk) (key : Key) :
    Closed key desk.dev (desk.close key).1.dev ∧
      parts (desk.close key).2 =
        ((desk.dev.layers key).filter fun o => o.n ≠ 0).map
          (Open.rest (desk.dev.topic key.1).topic key) := by
  unfold close
  cases hlookup : desk.dev.openMsgs.lookup key with
  | none =>
    have hlayers : desk.dev.layers key = [] := by simp [DeviceTable.layers, hlookup]
    refine ⟨⟨Fixed.refl _, fun k => by simp [hlayers], ?_, rfl, rfl⟩, by simp [hlayers]⟩
    exact (Table.erase_of_lookup_none hlookup).symm
  | some layers =>
    have hlayers : desk.dev.layers key = layers := by simp [DeviceTable.layers, hlookup]
    obtain ⟨hreleased, hparts⟩ := exec_closeLayer key
      { desk with dev := { desk.dev with openMsgs := desk.dev.openMsgs.erase key } } layers
    refine ⟨⟨⟨hreleased.points, hreleased.index, hreleased.topics⟩, fun k => ?_,
      hreleased.openMsgs, hreleased.lastLayerMs, hreleased.slots⟩, ?_⟩
    · rw [hreleased.depth, hlayers]
    · rw [hlayers]
      exact hparts

/-! ## Opening and filling -/

variable [Ryu]

omit [Ryu] in
private theorem filled_of_released {dev dev' : DeviceTable} (h : Released [] dev dev') (key : Key)
    (k : Nat) (o : Open) :
    Filled key k o dev
      { dev' with
        openMsgs := dev'.openMsgs.insert key ((dev.layers key).set (dev.depth k) o)
        depth := Function.update dev'.depth k (dev.depth k + 1) } := by
  refine ⟨⟨h.points, h.index, h.topics⟩, ?_, ?_, h.lastLayerMs, h.slots⟩
  · have hdepth : dev'.depth = dev.depth := by
      funext j
      simpa using h.depth j
    simp only [hdepth]
  · simp only [h.openMsgs]

@[simp] theorem overflows_nil (groupLen : Nat) (e : Entry) : overflows groupLen [] e = false := rfl

/-- **Filling a layer**: the entry goes in, after the part there was went out if it is full. -/
theorem fill_spec (desk : Desk) (key : Key) (e : Entry) {o : Open}
    (ho : (desk.dev.layers key)[desk.dev.depth e.point]? = some o) :
    let full := overflows (desk.dev.topic key.1).groupJson.utf8ByteSize o.entries e
    Filled key e.point
        { o with
          entries := if full then [e] else o.entries ++ [e]
          points := o.points ++ [e.point] }
        desk.dev (desk.fill key e).1.dev ∧
      parts (desk.fill key e).2 =
        if full then
          [{ topic := (desk.dev.topic key.1).topic, key, time := o.time, entries := o.entries,
             ends := false }]
        else [] := by
  intro full
  have hfull : overflows (desk.dev.topic key.1).groupJson.utf8ByteSize o.entries e = full := rfl
  clear_value full
  unfold fill
  simp only [ho, hfull]
  cases full with
  | true =>
    obtain ⟨hreleased, hparts⟩ := publish_spec desk key o.time o.entries false
    exact ⟨filled_of_released hreleased key e.point _, hparts⟩
  | false =>
    have hreleased : Released [] desk.dev desk.dev :=
      ⟨Fixed.refl _, fun k => by simp, rfl, rfl, rfl⟩
    exact ⟨filled_of_released hreleased key e.point _, rfl⟩

/-- **Starting a layer**: opening one for a point that has a value in every layer, and filling
it. Nothing goes out. -/
theorem start_spec (desk : Desk) (key : Key) (e : Entry) (ts : OffsetDateTime) (opened : Nat)
    (hdepth : desk.dev.depth e.point = (desk.dev.layers key).length) :
    ∃ o, Started key ts e o desk.dev
        (fill { desk with dev := openLayer desk.dev key ts opened } key e).1.dev ∧
      parts (fill { desk with dev := openLayer desk.dev key ts opened } key e).2 = [] := by
  generalize hdev : openLayer desk.dev key ts opened = dev
  obtain ⟨new, hlayers, hopen, hnew, hpoints, htime, hlast⟩ : ∃ new : Open,
      dev.layers key = desk.dev.layers key ++ [new] ∧
      dev.openMsgs = desk.dev.openMsgs.insert key (desk.dev.layers key ++ [new]) ∧
      new.entries = [] ∧ new.points = [] ∧
      (new.time, new.timeMs) = layerTime desk.dev key ts ∧
      dev.lastLayerMs = match key.2 with
        | .frame _ => Function.update desk.dev.lastLayerMs key (some new.timeMs)
        | _ => desk.dev.lastLayerMs := by
    subst hdev
    have hlayers : (openLayer desk.dev key ts opened).layers key =
        if key = key then _ else desk.dev.layers key := layers_of_insert rfl key
    exact ⟨_, by rw [hlayers, if_pos rfl], rfl, rfl, rfl, rfl, rfl⟩
  have hsame : dev.depth = desk.dev.depth ∧ dev.slots = desk.dev.slots ∧ Fixed desk.dev dev := by
    subst hdev
    exact ⟨rfl, rfl, rfl, rfl, SameTopics.refl _⟩
  obtain ⟨hdepths, hslots, hfixed⟩ := hsame
  obtain ⟨hfilled, hparts⟩ := fill_spec { desk with dev := dev } key e (o := new)
    (by simp [hlayers, hdepths, hdepth])
  -- the new layer is empty, so the entry fits
  simp only [hnew, hpoints, overflows_nil, Bool.false_eq_true, ↓reduceIte, List.nil_append]
    at hfilled hparts
  refine ⟨{ new with entries := [e], points := [e.point] },
    ⟨hfixed.trans hfilled.toFixed, ?_, ?_, ?_, hfilled.slots.trans hslots, rfl, rfl, htime⟩, hparts⟩
  · rw [hfilled.depth]
    simp only [hdepths]
  · rw [hfilled.openMsgs]
    simp only [hlayers, hopen, hdepths, hdepth, AList.insert_insert]
    simp
  · rw [hfilled.lastLayerMs]
    exact hlast

end Desk

end TedgeDot.Measure
