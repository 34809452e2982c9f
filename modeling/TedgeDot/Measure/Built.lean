import Mathlib.Data.List.Induction
import TedgeDot.Lib.Code
import TedgeDot.Lib.LastIndex
import TedgeDot.Measure.Layers

/-!
# What a batcher is built from

`quoted` is injective, so a topic stands for one group. `built_deviceTable` says, point by point,
what `DeviceTable.new` makes of a device of the configuration, and `built_batcher` that the batcher
has a table for each device. `locate_spec` is what looking a reading's point up gives: the last
point with its id, of the last device with its name.
-/

namespace TedgeDot.Measure

open Machine

/-! ## JSON strings -/

/-- The value of a lowercase hexadecimal digit. -/
def hexValue (c : Char) : Nat := if c.toNat < 58 then c.toNat - 48 else c.toNat - 87

/-- Read one character of a JSON string back. -/
def unescapeChar : List Char → Option (Char × List Char)
  | '\\' :: 'u' :: '0' :: '0' :: hi :: lo :: rest =>
    some (Char.ofNat (16 * hexValue hi + hexValue lo), rest)
  | '\\' :: 'b' :: rest => some ('\x08', rest)
  | '\\' :: 't' :: rest => some ('\t', rest)
  | '\\' :: 'n' :: rest => some ('\n', rest)
  | '\\' :: 'f' :: rest => some ('\x0c', rest)
  | '\\' :: 'r' :: rest => some ('\r', rest)
  | '\\' :: c :: rest => some (c, rest)
  | c :: rest => some (c, rest)
  | [] => none

theorem hexValue_hexDigit : ∀ n < 32,
    16 * hexValue (hexDigit (n / 16)) + hexValue (hexDigit (n % 16)) = n := by decide

/-- A character that was escaped is read back. -/
theorem unescapeChar_escapeChar (c : Char) (rest : List Char) :
    unescapeChar (escapeChar c ++ rest) = some (c, rest) := by
  unfold escapeChar
  -- the seven short escapes, the control characters, and the rest
  split
  · rename_i h; subst h; rfl
  split
  · rename_i h; subst h; rfl
  split
  · rename_i h; subst h; rfl
  split
  · rename_i h; subst h; rfl
  split
  · rename_i h; subst h; rfl
  split
  · rename_i h; subst h; rfl
  split
  · rename_i h; subst h; rfl
  split
  · rename_i h
    simp only [List.cons_append, List.nil_append, unescapeChar, hexValue_hexDigit _ h,
      Char.ofNat_toNat]
  · simp only [List.cons_append, List.nil_append]
    unfold unescapeChar
    split <;> simp_all

theorem escapeChar_ne_nil (c : Char) : escapeChar c ≠ [] := by
  unfold escapeChar
  repeat' split
  all_goals simp

/-- **JSON strings are read back**: `quoted` is injective. -/
theorem quoted_injective : Function.Injective quoted := by
  intro s t h
  have hlist := String.ofList_injective h
  simp only [List.cons.injEq, List.append_cancel_right_eq, true_and] at hlist
  exact String.toList_injective
    (Code.flatMap_injective unescapeChar_escapeChar escapeChar_ne_nil hlist)

theorem length_le_utf8ByteSize (l : List Char) : l.length ≤ (String.ofList l).utf8ByteSize := by
  induction l with
  | nil => simp
  | cons c l ih =>
    have hpos := c.utf8Size_pos
    rw [String.ofList_cons, String.utf8ByteSize_append, String.utf8ByteSize_singleton]
    simp only [List.length_cons]
    omega

theorem length_le_size_quoted (s : String) : s.toList.length ≤ (quoted s).utf8ByteSize := by
  have hescape : ∀ l : List Char, l.length ≤ (l.flatMap escapeChar).length := by
    intro l
    induction l with
    | nil => simp
    | cons c l ih =>
      have hpos := List.length_pos_iff.mpr (escapeChar_ne_nil c)
      simp only [List.flatMap_cons, List.length_append, List.length_cons]
      omega
  have hlength := hescape s.toList
  refine le_trans ?_ (length_le_utf8ByteSize _)
  simp only [List.length_cons, List.length_append, List.length_nil]
  omega

/-! ## Tables -/

def groupOf (config : ConnectorConfig) (point : PointConfig) : String :=
  ((Naming.of config).resolve config.protocol point).1

/-- The series a point is published as. -/
def seriesOf (config : ConnectorConfig) (point : PointConfig) : String :=
  ((Naming.of config).resolve config.protocol point).2

def topicName (device group : String) : String := "te/device/" ++ device ++ "///m/" ++ group

structure Topic.Of (device group : String) (t : Topic) : Prop where
  name : t.topic = topicName device group
  json : t.groupJson = quoted group

structure PointPlan.Of (config : ConnectorConfig) (device : DeviceConfig) (point : PointConfig)
    (topics : List Topic) (plan : PointPlan) : Prop where
  topic : ∃ t, topics[plan.topic]? = some t ∧ t.Of device.name (groupOf config point)
  seriesKey : plan.seriesKey = quoted (seriesOf config point) ++ ":"
  measurable : plan.measurable = Measure.measurable point device
  sample : plan.sample = publishesSample point
  groupBy : plan.groupBy = groupByOf config device point
  aggregates : plan.aggregates = (seriesNames config device point).filterMap fun (a, name) =>
    a.map fun a => (a, quoted name ++ ":")

/-- The topics of a device: each of some group, and no two of one group. -/
structure TopicsOf (device : String) (topics : List Topic) : Prop where
  of : ∀ t ∈ topics, ∃ group, t.Of device group
  nodup : (topics.map Topic.groupJson).Nodup

/-- What has been built after going through `points`. -/
structure Building.Of (config : ConnectorConfig) (device : DeviceConfig) (points : List PointConfig)
    (b : Building) : Prop where
  length : b.points.length = points.length
  plan : ∀ (k : Nat) point (plan : PointPlan), points[k]? = some point → b.points[k]? = some plan →
    plan.Of config device point b.topics
  index : LastIndex PointConfig.id points b.index
  units : b.units.length = b.topics.length
  topics : TopicsOf device.name b.topics

/-- The topic of a group: the one there is, or a new one at the end. -/
theorem topicFor_spec {b : Building} {device : String} (h : TopicsOf device b.topics)
    (hunits : b.units.length = b.topics.length) (group : String) :
    (∃ new, (b.topicFor device group).1.topics = b.topics ++ new) ∧
      (b.topicFor device group).1.points = b.points ∧
      (b.topicFor device group).1.index = b.index ∧
      (b.topicFor device group).1.units.length = (b.topicFor device group).1.topics.length ∧
      TopicsOf device (b.topicFor device group).1.topics ∧
      ∃ t, (b.topicFor device group).1.topics[(b.topicFor device group).2]? = some t ∧
        t.Of device group := by
  unfold Building.topicFor
  cases hfind : b.topics.findIdx? fun t => t.groupJson == quoted group with
  | some i =>
    refine ⟨⟨[], by simp⟩, rfl, rfl, hunits, h, ?_⟩
    obtain ⟨hlt, hjson, -⟩ := List.findIdx?_eq_some_iff_getElem.mp hfind
    refine ⟨b.topics[i], List.getElem?_eq_getElem hlt, ?_⟩
    obtain ⟨group', hof⟩ := h.of _ (List.getElem_mem hlt)
    have hgroup : group' = group :=
      quoted_injective (hof.json.symm.trans (by simpa using hjson))
    exact hgroup ▸ hof
  | none =>
    refine ⟨⟨_, rfl⟩, rfl, rfl, by simp [hunits], ⟨?_, ?_⟩, ?_⟩
    · intro t ht
      rcases List.mem_append.mp ht with ht | ht
      · exact h.of t ht
      · rw [List.mem_singleton.mp ht]
        exact ⟨group, rfl, rfl⟩
    · rw [List.map_append, List.nodup_append]
      refine ⟨h.nodup, by simp, ?_⟩
      intro json hjson json' hjson' heq
      obtain ⟨t, ht, rfl⟩ := List.mem_map.mp hjson
      have hnot := List.findIdx?_eq_none_iff.mp hfind t ht
      simp only [List.map_cons, List.map_nil, List.mem_singleton] at hjson'
      simp [heq, hjson'] at hnot
    · exact ⟨_, List.getElem?_concat_length, rfl, rfl⟩

theorem PointPlan.Of.append {config : ConnectorConfig} {device : DeviceConfig}
    {point : PointConfig} {topics : List Topic} {plan : PointPlan}
    (h : plan.Of config device point topics) (new : List Topic) :
    plan.Of config device point (topics ++ new) where
  topic := by
    obtain ⟨t, ht, hof⟩ := h.topic
    exact ⟨t, by rw [List.getElem?_append_left (List.getElem?_eq_some_iff.mp ht).1, ht], hof⟩
  seriesKey := h.seriesKey
  measurable := h.measurable
  sample := h.sample
  groupBy := h.groupBy
  aggregates := h.aggregates

/-- One more point of the device being built. -/
theorem Building.Of.addPoint {config : ConnectorConfig} {device : DeviceConfig}
    {points : List PointConfig} {b : Building} (h : b.Of config device points) (now : Nat)
    (point : PointConfig) :
    (Building.addPoint config device now b point).Of config device (points ++ [point]) := by
  obtain ⟨⟨new, hnew⟩, hpoints, hindex, hunits, htopics, htopic⟩ :=
    topicFor_spec h.topics h.units (groupOf config point)
  -- what the loop body leaves, field by field
  have htopics' : (Building.addPoint config device now b point).topics =
      (b.topicFor device.name (groupOf config point)).1.topics := rfl
  obtain ⟨plan, hplan, hplans⟩ : ∃ plan : PointPlan,
      plan.Of config device point (b.topicFor device.name (groupOf config point)).1.topics ∧
      (Building.addPoint config device now b point).points = b.points ++ [plan] := by
    refine ⟨{
      topic := (b.topicFor device.name (groupOf config point)).2
      seriesKey := quoted (seriesOf config point) ++ ":"
      measurable := measurable point device
      sample := publishesSample point
      groupBy := groupByOf config device point
      aggregates := (seriesNames config device point).filterMap fun (a, name) =>
        a.map fun a => (a, quoted name ++ ":") }, ⟨htopic, rfl, rfl, rfl, rfl, rfl⟩, ?_⟩
    rw [← hpoints]
    rfl
  have hindex' : (Building.addPoint config device now b point).index =
      Function.update b.index point.id (some points.length) := by
    rw [← hindex, ← h.length, ← hpoints]
    rfl
  constructor
  · rw [hplans, List.length_append, List.length_append, h.length]
    rfl
  · intro k p q hp hq
    rw [htopics', hnew] at *
    rw [hplans] at hq
    rcases Nat.lt_or_ge k points.length with hk | hk
    · rw [List.getElem?_append_left hk] at hp
      rw [List.getElem?_append_left (by rw [h.length]; exact hk)] at hq
      exact (h.plan k p q hp hq).append new
    · have hlt := (List.getElem?_eq_some_iff.mp hp).1
      obtain rfl : k = points.length := by simp at hlt; omega
      obtain rfl : point = p := by simpa using hp
      obtain rfl : plan = q := by simpa [← h.length] using hq
      exact hplan
  · rw [hindex']
    exact h.index.snoc point
  · have hmodify : (Building.addPoint config device now b point).units.length =
        (b.topicFor device.name (groupOf config point)).1.units.length := by
      unfold Building.addPoint
      dsimp only
      split
      · exact List.length_modify ..
      · rfl
    rw [hmodify, hunits, htopics']
  · rw [htopics']
    exact htopics

theorem building_of (config : ConnectorConfig) (device : DeviceConfig) (now : Nat)
    (points : List PointConfig) :
    (points.foldl (Building.addPoint config device now) {}).Of config device points := by
  induction points using List.reverseRecOn with
  | nil => exact ⟨rfl, by simp, LastIndex.nil _, rfl, by simp, by simp⟩
  | append_singleton points point ih =>
    rw [List.foldl_append]
    exact ih.addPoint now point

structure DeviceTable.Of (config : ConnectorConfig) (device : DeviceConfig) (dev : DeviceTable) :
    Prop where
  length : dev.points.length = device.points.length
  plan : ∀ (k : Nat) point, device.points[k]? = some point →
    (dev.plan k).Of config device point dev.topics
  index : LastIndex PointConfig.id device.points dev.index
  topics : TopicsOf device.name dev.topics

private theorem map_built_zipWith (topics : List Topic) (units : List (List (String × String)))
    (h : units.length = topics.length) :
    (topics.zipWith (fun topic units => { topic with units := unitsText units }) units).map
        (fun t => (t.topic, t.groupJson)) = topics.map fun t => (t.topic, t.groupJson) := by
  induction topics generalizing units with
  | nil => rfl
  | cons t topics ih =>
    cases units with
    | nil => simp at h
    | cons u units => simpa using ih units (by simpa using h)

private theorem TopicsOf.units {device : String} {topics topics' : List Topic}
    (h : TopicsOf device topics)
    (heq : topics'.map (fun t => (t.topic, t.groupJson)) =
      topics.map fun t => (t.topic, t.groupJson)) : TopicsOf device topics' where
  of t ht := by
    have hmem : (t.topic, t.groupJson) ∈ topics'.map fun t => (t.topic, t.groupJson) :=
      List.mem_map_of_mem ht
    rw [heq] at hmem
    obtain ⟨t', ht', hsame⟩ := List.mem_map.mp hmem
    simp only [Prod.mk.injEq] at hsame
    obtain ⟨group, hof⟩ := h.of t' ht'
    exact ⟨group, hsame.1 ▸ hof.name, hsame.2 ▸ hof.json⟩
  nodup := by
    have hjson := congrArg (List.map Prod.snd) heq
    simp only [List.map_map, Function.comp_def] at hjson
    rw [show topics'.map Topic.groupJson = topics.map Topic.groupJson from hjson]
    exact h.nodup

/-- The table that is built is that of the configuration. -/
theorem built_deviceTable (config : ConnectorConfig) (device : DeviceConfig) (now : Nat) :
    (DeviceTable.new config device now).Of config device := by
  have hb := building_of config device now device.points
  unfold DeviceTable.new
  generalize device.points.foldl (Building.addPoint config device now) {} = b at hb ⊢
  have hsame := map_built_zipWith b.topics b.units hb.units
  refine ⟨hb.length, fun k point hpoint => ?_, hb.index, hb.topics.units hsame⟩
  have hlt : k < b.points.length := by
    rw [hb.length]
    exact (List.getElem?_eq_some_iff.mp hpoint).1
  have hplan := List.getElem?_eq_getElem hlt
  have hof := hb.plan k point _ hpoint hplan
  have hdev : ∀ dev : DeviceTable, dev.points = b.points → dev.plan k = b.points[k] := by
    intro dev hdev
    simp [DeviceTable.plan, hdev, List.getD_eq_getElem?_getD, hplan]
  rw [hdev _ rfl]
  refine ⟨?_, hof.seriesKey, hof.measurable, hof.sample, hof.groupBy, hof.aggregates⟩
  obtain ⟨t, ht, htof⟩ := hof.topic
  have hget := congrArg (fun l : List (String × String) => l[b.points[k].topic]?) hsame
  simp only [List.getElem?_map, ht, Option.map_some, Option.map_eq_some_iff, Prod.mk.injEq] at hget
  obtain ⟨t', ht', hname, hjson⟩ := hget
  exact ⟨t', ht', hname.trans htof.name, hjson.trans htof.json⟩

namespace DeviceTable.Of

variable {config : ConnectorConfig} {device : DeviceConfig} {dev : DeviceTable}

theorem topic (h : dev.Of config device) {k : Nat} {point : PointConfig}
    (hpoint : device.points[k]? = some point) :
    (dev.topic (dev.keyOf k).1).Of device.name (groupOf config point) := by
  obtain ⟨t, ht, hof⟩ := (h.plan k point hpoint).topic
  have hget : dev.topic (dev.keyOf k).1 = t := by
    simp only [DeviceTable.topic, DeviceTable.keyOf, List.getD_eq_getElem?_getD, ht,
      Option.getD_some]
  rwa [hget]

theorem groupBy_forall (h : dev.Of config device) {p : GroupBy → Prop} (htime : p .time)
    (hp : ∀ point ∈ device.points, p (groupByOf config device point)) (k : Nat) :
    p (dev.plan k).groupBy := by
  rcases Nat.lt_or_ge k device.points.length with hk | hk
  · rw [(h.plan k _ (List.getElem?_eq_getElem hk)).groupBy]
    exact hp _ (List.getElem_mem hk)
  · have hnone : dev.points[k]? = none := List.getElem?_eq_none (by rw [h.length]; exact hk)
    simp only [DeviceTable.plan, List.getD_eq_getElem?_getD, hnone, Option.getD_none]
    exact htime

end DeviceTable.Of

/-! ## The batcher -/

/-- The point a reading is of: the last with its id, of the last device with its name. -/
def findPoint (config : ConnectorConfig) (device point : String) :
    Option (DeviceConfig × PointConfig) :=
  (config.devices.reverse.find? fun d => d.name = device).bind fun d =>
    (d.points.reverse.find? fun p => p.id = point).map fun p => (d, p)

theorem byName_lastIndex (config : ConnectorConfig) (now : Nat) (previous : Option Batcher) :
    LastIndex DeviceConfig.name config.devices (Batcher.new config now previous).byName := by
  show LastIndex DeviceConfig.name config.devices
    (config.devices.zipIdx.foldl (fun m p => Function.update m p.1.name (some p.2)) fun _ => none)
  induction config.devices using List.reverseRecOn with
  | nil => exact LastIndex.nil _
  | append_singleton devices device ih =>
    rw [List.zipIdx_append, List.foldl_append]
    simpa using ih.snoc device

theorem built_batcher (config : ConnectorConfig) (now : Nat) (previous : Option Batcher) {d : Nat}
    {dev : DeviceTable} (h : (Batcher.new config now previous).devices[d]? = some dev) :
    ∃ device, config.devices[d]? = some device ∧ dev = DeviceTable.new config device now := by
  simp only [Batcher.new, List.getElem?_map, Option.map_eq_some_iff] at h
  obtain ⟨device, hdevice, rfl⟩ := h
  exact ⟨device, hdevice, rfl⟩

/-- **Looking a point up** finds `findPoint`, under its indices. -/
theorem locate_spec (config : ConnectorConfig) (now : Nat) (previous : Option Batcher)
    {device point : String} {d k : Nat}
    (h : (Batcher.new config now previous).locate device point = some (d, k)) :
    ∃ dc pc, config.devices[d]? = some dc ∧ dc.points[k]? = some pc ∧ dc.name = device ∧
      pc.id = point ∧ findPoint config device point = some (dc, pc) := by
  simp only [Batcher.locate, Option.bind_eq_some_iff, Option.map_eq_some_iff, Prod.mk.injEq] at h
  obtain ⟨d', hname, k', ⟨dev, hdev, hindex⟩, rfl, rfl⟩ := h
  obtain ⟨dc, hdc, rfl⟩ := built_batcher config now previous hdev
  have hnames := byName_lastIndex config now previous
  have hpoints := (built_deviceTable config dc now).index
  obtain ⟨dc', hdc', hdcname⟩ := hnames.get device d' hname
  obtain rfl : dc = dc' := Option.some.inj (hdc.symm.trans hdc')
  obtain ⟨pc, hpc, hpcid⟩ := hpoints.get point k' hindex
  refine ⟨dc, pc, hdc, hpc, hdcname, hpcid, ?_⟩
  have hfindDevice := hnames.find device
  have hfindPoint := hpoints.find point
  rw [hname, Option.bind_some, hdc] at hfindDevice
  rw [hindex, Option.bind_some, hpc] at hfindPoint
  simp only [findPoint, ← hfindDevice, ← hfindPoint, Option.bind_some, Option.map_some]

end TedgeDot.Measure
