import TedgeDot.Measure.Timeline

/-!
# Frames

A frame key publishes its layers at increasing times, and a point's values in the order they were
offered, in every run whose readings are `Call.InOrder`: none splits a layer that is not the first
of its key, and none starts a layer past the last date there is (`layers_ordered`). Both conditions
are needed: `layers_disordered` is a run that splits a second layer.
-/

namespace TedgeDot.Measure

open Machine Desk DeviceTable

/-! ## Taking a reading -/

variable [Ryu]

/-- Whether a reading splits a layer that is not the first of its key. -/
def DeviceTable.splitsLater (dev : DeviceTable) (k : Nat) (ts : OffsetDateTime) (v : Float)
    (now : Nat) : Bool :=
  !(mustClose dev (dev.keyOf k) (dev.depth k) ts.unixMs now).1 && decide (0 < dev.depth k) &&
    ((dev.layers (dev.keyOf k))[dev.depth k]?).any (dev.splits k v)

omit [Ryu] in
/-- Whether a reading starts a message or layer. -/
def DeviceTable.starts (dev : DeviceTable) (k : Nat) (ts : OffsetDateTime) (now : Nat) : Bool :=
  (mustClose dev (dev.keyOf k) (dev.depth k) ts.unixMs now).1 ||
    decide (dev.depth k = (dev.layers (dev.keyOf k)).length)

/-- A reading leaves the timeline in order: it does not split a later layer while the first one is
still open, and the layer it starts, if any, has a date. -/
def Call.InOrder (dev : DeviceTable) : Call → Prop
  | .value k ts v now =>
    dev.splitsLater k ts v now = false ∧
      (dev.starts k ts now = true → dev.dated (dev.keyOf k) ts = true)
  | _ => True

instance (dev : DeviceTable) : (c : Call) → Decidable (c.InOrder dev)
  | .value k ts v now =>
    inferInstanceAs (Decidable (dev.splitsLater k ts v now = false ∧
      (dev.starts k ts now = true → dev.dated (dev.keyOf k) ts = true)))
  | .nothing .. | .endOfPass .. | .flushAll .. | .due .. | .setStale .. => .isTrue trivial

section Added

variable {dev dev' : DeviceTable} {key : Key} {k : Nat} {ts : OffsetDateTime} {v : Float}
  {now window : Nat} {past new : List Part} {ins : List (Nat × Float)}

/-- A value of another key changes nothing here. -/
theorem Ordered.added_other (h : Ordered key dev ins past) (hkey : dev.keyOf k ≠ key)
    (ha : Added dev k ts v now dev' new) : Ordered key dev' (ins ++ [(k, v)]) (past ++ new) := by
  have hlast : ∀ {mid dev' : DeviceTable} {o : Open},
      Started (dev.keyOf k) ts (dev.entry k v) o mid dev' →
      dev'.lastLayerMs key = mid.lastLayerMs key := by
    intro mid dev' o hs
    rw [hs.lastLayerMs]
    split
    · exact Function.update_of_ne (Ne.symm hkey) _ _
    · rfl
  have hmore : ∀ i ∈ [(k, v)], dev.keyOf i.1 ≠ key := by simpa using hkey
  cases ha with
  | fill o hstay ho hf =>
    refine h.other _ _ hf.toFixed (by rw [hf.layers, if_neg (Ne.symm hkey)]) (by rw [hf.lastLayerMs])
      (fun p hp => ?_) hmore
    split at hp
    · rw [List.mem_singleton.mp hp]
      exact hkey
    · cases hp
  | start o hstay hdepth hs =>
    exact h.other _ _ hs.toFixed (by rw [hs.layers, if_neg (Ne.symm hkey)]) (hlast hs) (by simp) hmore
  | restart o hclose hc hdepth hs =>
    refine h.other _ _ (hc.toFixed.trans hs.toFixed) ?_ ?_ (fun p hp => ?_) hmore
    · rw [hs.layers, if_neg (Ne.symm hkey), hc.layers, if_neg (Ne.symm hkey)]
    · rw [hlast hs, hc.lastLayerMs]
    · rw [closing_key hp]
      exact hkey

/-- Readings in order keep the messages of their frames in order. -/
theorem Ordered.added (h : Ordered key dev ins past) (hL : Layered dev)
    (hframe : key.2 = .frame window) (hC : (Call.value k ts v now).InOrder dev)
    (ha : Added dev k ts v now dev' new) : Ordered key dev' (ins ++ [(k, v)]) (past ++ new) := by
  by_cases hkey : dev.keyOf k = key
  swap
  · exact h.added_other hkey ha
  subst hkey
  obtain ⟨hfirst, hdated⟩ := hC
  cases ha with
  | fill o hstay ho hf =>
    cases hsplits : dev.splits k v o with
    | true =>
      have hzero : dev.depth k = 0 := by
        simpa [splitsLater, hstay, ho, hsplits] using hfirst
      simp only [hsplits, ↓reduceIte] at hf ⊢
      exact h.split (e := dev.entry k v) hL ho hzero hf
    | false =>
      simp only [hsplits, Bool.false_eq_true, ↓reduceIte, List.append_nil] at hf ⊢
      exact h.filled (e := dev.entry k v) hL ho hf
  | start o hstay hdepth hs =>
    rw [List.append_nil]
    exact h.started hframe (hdated (by simp [starts, hdepth])) hs
  | @restart mid _ o hclose hc hdepth hs =>
    have hmid : mid.dated (dev.keyOf k) ts = true := by
      have hdev := hdated (by simp [starts, hclose])
      simpa only [dated, hc.lastLayerMs] using hdev
    exact (h.closed hc).started hframe hmid hs

end Added

/-! ## In every run -/

/-- The messages of a key of device `d` that a run published. -/
def publishedUnder (b : Batcher) (d : Nat) (key : Key) (ops : List Op) : List Part :=
  (Batcher.partsOf d ((log step b ops).flatMap fun e => e.2.emissions)).filter fun p => p.key = key

omit [Ryu] in
/-- The times of the values of a point, in the order of the messages. -/
def timesOf (k : Nat) (ps : List Part) : List Int :=
  ps.flatMap fun p => (p.entries.filter fun e => e.point = k).map fun _ => p.ms

/-- What a run has published of the frame keys is in order: the times of the layers increase (the
parts of one layer have its time), and so do the times of each point's values, which are in the
order they were offered. -/
structure PublishesInOrder (b : Batcher) (ops : List Op) : Prop where
  layers : ∀ d topic window, (publishedUnder b d (topic, .frame window) ops).Pairwise fun p p' =>
    p.ms ≤ p'.ms ∧ (p.ends = true → p.ms < p'.ms)
  times : ∀ d topic window k,
    (timesOf k (publishedUnder b d (topic, .frame window) ops)).Pairwise (· < ·)
  values : ∀ (d : Nat) dev topic window k, b.devices[d]? = some dev →
    dev.keyOf k = (topic, .frame window) →
    valuesOf k (publishedUnder b d (topic, .frame window) ops) <+:
      offeredValues k (Batcher.offeredTo d (ops.flatMap b.calls))

omit [Ryu] in
/-- A point is in messages of different times. -/
theorem timesOf_pairwise {ps : List Part} (hbefore : ps.Pairwise Part.Before)
    (hnodup : ∀ p ∈ ps, (p.entries.map Entry.point).Nodup) (k : Nat) :
    (timesOf k ps).Pairwise (· < ·) := by
  rw [timesOf, List.pairwise_flatMap]
  refine ⟨fun p hp => ?_, hbefore.imp fun {a b} hab x hx y hy => ?_⟩
  · -- a point is in a message once
    have hone : ((p.entries.filter fun e => e.point = k).map Entry.point).Nodup :=
      (hnodup p hp).sublist (List.filter_sublist.map _)
    rw [List.pairwise_map]
    refine (List.pairwise_map.mp hone).imp_of_mem fun {e e'} he he' hne => ?_
    have heq := (List.mem_filter.mp he).2
    have heq' := (List.mem_filter.mp he').2
    simp only [decide_eq_true_eq] at heq heq'
    exact absurd (heq.trans heq'.symm) hne
  · obtain ⟨e, he, rfl⟩ := List.mem_map.mp hx
    obtain ⟨e', he', rfl⟩ := List.mem_map.mp hy
    obtain ⟨he, heq⟩ := List.mem_filter.mp he
    obtain ⟨he', heq'⟩ := List.mem_filter.mp he'
    simp only [decide_eq_true_eq] at heq heq'
    exact lt_of_le_of_ne hab.le fun hms => hab.apart hms e he e' he' (heq.trans heq'.symm)

/-- Over a run, frames are published in the order of their times. -/
theorem ordered_run {b : Batcher} {ops : List Op} {d : Nat} {dev₀ dev : DeviceTable} (key : Key)
    {window : Nat} (hframe : key.2 = .frame window) (hdev₀ : b.devices[d]? = some dev₀)
    (hL : Layered dev₀) (hopen : dev₀.openMsgs = ∅)
    (hC : AllSteps step (Batcher.OpMeets Call.InOrder) b ops)
    (hdev : (final step b ops).devices[d]? = some dev) :
    Ordered key dev (Batcher.offeredTo d (ops.flatMap b.calls))
      (Batcher.partsOf d ((log step b ops).flatMap fun e => e.2.emissions)) := by
  -- one case for each way in which a call changes the layers
  refine (layered_history (C := Call.InOrder) (P := Ordered key) ?_ ?_ ?_ ?_ ?_ hC ?_ hdev).2
  · intro dev c hc
    cases c with
    | value => simp [Call.offered] at hc
    | _ => trivial
  · intro dev dev' key' ins past hL hc h
    by_cases hkey : key' = key
    · subst hkey
      exact h.closed hc
    · have hother := h.other (dev.closing key') [] hc.toFixed
        (by rw [hc.layers, if_neg (Ne.symm hkey)]) (by rw [hc.lastLayerMs])
        (fun p hp => by rwa [closing_key hp]) (by simp)
      rwa [List.append_nil] at hother
  · intro dev dev' ins past new hq hnew h
    have hother := h.other new [] hq.toFixed (hq.layers key)
      (by rw [hq.lastLayerMs]) (fun p hp heq => ?_) (by simp)
    · rwa [List.append_nil] at hother
    · obtain ⟨t, every, hkey⟩ := hnew.key p hp
      rw [← heq, hkey] at hframe
      cases hframe
  · intro dev dev' ins past k v hq hk h
    have hother := h.other [] [(k, v)] hq.toFixed (hq.layers key)
      (by rw [hq.lastLayerMs]) (by simp) (fun i hi heq => ?_)
    · rwa [List.append_nil] at hother
    · rw [List.mem_singleton.mp hi] at heq
      rw [← heq] at hframe
      rw [show (dev.plan k).groupBy = .frame window from hframe] at hk
      cases hk
  · intro dev dev' k ts v now new ins past hL _ _ hC ha h
    exact h.added hL hframe hC ha
  · intro dev hdev
    obtain rfl : dev₀ = dev := Option.some.inj (hdev₀.symm.trans hdev)
    have hnil : timeline key [] dev₀ = [] := by
      simp [timeline, closing, layers, hopen]
    refine ⟨hL, by simp [hnil], by simp [hnil], by simp [hnil], by simp, fun k _ => ?_⟩
    rw [hnil]
    rfl

theorem publishedUnder_none {b : Batcher} {d : Nat} (h : b.devices[d]? = none) (key : Key)
    (ops : List Op) : publishedUnder b d key ops = [] := by
  have hnone : ((log step b ops).flatMap fun e => e.2.emissions).filter (fun e => e.1 = d) = [] := by
    refine List.filter_eq_nil_iff.mpr fun e he => ?_
    have hlt := emissions_device b (ops.flatMap b.calls) e (by rw [Batcher.run_eq_calls]; exact he)
    have hge := List.getElem?_eq_none_iff.mp h
    simp only [decide_eq_true_eq]
    omega
  rw [publishedUnder, Batcher.partsOf, hnone]
  rfl

/-- **Frame layers.** In every run, a point's depth is at most the number of layers of its key, and
a key has at most `MAX_LAYERS` layers. If every reading of the run is in order, what the run
published of the frame keys is. -/
theorem layers_ordered (config : ConnectorConfig) (now : Nat) (previous : Option Batcher)
    (ops : List Op) :
    let b := Batcher.new config now previous
    (∀ (d : Nat) dev, (final step b ops).devices[d]? = some dev →
      (∀ k, dev.depth k ≤ (dev.layers (dev.keyOf k)).length) ∧
        ∀ key, (dev.layers key).length ≤ MAX_LAYERS) ∧
      (AllSteps step (Batcher.OpMeets Call.InOrder) b ops → PublishesInOrder b ops) := by
  intro b
  have hnew : ∀ (d : Nat) dev, b.devices[d]? = some dev → Layered dev ∧ dev.openMsgs = ∅ := by
    intro d dev hdev
    obtain ⟨device, -, rfl⟩ := built_batcher config now previous hdev
    exact ⟨Layered.empty rfl fun _ => rfl, rfl⟩
  refine ⟨fun d dev hdev => ?_, fun hC => ?_⟩
  · have hL := layered_run (fun dev hdev => (hnew d dev hdev).1) hdev
    exact ⟨hL.depth_le, hL.length_le⟩
  · -- what is published of a frame key is the first part of its timeline
    have hkey : ∀ (d topic window : Nat), ∃ later : List Part,
        (publishedUnder b d (topic, .frame window) ops ++ later).Pairwise Part.Before ∧
        (∀ p ∈ publishedUnder b d (topic, .frame window) ops, (p.entries.map Entry.point).Nodup) ∧
        ∀ dev k, b.devices[d]? = some dev → dev.keyOf k = (topic, .frame window) →
          valuesOf k (publishedUnder b d (topic, .frame window) ops) ++ valuesOf k later =
            offeredValues k (Batcher.offeredTo d (ops.flatMap b.calls)) := by
      intro d topic window
      have hlayout := Batcher.layout_device (Batcher.layout_final b ops) d
      cases hdev₀ : b.devices[d]? with
      | none =>
        refine ⟨[], by simp [publishedUnder_none hdev₀], by simp [publishedUnder_none hdev₀], ?_⟩
        intro dev k h
        cases h
      | some dev₀ =>
        cases hdev : (final step b ops).devices[d]? with
        | none => simp [hdev, hdev₀] at hlayout
        | some dev =>
          rw [hdev, hdev₀, Option.map_some, Option.map_some, Option.some.injEq,
            Prod.mk.injEq] at hlayout
          obtain ⟨hL, hopen⟩ := hnew d dev₀ hdev₀
          have hrun := ordered_run (topic, .frame window) rfl hdev₀ hL hopen hC hdev
          refine ⟨dev.closing (topic, .frame window), hrun.before,
            fun p hp => hrun.nodup p (List.mem_append_left _ hp), fun dev₁ k h hk => ?_⟩
          obtain rfl : dev₀ = dev₁ := Option.some.inj h
          have hvalues := hrun.values k (by
            simpa only [keyOf, plan, hlayout.1] using hk)
          rw [← hvalues, timeline, valuesOf_append]
          rfl
    constructor
    · intro d topic window
      obtain ⟨later, hbefore, -, -⟩ := hkey d topic window
      exact (List.pairwise_append.mp hbefore).1.imp fun h => ⟨h.le, h.lt⟩
    · intro d topic window k
      obtain ⟨later, hbefore, hnodup, -⟩ := hkey d topic window
      exact timesOf_pairwise (List.pairwise_append.mp hbefore).1 hnodup k
    · intro d dev topic window k hdev hk
      obtain ⟨later, -, -, hvalues⟩ := hkey d topic window
      exact ⟨_, hvalues dev k hdev hk⟩

omit [Ryu] in
/-- Two readings with one time: the second goes into a second layer, a millisecond later. -/
theorem layers_ordered_repeat :
    letI := plainRyu
    let ops : List Op := [.offer ⟨"plc", "temp", 0, .typed, .good, some (.number 21.0)⟩ 0,
      .offer ⟨"plc", "temp", 0, .typed, .good, some (.number 22.0)⟩ 5,
      .offer ⟨"plc", "temp", 0, .typed, .good, some (.number 23.0)⟩ 1000000000]
    PublishesInOrder (Batcher.new frameConfig 0 none) ops :=
  letI := plainRyu
  (layers_ordered frameConfig 0 none _).2 (by decide)

/-! ## A run that splits a second layer -/

theorem overflows_wide (groupLen : Nat) {e e' : Entry} (h : 7500 ≤ e.key.utf8ByteSize)
    (h' : 7500 ≤ e'.key.utf8ByteSize) : Desk.overflows groupLen [e'] e = true := by
  simp only [Desk.overflows, estimate, bodyText, List.map_cons, List.map_nil,
    String.intercalate_singleton, Entry.piece, String.utf8ByteSize_append, List.length_singleton,
    SIZE_BUDGET, FRAME_BYTES, SERIES_OVERHEAD, Bool.and_eq_true, decide_eq_true_eq]
  omega

/-- Three points of one frame key, whose series do not fit a message two at a time. -/
structure Wide (dev : DeviceTable) (key : Key) (window : Nat) : Prop where
  keyOf : ∀ k < 3, dev.keyOf k = key
  frame : key.2 = .frame window
  window_pos : 0 < window
  located : ∀ k < 3, dev.Located k
  size : ∀ k < 3, 7500 ≤ (dev.plan k).seriesKey.utf8ByteSize

/-- What a table has open under a key. -/
structure Holds (dev₀ dev : DeviceTable) (key : Key) (layers : List Open) (depth : Nat → Nat)
    (last : Option Int) : Prop where
  fixed : Fixed dev₀ dev
  layered : Layered dev
  layers : dev.layers key = layers
  depth : dev.depth = depth
  last : dev.lastLayerMs key = last

section Wide

variable {dev₀ : DeviceTable} {desk : Desk} {key : Key} {window k : Nat} {layers : List Open}
  {depth : Nat → Nat} {last : Option Int} {o : Open} {v : Float}

theorem Holds.added (h : Holds dev₀ desk.dev key layers depth last) (hw : Wide dev₀ key window)
    (hk : k < 3) (v : Float) :
    Layered (desk.call (.value k 0 v 0)).1.dev ∧
      Added desk.dev k 0 v 0 (desk.call (.value k 0 v 0)).1.dev
        (parts (desk.call (.value k 0 v 0)).2) := by
  have hgroup : (desk.dev.plan k).groupBy = .frame window := by
    rw [h.fixed.plan]
    exact (congrArg Prod.snd (hw.keyOf k hk)).trans hw.frame
  have ha := add_effect desk h.layered k 0 v 0
  rw [show desk.call (.value k 0 v 0) = desk.add k 0 v 0 from
    offerValue_add desk 0 v 0 (by rw [hgroup]; rfl)]
  refine ⟨h.layered.added ?_ ha, ha⟩
  obtain ⟨id, hid⟩ := hw.located k hk
  exact ⟨id, by rw [h.fixed.index, hid]⟩

theorem Holds.start (h : Holds dev₀ desk.dev key layers depth last) (hw : Wide dev₀ key window)
    (hk : k < 3) (v : Float) (hdepth : depth k = layers.length) (hlt : layers.length < MAX_LAYERS) :
    ∃ o : Open, o.entries = [dev₀.entry k v] ∧ (o.time, o.timeMs) = layerTime desk.dev key 0 ∧
      Holds dev₀ (desk.call (.value k 0 v 0)).1.dev key (layers ++ [o])
        (Function.update depth k (depth k + 1)) (some o.timeMs) ∧
      parts (desk.call (.value k 0 v 0)).2 = [] := by
  obtain ⟨hL, ha⟩ := h.added hw hk v
  have hkey : desk.dev.keyOf k = key := by rw [h.fixed.keyOf, hw.keyOf k hk]
  obtain ⟨⟨o, hs⟩, hnew⟩ := ha.starts
    (by rw [hkey, h.depth, hdepth]; exact mustClose_stay hw.frame hw.window_pos hlt)
    (by rw [hkey, h.depth, h.layers, hdepth])
  rw [hkey] at hs
  refine ⟨o, ?_, hs.time, ⟨h.fixed.trans hs.toFixed, hL, ?_, ?_, ?_⟩, hnew⟩
  · rw [hs.entries, entry, entry, h.fixed.plan]
  · rw [hs.layers, if_pos rfl, h.layers]
  · rw [hs.depth, h.depth]
    rfl
  · rw [hs.lastLayerMs, hw.frame]
    exact Function.update_self _ _ _

/-- The third reading of the example splits its layer. -/
theorem Holds.split (h : Holds dev₀ desk.dev key layers depth last) (hw : Wide dev₀ key window)
    (hk : k < 3) (v : Float) (ho : layers[depth k]? = some o) (hlt : depth k < MAX_LAYERS)
    {k' : Nat} {v' : Float} (hk' : k' < 3) (hentries : o.entries = [dev₀.entry k' v']) :
    Holds dev₀ (desk.call (.value k 0 v 0)).1.dev key
        (layers.set (depth k) { o with entries := [dev₀.entry k v], points := o.points ++ [k] })
        (Function.update depth k (depth k + 1)) last ∧
      parts (desk.call (.value k 0 v 0)).2 =
        [{ topic := (dev₀.topic key.1).topic, key, time := o.time, entries := o.entries,
           ends := false }] := by
  obtain ⟨hL, ha⟩ := h.added hw hk v
  have hkey : desk.dev.keyOf k = key := by rw [h.fixed.keyOf, hw.keyOf k hk]
  have hentry : ∀ k v, desk.dev.entry k v = dev₀.entry k v := by
    intro k v
    rw [entry, entry, h.fixed.plan]
  obtain ⟨hf, hnew⟩ := ha.overflows (o := o)
    (by rw [hkey, h.depth]; exact mustClose_stay hw.frame hw.window_pos hlt)
    (by rw [hkey, h.layers, h.depth, ho])
    (by
      rw [splits, hentries, hentry]
      exact overflows_wide _ (hw.size k hk) (hw.size k' hk'))
  rw [hkey, hentry] at hf
  rw [hkey, h.fixed.topic_topic] at hnew
  refine ⟨⟨h.fixed.trans hf.toFixed, hL, ?_, ?_, ?_⟩, hnew⟩
  · rw [hf.layers, if_pos rfl, h.layers, h.depth]
  · rw [hf.depth, h.depth]
  · rw [hf.lastLayerMs, h.last]

/-- Readings of three points: the second is read twice before the first is read again. -/
def crossed : List Call :=
  [.value 0 0 1.0 0, .value 1 0 1.0 0, .value 1 0 2.0 0, .value 0 0 2.0 0, .value 2 0 1.0 0]

theorem crossed_parts (desk : Desk) (hw : Wide desk.dev key window)
    (h : Holds desk.dev desk.dev key [] (fun _ => 0) none) :
    let part := fun time e => Part.mk (desk.dev.topic key.1).topic key time [e] false
    parts (exec Desk.call desk crossed).2 =
      [part 0 (desk.dev.entry 0 1.0), part 1000000 (desk.dev.entry 1 2.0),
        part 0 (desk.dev.entry 1 1.0)] := by
  intro part
  obtain ⟨o₁, he₁, ht₁, h₁, hp₁⟩ := h.start hw (by decide : 0 < 3) 1.0 rfl (by decide)
  obtain ⟨h₂, hp₂⟩ := h₁.split hw (by decide : 1 < 3) 1.0 rfl (by decide) (by decide) he₁
  obtain ⟨o₃, he₃, ht₃, h₃, hp₃⟩ :=
    h₂.start hw (by decide : 1 < 3) 2.0 rfl (by simp [MAX_LAYERS])
  obtain ⟨h₄, hp₄⟩ := h₃.split hw (by decide : 0 < 3) 2.0 rfl (by decide) (by decide) he₃
  obtain ⟨-, hp₅⟩ := h₄.split hw (by decide : 2 < 3) 1.0 rfl (by decide) (by decide) rfl
  simp only [layerTime, hw.frame, h.last, h₂.last] at ht₁ ht₃
  obtain ⟨htime₁, hms₁⟩ := Prod.mk.inj ht₁
  rw [hms₁] at ht₃
  have htime₃ : o₃.time = 1000000 := congrArg Prod.fst ht₃
  simp only [crossed, exec_cons, exec_nil, parts_append, hp₁, hp₂, hp₃, hp₄, hp₅, he₁, he₃,
    List.nil_append, List.cons_append, htime₁, htime₃]
  rfl

end Wide

def longName (c : Char) : String := String.ofList (List.replicate 8000 c)

def widePoint (id : String) (c : Char) : PointConfig :=
  { id := id
    metadata := some (.object [("measurement", .object [("series", .string (longName c))])]) }

/-- A device with three points whose series have long names. -/
def wideDevice : DeviceConfig :=
  { name := "plc", points := [widePoint "a" 'a', widePoint "b" 'b', widePoint "c" 'c'] }

def wideConfig : ConnectorConfig := { frameConfig with devices := [wideDevice] }

/-- The readings of `crossed`. -/
def wideOps : List Op :=
  [wideOffer "a" 1.0, wideOffer "b" 1.0, wideOffer "b" 2.0, wideOffer "a" 2.0, wideOffer "c" 1.0]
where
  wideOffer (point : String) (v : Float) : Op :=
    .offer ⟨"plc", point, 0, .typed, .good, some (.number v)⟩ 0

omit [Ryu] in
theorem calls_offer {b : Batcher} {device point : String} {d k : Nat} (ts : OffsetDateTime)
    {v : Float} (now : Nat) (hlocate : b.locate device point = some (d, k))
    (hmeasurable : (b.devices[d]?.map fun dev => (dev.plan k).measurable) = some true)
    (hfinite : v.isFinite) :
    b.calls (.offer ⟨device, point, ts, .typed, .good, some (.number v)⟩ now) =
      [(d, .value k ts v now)] := by
  obtain ⟨dev, hdev, hplan⟩ := Option.map_eq_some_iff.mp hmeasurable
  simp [Batcher.calls, hlocate, hdev, Batcher.seriesValue, hplan, hfinite]

omit [Ryu] in
theorem wide_call (point : String) (k : Nat) (v : Float)
    (hlocate : (Batcher.new wideConfig 0 none).locate "plc" point = some (0, k))
    (hmeasurable : ((Batcher.new wideConfig 0 none).devices[0]?.map fun dev =>
      (dev.plan k).measurable) = some true) (hfinite : v.isFinite) :
    (Batcher.new wideConfig 0 none).calls (wideOps.wideOffer point v) = [(0, .value k 0 v 0)] :=
  calls_offer 0 0 hlocate hmeasurable hfinite

omit [Ryu] in
theorem wide_calls :
    wideOps.flatMap (Batcher.new wideConfig 0 none).calls = crossed.map fun c => (0, c) := by
  have ha := wide_call "a" 0 1.0 (by decide +kernel) (by decide +kernel) (by decide)
  have hb := wide_call "b" 1 1.0 (by decide +kernel) (by decide +kernel) (by decide)
  have hb' := wide_call "b" 1 2.0 (by decide +kernel) (by decide +kernel) (by decide)
  have ha' := wide_call "a" 0 2.0 (by decide +kernel) (by decide +kernel) (by decide)
  have hc := wide_call "c" 2 1.0 (by decide +kernel) (by decide +kernel) (by decide)
  simp only [wideOps, List.flatMap_cons, List.flatMap_nil, ha, hb, hb', ha', hc]
  rfl

omit [Ryu] in
theorem seriesOf_named (devices : List DeviceConfig) (id : String) {name : String}
    (hne : name.isEmpty = false) :
    seriesOf { frameConfig with devices := devices }
      { id := id
        metadata := some (.object [("measurement", .object [("series", .string name)])]) } =
      name := by
  generalize hpoint : ({
    id := id
    metadata := some (.object [("measurement", .object [("series", .string name)])]) } :
    PointConfig) = point
  have hnamed : named point "series" = some name := by
    rw [← hpoint]
    show (some name).filter (fun s => !s.isEmpty) = _
    simp [hne]
  show (if ((named point "series").getD "").isEmpty then point.id else
    ((named point "series").getD "")) = name
  rw [hnamed, Option.getD_some, hne]
  rfl

omit [Ryu] in
theorem isEmpty_replicate (n : Nat) (c : Char) :
    (String.ofList (List.replicate (n + 1) c)).isEmpty = false := by
  rw [String.isEmpty_eq_false_iff]
  intro h
  have hlength := congrArg (fun s => s.toList.length) h
  simp [String.toList_ofList, List.length_replicate] at hlength

omit [Ryu] in
theorem seriesOf_widePoint (id : String) (c : Char) :
    seriesOf wideConfig (widePoint id c) = longName c :=
  seriesOf_named _ id (isEmpty_replicate 7999 c)

omit [Ryu] in
/-- The example's table. -/
theorem wide_table : Wide (new wideConfig wideDevice 0)
    (0, .frame 1000000000) 1000000000 := by
  refine ⟨by decide +kernel, rfl, by decide, ?_, ?_⟩
  · intro k hk
    match k, hk with
    | 0, _ => exact ⟨"a", by decide +kernel⟩
    | 1, _ => exact ⟨"b", by decide +kernel⟩
    | 2, _ => exact ⟨"c", by decide +kernel⟩
  · have hof := built_deviceTable wideConfig wideDevice 0
    have hsize : ∀ (k : Nat) id c, wideDevice.points[k]? = some (widePoint id c) →
        7500 ≤ ((new wideConfig wideDevice 0).plan k).seriesKey.utf8ByteSize := by
      intro k id c hpoint
      have hle := length_le_size_quoted (longName c)
      rw [(hof.plan k _ hpoint).seriesKey, seriesOf_widePoint, String.utf8ByteSize_append]
      rw [longName, String.toList_ofList, List.length_replicate] at hle
      rw [longName]
      omega
    intro k hk
    match k, hk with
    | 0, _ => exact hsize 0 "a" 'a' rfl
    | 1, _ => exact hsize 1 "b" 'b' rfl
    | 2, _ => exact hsize 2 "c" 'c' rfl

omit [Ryu] in
/-- **A second layer that is split goes out before the first one**: the messages of this run have
the times 0, 1 and 0 ms, and the second point's values come out in the wrong order. -/
theorem layers_disordered :
    letI := plainRyu
    ¬ PublishesInOrder (Batcher.new wideConfig 0 none) wideOps := by
  let := plainRyu
  intro h
  have hlayers := h.layers 0 0 1000000000
  have hparts := crossed_parts
    { dev := new wideConfig wideDevice 0, publishedUnits := fun _ => none }
    wide_table ⟨Fixed.refl _, Layered.empty rfl fun _ => rfl, rfl, rfl, rfl⟩
  have hrun : (exec Batcher.call (Batcher.new wideConfig 0 none)
      (wideOps.flatMap (Batcher.new wideConfig 0 none).calls)).2 =
      (log step (Batcher.new wideConfig 0 none) wideOps).flatMap fun e => e.2.emissions := by
    rw [Batcher.run_eq_calls]
  have hdevice : (Batcher.new wideConfig 0 none).devices[0]? =
      some (new wideConfig wideDevice 0) := rfl
  rw [wide_calls, Batcher.exec_call_device hdevice] at hrun
  rw [publishedUnder, ← hrun, Batcher.partsOf_map, if_pos rfl,
    show (Batcher.new wideConfig 0 none).publishedUnits = fun _ => none from rfl, hparts] at hlayers
  simp [Part.ms, OffsetDateTime.unixMs] at hlayers

end TedgeDot.Measure
