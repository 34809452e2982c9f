import TedgeDot.Lib.Numbered
import TedgeDot.Measure.Sizes

/-!
# The parts of a split layer

A layer goes out in one message, or in several when it is split. The layers of a key are numbered
in the order they close: the one at position `j` is number `finished + j`, where `finished` counts
the closed ones. Under this numbering the readings of a layer and the messages it went out in are
two streams, and `LayersOf` says in every reachable state how they relate.

- `Parted`: what a layer and its messages have in common.
- `layers_parted`: the layers of every run.
- `sample_parted`: a sample, which `sample` splits in a loop of its own.
-/

namespace TedgeDot.Measure

open Machine Desk Numbered

/-! ## A layer and its messages -/

/-- A point that publishes no aggregates. -/
def DeviceTable.plain (dev : DeviceTable) (k : Nat) : Bool := (dev.plan k).aggregates.isEmpty

/-- A layer, or a sample, and the messages it went out in so far:
1. The messages have one time.
2. They hold its series in order, and all of them exactly when the last message is out.
3. No point without aggregates comes twice. -/
structure Parted (dev : DeviceTable) (series : List Entry) (ps : List Part) : Prop where
  time : ∀ p ∈ ps, ∀ p' ∈ ps, p.time = p'.time
  inOrder : ps.flatMap Part.entries <+: series
  whole : series ≠ [] → ((∃ p ∈ ps, p.ends = true) ↔ ps.flatMap Part.entries = series)
  once : ((series.filter fun e => dev.plain e.point).map Entry.point).Nodup

theorem Parted.nil (dev : DeviceTable) : Parted dev [] [] :=
  ⟨by simp, by simp, fun h => absurd rfl h, by simp⟩

theorem Parted.congr {dev dev' : DeviceTable} {series : List Entry} {ps : List Part}
    (h : Parted dev series ps) (hpoints : dev'.points = dev.points) : Parted dev' series ps := by
  refine ⟨h.time, h.inOrder, h.whole, ?_⟩
  simpa only [DeviceTable.plain, DeviceTable.plan, hpoints] using h.once

/-- An open layer: its series are what it has published and what it still holds. -/
structure Filling (o : Open) (series : List Entry) (ps : List Part) : Prop where
  time : ∀ p ∈ ps, p.time = o.time
  goesOn : ∀ p ∈ ps, p.ends = false
  held : ps.flatMap Part.entries ++ o.entries = series
  points : series.map Entry.point = o.points

namespace Filling

variable {dev : DeviceTable} {o : Open} {series : List Entry} {ps : List Part}

theorem once (h : Filling o series ps) (ho : o.Sound dev) :
    ((series.filter fun e => dev.plain e.point).map Entry.point).Nodup := by
  have hnodup : (series.map Entry.point).Nodup := h.points ▸ ho.nodup
  exact hnodup.sublist (List.filter_sublist.map Entry.point)

theorem parted (h : Filling o series ps) (ho : o.Sound dev) : Parted dev series ps where
  time p hp p' hp' := (h.time p hp).trans (h.time p' hp').symm
  inOrder := ⟨o.entries, h.held⟩
  whole _ := by
    constructor
    · rintro ⟨p, hp, hends⟩
      rw [h.goesOn p hp] at hends
      cases hends
    · intro hall
      have hnil := h.held
      rw [hall] at hnil
      exact absurd (List.append_right_eq_self.mp hnil) ho.entries_ne
  once := h.once ho

theorem closed (h : Filling o series ps) (ho : o.Sound dev) (topic : String) (key : Key) :
    Parted dev series (ps ++ [o.rest topic key]) := by
  have hall : (ps ++ [o.rest topic key]).flatMap Part.entries = series := by
    rw [List.flatMap_append, List.flatMap_singleton]
    exact h.held
  have htime : ∀ p ∈ ps ++ [o.rest topic key], p.time = o.time := by
    intro p hp
    rcases List.mem_append.mp hp with hp | hp
    · exact h.time p hp
    · rw [List.mem_singleton.mp hp]
      rfl
  refine ⟨fun p hp p' hp' => (htime p hp).trans (htime p' hp').symm, hall ▸ List.prefix_refl _,
    fun _ => iff_of_true ⟨_, List.mem_append_right _ (List.mem_singleton_self _), rfl⟩ hall,
    h.once ho⟩

end Filling

/-! ## The layers of a key -/

/-- How many layers have closed, by their last messages. -/
def finished (ps : List (ℕ × Part)) : ℕ := (ps.filter fun x => x.2.ends).length

/-- The readings `rs` of a key and its messages `ps`, numbered by layer. -/
structure LayersOf (key : Key) (dev : DeviceTable) (rs : List (ℕ × Entry)) (ps : List (ℕ × Part)) :
    Prop where
  closed : ∀ n < finished ps, Parted dev (numbered n rs) (numbered n ps)
  filling : ∀ j o, (dev.layers key)[j]? = some o →
    Filling o (numbered (finished ps + j) rs) (numbered (finished ps + j) ps)
  later : ∀ n, finished ps + (dev.layers key).length ≤ n → numbered n rs = [] ∧ numbered n ps = []

theorem finished_append (ps ps' : List (ℕ × Part)) :
    finished (ps ++ ps') = finished ps + finished ps' := by
  simp [finished]

namespace LayersOf

variable {key : Key} {dev dev' : DeviceTable} {rs : List (ℕ × Entry)} {ps : List (ℕ × Part)}

theorem empty (h : dev.layers key = []) : LayersOf key dev [] [] where
  closed n hn := by cases hn
  filling j o ho := by simp [h] at ho
  later n _ := ⟨rfl, rfl⟩

theorem parted (h : LayersOf key dev rs ps) (hL : Layered dev) (n : ℕ) :
    Parted dev (numbered n rs) (numbered n ps) := by
  rcases Nat.lt_or_ge n (finished ps) with hn | hn
  · exact h.closed n hn
  obtain ⟨j, rfl⟩ := Nat.exists_eq_add_of_le hn
  rcases Nat.lt_or_ge j (dev.layers key).length with hj | hj
  · have ho := List.getElem?_eq_getElem hj
    exact (h.filling j _ ho).parted (hL.sound key _ (List.getElem_mem hj))
  · obtain ⟨hrs, hps⟩ := h.later (finished ps + j) (Nat.add_le_add_left hj _)
    rw [hrs, hps]
    exact Parted.nil dev

theorem other (h : LayersOf key dev rs ps) (hf : Fixed dev dev')
    (hlayers : dev'.layers key = dev.layers key) : LayersOf key dev' rs ps where
  closed n hn := (h.closed n hn).congr hf.points
  filling j o ho := h.filling j o (hlayers ▸ ho)
  later n hn := h.later n (hlayers ▸ hn)

/-- Closing ends all numbered layers of the key. -/
theorem close (h : LayersOf key dev rs ps) (hL : Layered dev) (hc : Closed key dev dev') :
    LayersOf key dev' rs (ps ++ numberFrom (finished ps) (dev.closing key)) := by
  have hlength : finished (numberFrom (finished ps) (dev.closing key)) =
      (dev.layers key).length := by
    have hall : ∀ x ∈ numberFrom (finished ps) (dev.closing key), x.2.ends = true := by
      intro x hx
      have hmem : x.2 ∈ dev.closing key := by
        rw [← map_snd_numberFrom (finished ps) (dev.closing key)]
        exact List.mem_map_of_mem hx
      obtain ⟨o, -, heq⟩ := List.mem_map.mp hmem
      rw [← heq]
      rfl
    rw [finished, List.filter_eq_self.mpr hall, ← List.length_map (f := Prod.snd),
      map_snd_numberFrom, DeviceTable.closing, List.length_map]
  have hnone : dev'.layers key = [] := by rw [hc.layers, if_pos rfl]
  refine ⟨fun n hn => ?_, fun j o ho => by simp [hnone] at ho, fun n hn => ?_⟩
  · rw [finished_append, hlength] at hn
    rw [numbered_append]
    rcases Nat.lt_or_ge n (finished ps) with hlt | hge
    · rw [numbered_numberFrom_lt hlt, List.append_nil]
      exact (h.closed n hlt).congr hc.points
    · obtain ⟨j, rfl⟩ := Nat.exists_eq_add_of_le hge
      have hj : j < (dev.layers key).length := Nat.lt_of_add_lt_add_left hn
      have ho := List.getElem?_eq_getElem hj
      rw [numbered_numberFrom_add, DeviceTable.closing, List.getElem?_map, ho]
      exact ((h.filling j _ ho).closed (hL.sound key _ (List.getElem_mem hj)) _ key).congr hc.points
  · rw [finished_append, hlength, hnone, List.length_nil, Nat.add_zero] at hn
    obtain ⟨hrs, hps⟩ := h.later n hn
    obtain ⟨j, rfl⟩ := Nat.exists_eq_add_of_le (Nat.le_trans (Nat.le_add_right _ _) hn)
    have hj : (dev.layers key).length ≤ j := Nat.le_of_add_le_add_left hn
    rw [numbered_append, hrs, hps, numbered_numberFrom_add, DeviceTable.closing,
      List.getElem?_map, List.getElem?_eq_none hj]
    exact ⟨rfl, rfl⟩

theorem numbered_reading {n m : ℕ} (h : m ≠ n) (rs : List (ℕ × Entry)) (e : Entry) :
    numbered n (rs ++ [(m, e)]) = numbered n rs := by
  simp [h]

/-- A value goes into the layer of its point's depth, which may be split by it. -/
theorem fill (h : LayersOf key dev rs ps) {e : Entry} {o : Open} (full : Bool) (topic : String)
    (ho : (dev.layers key)[dev.depth e.point]? = some o)
    (hf : Filled key e.point { o with
      entries := if full then [e] else o.entries ++ [e]
      points := o.points ++ [e.point] } dev dev') :
    LayersOf key dev' (rs ++ [(finished ps + dev.depth e.point, e)])
      (ps ++ (if full then [{ topic, key, time := o.time, entries := o.entries, ends := false }]
        else []).map fun p => (finished ps + dev.depth e.point, p)) := by
  generalize hnew : (if full then
    [{ topic, key, time := o.time, entries := o.entries, ends := false }] else [] : List Part) = new
  -- a part that is split off does not end its layer
  have hgoesOn : ∀ p ∈ new, p.ends = false ∧ p.time = o.time := by
    intro p hp
    rw [← hnew] at hp
    cases full with
    | true => simp at hp; simp [hp]
    | false => simp at hp
  have hfinished : finished (ps ++ new.map fun p => (finished ps + dev.depth e.point, p)) =
      finished ps := by
    have hnone : finished (new.map fun p => (finished ps + dev.depth e.point, p)) = 0 := by
      rw [finished, List.length_eq_zero_iff, List.filter_eq_nil_iff]
      intro x hx
      obtain ⟨p, hp, rfl⟩ := List.mem_map.mp hx
      simp [(hgoesOn p hp).1]
    rw [finished_append, hnone, Nat.add_zero]
  have hlt := (List.getElem?_eq_some_iff.mp ho).1
  have hlayers := hf.layers key
  rw [if_pos rfl] at hlayers
  refine ⟨fun n hn => ?_, fun j o' ho' => ?_, fun n hn => ?_⟩
  · -- a closed layer
    rw [hfinished] at hn
    have hne : finished ps + dev.depth e.point ≠ n := by omega
    rw [numbered_reading hne, numbered_append, numbered_map_mk, if_neg hne, List.append_nil]
    exact (h.closed n hn).congr hf.points
  · rw [hlayers, List.getElem?_set] at ho'
    rw [hfinished]
    split at ho'
    · -- the layer the reading went into
      rename_i hj
      subst hj
      obtain rfl := Option.some.inj ho'
      have hfilling := h.filling _ o ho
      rw [numbered_append, numbered_append, numbered_map_mk]
      simp only [numbered_singleton, if_true]
      refine ⟨fun p hp => ?_, fun p hp => ?_, ?_, ?_⟩
      · rcases List.mem_append.mp hp with hp | hp
        · exact hfilling.time p hp
        · exact (hgoesOn p hp).2
      · rcases List.mem_append.mp hp with hp | hp
        · exact hfilling.goesOn p hp
        · exact (hgoesOn p hp).1
      · rw [← hfilling.held, ← hnew]
        cases full <;> simp
      · rw [List.map_append, hfilling.points]
        rfl
    · -- another open layer
      rename_i hj
      have hne : finished ps + dev.depth e.point ≠ finished ps + j := by omega
      rw [numbered_reading hne, numbered_append, numbered_map_mk, if_neg hne, List.append_nil]
      exact h.filling j o' ho'
  · rw [hfinished, hlayers, List.length_set] at hn
    have hne : finished ps + dev.depth e.point ≠ n := by omega
    rw [numbered_reading hne, numbered_append, numbered_map_mk, if_neg hne, List.append_nil]
    exact h.later n hn

/-- A layer that is started is the next in number. -/
theorem start (h : LayersOf key dev rs ps) {e : Entry} {o : Open} {ts : OffsetDateTime}
    (hs : Started key ts e o dev dev') :
    LayersOf key dev' (rs ++ [(finished ps + (dev.layers key).length, e)]) ps := by
  have hlayers := hs.layers key
  rw [if_pos rfl] at hlayers
  refine ⟨fun n hn => ?_, fun j o' ho' => ?_, fun n hn => ?_⟩
  · have hne : finished ps + (dev.layers key).length ≠ n := by omega
    rw [numbered_reading hne]
    exact (h.closed n hn).congr hs.points
  · rw [hlayers] at ho'
    rcases Nat.lt_or_ge j (dev.layers key).length with hj | hj
    · rw [List.getElem?_append_left hj] at ho'
      have hne : finished ps + (dev.layers key).length ≠ finished ps + j := by omega
      rw [numbered_reading hne]
      exact h.filling j o' ho'
    · -- the new layer: nothing had its number
      have hlast : j = (dev.layers key).length ∧ o' = o := by
        have hle := (List.getElem?_eq_some_iff.mp ho').1
        rw [List.length_append, List.length_singleton] at hle
        obtain rfl : j = (dev.layers key).length := by omega
        rw [List.getElem?_concat_length] at ho'
        exact ⟨rfl, (Option.some.inj ho').symm⟩
      obtain ⟨rfl, rfl⟩ := hlast
      obtain ⟨hrs, hps⟩ := h.later _ (Nat.le_refl _)
      rw [numbered_append, hrs, hps, numbered_singleton, if_pos rfl, List.nil_append]
      exact ⟨by simp, by simp, by simp [hs.entries], by simp [hs.points_eq]⟩
  · rw [hlayers, List.length_append, List.length_singleton] at hn
    have hne : finished ps + (dev.layers key).length ≠ n := by omega
    rw [numbered_reading hne]
    exact h.later n (by omega)

end LayersOf

/-! ## In every run -/

/-- The readings of a key, as series of its messages. -/
def DeviceTable.readings (dev : DeviceTable) (key : Key) (ins : List (Nat × Float)) : List Entry :=
  (ins.filter fun i => dev.keyOf i.1 = key).map fun i => dev.entry i.1 i.2

theorem readings_congr {dev dev' : DeviceTable} (h : dev'.points = dev.points) (key : Key)
    (ins : List (Nat × Float)) : dev'.readings key ins = dev.readings key ins := by
  have hplan : dev'.plan = dev.plan := by
    funext k
    rw [DeviceTable.plan, h, DeviceTable.plan]
  unfold DeviceTable.readings DeviceTable.entry DeviceTable.keyOf
  rw [hplan]

/-- What a key was offered and has published, numbered by layer. -/
def Layering (key : Key) (dev : DeviceTable) (ins : List (Nat × Float)) (past : List Part) : Prop :=
  ∃ rs ps, rs.map Prod.snd = dev.readings key ins ∧
    ps.map Prod.snd = past.filter (fun p => p.key = key) ∧ LayersOf key dev rs ps

namespace Layering

variable {key : Key} {dev dev' : DeviceTable} {ins : List (Nat × Float)} {past : List Part}

theorem other (h : Layering key dev ins past) (new : List Part) (more : List (Nat × Float))
    (hf : Fixed dev dev') (hlayers : dev'.layers key = dev.layers key)
    (hnew : ∀ p ∈ new, p.key ≠ key) (hmore : ∀ i ∈ more, dev.keyOf i.1 ≠ key) :
    Layering key dev' (ins ++ more) (past ++ new) := by
  obtain ⟨rs, ps, hrs, hps, hlayersOf⟩ := h
  refine ⟨rs, ps, ?_, ?_, hlayersOf.other hf hlayers⟩
  · have hnone : more.filter (fun i => dev.keyOf i.1 = key) = [] :=
      List.filter_eq_nil_iff.mpr fun i hi => by simpa using hmore i hi
    rw [readings_congr hf.points, hrs, DeviceTable.readings, DeviceTable.readings,
      List.filter_append, hnone, List.append_nil]
  · have hnone : new.filter (fun p => p.key = key) = [] :=
      List.filter_eq_nil_iff.mpr fun p hp => by simpa using hnew p hp
    rw [List.filter_append, hnone, List.append_nil, hps]

theorem filter_closing (dev : DeviceTable) (key : Key) :
    (dev.closing key).filter (fun p => p.key = key) = dev.closing key := by
  refine List.filter_eq_self.mpr fun p hp => ?_
  obtain ⟨o, -, rfl⟩ := List.mem_map.mp hp
  simp [Open.rest]

theorem closed (h : Layering key dev ins past) (hL : Layered dev) (hc : Closed key dev dev') :
    Layering key dev' ins (past ++ dev.closing key) := by
  obtain ⟨rs, ps, hrs, hps, hlayersOf⟩ := h
  refine ⟨rs, _, ?_, ?_, hlayersOf.close hL hc⟩
  · rw [readings_congr hc.points, hrs]
  · rw [List.map_append, map_snd_numberFrom, hps, List.filter_append, filter_closing]

theorem started (h : Layering key dev ins past) {k : Nat} {v : Float} {ts : OffsetDateTime}
    {o : Open} (hk : dev.keyOf k = key) (hs : Started key ts (dev.entry k v) o dev dev') :
    Layering key dev' (ins ++ [(k, v)]) past := by
  obtain ⟨rs, ps, hrs, hps, hlayersOf⟩ := h
  refine ⟨_, ps, ?_, hps, hlayersOf.start hs⟩
  rw [List.map_append, hrs, readings_congr hs.points]
  simp [DeviceTable.readings, hk]

variable [Ryu]

/-- What is offered and what is published stay in step. -/
theorem added (h : Layering key dev ins past) (hL : Layered dev) {k : Nat} {ts : OffsetDateTime}
    {v : Float} {now : Nat} {new : List Part} (hk : dev.keyOf k = key)
    (ha : Added dev k ts v now dev' new) : Layering key dev' (ins ++ [(k, v)]) (past ++ new) := by
  subst hk
  cases ha with
  | fill o hstay ho hf =>
    obtain ⟨rs, ps, hrs, hps, hlayersOf⟩ := h
    refine ⟨_, _, ?_, ?_, hlayersOf.fill (e := dev.entry k v) (dev.splits k v o)
      (dev.topic (dev.keyOf k).1).topic ho hf⟩
    · rw [List.map_append, hrs, readings_congr hf.points]
      simp [DeviceTable.readings]
    · rw [List.map_append, hps, List.filter_append, List.map_map]
      split <;> simp
  | start o hstay hdepth hs =>
    rw [List.append_nil]
    exact h.started rfl hs
  | @restart mid _ o hclose hc hdepth hs =>
    have hkey : mid.keyOf k = dev.keyOf k := hc.toFixed.keyOf k
    have hentry : mid.entry k v = dev.entry k v := by
      simp only [DeviceTable.entry, hc.toFixed.plan]
    exact (h.closed hL hc).started hkey (hentry ▸ hs)

theorem added_other (h : Layering key dev ins past) {k : Nat} {ts : OffsetDateTime} {v : Float}
    {now : Nat} {new : List Part} (hk : dev.keyOf k ≠ key) (ha : Added dev k ts v now dev' new) :
    Layering key dev' (ins ++ [(k, v)]) (past ++ new) := by
  have hmore : ∀ i ∈ [(k, v)], dev.keyOf i.1 ≠ key := by simpa using hk
  cases ha with
  | fill o hstay ho hf =>
    refine h.other _ _ hf.toFixed (by rw [hf.layers, if_neg (Ne.symm hk)]) (fun p hp => ?_) hmore
    split at hp
    · rw [List.mem_singleton.mp hp]
      exact hk
    · cases hp
  | start o hstay hdepth hs =>
    exact h.other [] _ hs.toFixed (by rw [hs.layers, if_neg (Ne.symm hk)]) (by simp) hmore
  | restart o hclose hc hdepth hs =>
    refine h.other _ _ (hc.toFixed.trans hs.toFixed) ?_ (fun p hp => ?_) hmore
    · rw [hs.layers, if_neg (Ne.symm hk), hc.layers, if_neg (Ne.symm hk)]
    · obtain ⟨o, -, rfl⟩ := List.mem_map.mp hp
      exact hk

end Layering

variable [Ryu]

/-- Each layer's readings are published in the parts of that number, in order. -/
theorem layers_parted (config : ConnectorConfig) (start : Nat) (previous : Option Batcher)
    (ops : List Op) {d : Nat} {dev : DeviceTable}
    (hdev : (Batcher.new config start previous).devices[d]? = some dev) {key : Key}
    (hkey : key.2.isSample = false) :
    ∃ rs ps : List (ℕ × _), rs.map Prod.snd = dev.readings key (Batcher.offeredTo d
        (ops.flatMap (Batcher.new config start previous).calls)) ∧
      ps.map Prod.snd = (Batcher.partsOf d ((log step (Batcher.new config start previous)
        ops).flatMap fun e => e.2.emissions)).filter (fun p => p.key = key) ∧
      ∀ n, Parted dev (numbered n rs) (numbered n ps) := by
  have hlayout := Batcher.layout_device
    (Batcher.layout_final (Batcher.new config start previous) ops) d
  obtain ⟨dev', hdev', hsame⟩ : ∃ dev',
      (final step (Batcher.new config start previous) ops).devices[d]? = some dev' ∧
        dev'.points = dev.points := by
    rw [hdev, Option.map_some, Option.map_eq_some_iff] at hlayout
    obtain ⟨dev', hdev', heq⟩ := hlayout
    exact ⟨dev', hdev', congrArg Prod.fst heq⟩
  -- what happens to other keys leaves these layers alone
  have hrun := layered_history (C := fun _ _ => True) (P := Layering key) (fun _ _ _ => trivial)
    ?_ ?_ ?_ ?_ (allSteps_of_forall (fun _ _ _ _ _ _ => trivial) _ ops) (fun dev₀ hdev₀ => ?_) hdev'
  · obtain ⟨hL, rs, ps, hrs, hps, hlayersOf⟩ := hrun
    refine ⟨rs, ps, ?_, hps, fun n => (hlayersOf.parted hL n).congr hsame.symm⟩
    rw [hrs, readings_congr hsame]
  · intro dev dev' key' ins past hL hc h
    by_cases hk : key' = key
    · subst hk
      exact h.closed hL hc
    · have hother := h.other (dev.closing key') [] hc.toFixed
        (by rw [hc.layers, if_neg (Ne.symm hk)]) (fun p hp => ?_) (by simp)
      · rwa [List.append_nil] at hother
      · obtain ⟨o, -, rfl⟩ := List.mem_map.mp hp
        exact hk
  · intro dev dev' ins past new hq hnew h
    have hother := h.other new [] hq.toFixed (hq.layers key)
      (fun p hp heq => ?_) (by simp)
    · rwa [List.append_nil] at hother
    · obtain ⟨t, every, hsampled⟩ := hnew.key p hp
      rw [← heq, hsampled] at hkey
      cases hkey
  · intro dev dev' ins past k v hq hk h
    have hother := h.other [] [(k, v)] hq.toFixed (hq.layers key) (by simp)
      (fun i hi heq => ?_)
    · rwa [List.append_nil] at hother
    · rw [List.mem_singleton.mp hi] at heq
      rw [← heq] at hkey
      rw [show (dev.plan k).groupBy.isSample = false from hkey] at hk
      cases hk
  · intro dev dev' k ts v now new ins past hL _ _ _ ha h
    by_cases hk : dev.keyOf k = key
    · exact h.added hL hk ha
    · exact h.added_other hk ha
  · obtain ⟨device, -, rfl⟩ := built_batcher config start previous hdev₀
    have hL : Layered (DeviceTable.new config device start) := Layered.empty rfl fun _ => rfl
    exact ⟨hL, [], [], rfl, rfl, LayersOf.empty rfl⟩

/-! ## Samples -/

omit [Ryu] in
theorem publish_time (desk : Desk) (key : Key) (time : OffsetDateTime) (entries : List Entry)
    (ends : Bool) : ∀ p ∈ parts (desk.publish key time entries ends).2, p.time = time := by
  rw [(publish_spec ..).2]
  simp

theorem samplePoint_time (every now : Nat) (wall : OffsetDateTime) (s : Sampling) (k : Nat) :
    ∀ p ∈ parts (samplePoint every now wall s k).2, p.time = wall := by
  by_cases hk : (s.desk.dev.plan k).groupBy = .sample every
  · rw [samplePoint_of_eq hk]
    refine exec_outputs (P := fun (_ : Sampling) out => ∀ p ∈ parts out, p.time = wall)
      (fun s e out hP => ?_) _ (by simp)
    intro p hp
    rw [parts_append, List.mem_append] at hp
    refine hp.elim (hP p) fun hp => ?_
    unfold sampleValue at hp
    dsimp only at hp
    split at hp
    · exact publish_time _ _ _ _ _ p hp
    · cases hp
  · rw [samplePoint_of_ne hk]
    simp

omit [Ryu] in
theorem sampleRest_time (every : Nat) (wall : OffsetDateTime) (bodies : Nat → List Entry)
    (desk : Desk) (t : Nat) :
    ∀ p ∈ parts (sampleRest every wall bodies desk t).2, p.time = wall := by
  unfold sampleRest
  split
  · simp
  · exact publish_time _ _ _ _ _

theorem sample_time (every now : Nat) (wall : OffsetDateTime) (desk : Desk) :
    ∀ p ∈ parts (desk.sample every now wall).2, p.time = wall := by
  unfold sample
  intro p hp
  rw [parts_append, List.mem_append] at hp
  rcases hp with hp | hp
  · refine exec_outputs (P := fun (_ : Sampling) out => ∀ p ∈ parts out, p.time = wall)
      (fun s k out hP p hp => ?_) _ (by simp) p hp
    rw [parts_append, List.mem_append] at hp
    exact hp.elim (hP p) (samplePoint_time every now wall s k p)
  · refine exec_outputs (P := fun (_ : Desk) out => ∀ p ∈ parts out, p.time = wall)
      (fun desk t out hP p hp => ?_) _ (by simp) p hp
    rw [parts_append, List.mem_append] at hp
    exact hp.elim (hP p) (sampleRest_time every wall _ desk t p)

/-- Once a part of a topic went out, there is a rest of it. -/
def Resting (every : Nat) (s : Sampling) (out : List Emission) : Prop :=
  ∀ t, keyEntries (t, .sample every) (parts out) ≠ [] → s.bodies t ≠ []

theorem sampleValue_resting {every : Nat} {wall : OffsetDateTime} {s : Sampling}
    {out : List Emission} (h : Resting every s out) (t : Nat) (e : Entry) :
    Resting every (sampleValue every wall t s e).1 (out ++ (sampleValue every wall t s e).2) := by
  intro t' hout
  have hentries := sampleValue_entries every wall t s e t'
  by_cases ht : t = t'
  · -- the value itself is part of the rest
    subst ht
    simp only [sampleValue, Function.update_self]
    split <;> simp
  · rw [if_neg ht, List.append_nil] at hentries
    have hbody : (sampleValue every wall t s e).1.bodies t' = s.bodies t' := by
      simp only [sampleValue]
      rw [Function.update_of_ne (Ne.symm ht)]
    rw [hbody, List.append_left_eq_self] at hentries
    rw [parts_append, keyEntries_append, hentries, List.append_nil] at hout
    rw [hbody]
    exact h t' hout

theorem samplePoint_resting {every now : Nat} {wall : OffsetDateTime} {s : Sampling}
    {out : List Emission} (h : Resting every s out) (k : Nat) :
    Resting every (samplePoint every now wall s k).1
      (out ++ (samplePoint every now wall s k).2) := by
  by_cases hk : (s.desk.dev.plan k).groupBy = .sample every
  · rw [samplePoint_of_eq hk]
    refine exec_outputs (P := fun s' out' => Resting every s' (out ++ out'))
      (fun s' e out' hP => ?_) _ ?_
    swap
    · -- the slot of the point has changed, the bodies have not
      rw [List.append_nil]
      exact h
    rw [← List.append_assoc]
    exact sampleValue_resting hP _ e
  · rw [samplePoint_of_ne hk, List.append_nil]
    exact h

omit [Ryu] in
theorem exec_sampleRest_ends (every : Nat) (wall : OffsetDateTime) {bodies : Nat → List Entry}
    {t : Nat} (hbodies : bodies t ≠ []) {ts : List Nat} (ht : t ∈ ts) (desk : Desk) :
    ∃ p ∈ parts (exec (sampleRest every wall bodies) desk ts).2,
      p.key = (t, .sample every) ∧ p.ends = true := by
  induction ts generalizing desk with
  | nil => cases ht
  | cons t' ts ih =>
    rw [exec_cons, parts_append]
    rcases List.mem_cons.mp ht with rfl | ht
    · have hlen : (bodies t).length ≠ 0 := by simpa using hbodies
      have hout : parts (sampleRest every wall bodies desk t).2 =
          [{ topic := (desk.dev.topic t).topic, key := (t, .sample every), time := wall,
             entries := bodies t, ends := true }] := by
        rw [sampleRest, if_neg hlen, (publish_spec ..).2]
      exact ⟨_, List.mem_append_left _ (hout ▸ List.mem_singleton_self _), rfl, rfl⟩
    · obtain ⟨p, hp, hkey⟩ := ih ht (sampleRest every wall bodies desk t').1
      exact ⟨p, List.mem_append_right _ hp, hkey⟩

omit [Ryu] in
/-- A sample has each point once. -/
theorem sampled_once (dev : DeviceTable) (every now t n : Nat) :
    (((((List.range n).flatMap (dev.sampled every now t)).filter fun e =>
      dev.plain e.point)).map Entry.point).Nodup := by
  have hpoint (k : Nat) : ((dev.sampled every now t k).filter fun e => dev.plain e.point).map
      Entry.point = [] ∨ ((dev.sampled every now t k).filter fun e => dev.plain e.point).map
      Entry.point = [k] := by
    unfold DeviceTable.sampled
    split
    · cases hplain : dev.plain k with
      | true =>
        have haggregates : (dev.plan k).aggregates.isEmpty = true := hplain
        unfold sampleEntries sampledSeries
        rw [if_pos haggregates]
        split
        · split <;> simp [hplain]
        · simp
      | false =>
        left
        rw [List.map_eq_nil_iff, List.filter_eq_nil_iff]
        intro e he
        obtain ⟨x, -, rfl⟩ := List.mem_map.mp he
        simp [hplain]
    · simp
  rw [List.filter_flatMap, List.map_flatMap, List.nodup_flatMap]
  constructor
  · intro k _
    rcases hpoint k with h | h <;> simp [h]
  · refine List.nodup_range.imp fun {k k'} hne => ?_
    rcases hpoint k with h | h <;> rcases hpoint k' with h' | h' <;>
      simp [Function.onFun, h, h', Ne.symm hne]

/-- The parts of a sample are of one time and hold all of it. -/
theorem sample_parted (every now : Nat) (wall : OffsetDateTime) (desk : Desk) {t : Nat}
    (ht : t < desk.dev.topics.length) :
    Parted desk.dev
      ((List.range desk.dev.points.length).flatMap (desk.dev.sampled every now t))
      ((parts (desk.sample every now wall).2).filter fun p => p.key = (t, .sample every)) := by
  obtain ⟨rest, hentries, hrest⟩ := (sample_entries every now wall desk).1 t
  rw [hrest ht, List.append_nil] at hentries
  refine ⟨fun p hp p' hp' => ?_, ?_, fun hne => iff_of_true ?_ hentries,
    sampled_once desk.dev every now t _⟩
  · rw [sample_time every now wall desk p (List.mem_filter.mp hp).1,
      sample_time every now wall desk p' (List.mem_filter.mp hp').1]
  · rw [← hentries]
    exact List.prefix_refl _
  · have hpoints : ∀ ks : List Nat, Resting every
        (exec (samplePoint every now wall) ⟨desk, fun _ => []⟩ ks).1
        (exec (samplePoint every now wall) ⟨desk, fun _ => []⟩ ks).2 := by
      intro ks
      exact exec_outputs (P := Resting every) (fun s k out h => samplePoint_resting h k) ks
        fun t h => absurd rfl h
    obtain ⟨hsplit, -, -, -⟩ := exec_samplePoint every now wall desk desk.dev.points.length
    have hbody : (exec (samplePoint every now wall) ⟨desk, fun _ => []⟩
        (List.range desk.dev.points.length)).1.bodies t ≠ [] := by
      intro hnil
      have hout := hsplit t
      rw [hnil, List.append_nil] at hout
      exact hpoints _ t (hout ▸ hne) hnil
    obtain ⟨p, hp, hkey, hends⟩ := exec_sampleRest_ends every wall hbody (List.mem_range.mpr ht)
      (exec (samplePoint every now wall) ⟨desk, fun _ => []⟩
        (List.range desk.dev.points.length)).1.desk
    refine ⟨p, List.mem_filter.mpr ⟨?_, by simpa using hkey⟩, hends⟩
    unfold sample
    rw [parts_append]
    exact List.mem_append_right _ hp

end TedgeDot.Measure
