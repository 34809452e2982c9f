import TedgeDot.Measure.Aggregates
import TedgeDot.Measure.Built

/-!
# The batcher's aggregated points

An aggregated point of a batcher is an `AggregatedPoint` with double-precision numbers
(`Represents`): each call on its device does to its slot, its sampler and its published series
what the machine does (`call_represents`), in every run of the batcher (`run_represents`).
-/

namespace TedgeDot.Measure

open Machine DeviceTable

/-! ## Slots -/

/-- The number of nanoseconds as a double. -/
local instance natCastFloat : NatCast Float := ⟨Float.ofNat⟩

/-- A slot of the batcher, over doubles. -/
def Slot.overFloat (slot : Slot) : SlotOver Float :=
  { value := slot.value, since := slot.since, sum := slot.sum, goodNs := slot.goodNs,
    range := slot.range }

theorem float_zero : (0.0 : Float) = 0 := by decide

namespace Slot

theorem over_new (now : Nat) : (Slot.new now).overFloat = SlotOver.new now := by
  simp only [overFloat, new, SlotOver.new, float_zero]

theorem over_close (slot : Slot) (now : Nat) : (slot.close now).overFloat =
    slot.overFloat.close now := by
  unfold close SlotOver.close
  cases hvalue : slot.value with
  | none => simp [overFloat, hvalue]
  | some v =>
    simp only [overFloat, hvalue]
    rfl

theorem over_hold (slot : Slot) (value : Option Float) (now : Nat) :
    (slot.hold value now).overFloat = slot.overFloat.hold value now := by
  have hclose := over_close slot now
  unfold hold SlotOver.hold
  cases value with
  | none => rw [← hclose]; rfl
  | some v =>
    rw [← hclose]
    simp only [overFloat]
    cases (slot.close now).range <;> rfl

theorem over_restart (slot : Slot) (now : Nat) :
    (slot.restart now).overFloat = slot.overFloat.restart now := by
  simp only [overFloat, restart, SlotOver.restart, float_zero]

end Slot

theorem sampledSeries_over {plan : PointPlan} (hne : plan.aggregates ≠ []) (slot : Slot)
    (stale : Bool) (now : Nat) :
    (Desk.sampledSeries plan slot stale now).1.overFloat = (slot.overFloat.close now).restart now ∧
      (Desk.sampledSeries plan slot stale now).2 =
        ((slot.overFloat.close now).values plan.aggregates).map fun av => (av.1.2, av.2) := by
  have hisEmpty : plan.aggregates.isEmpty = false := by simpa using hne
  unfold Desk.sampledSeries SlotOver.values
  simp only [hisEmpty, Bool.false_eq_true, ↓reduceIte]
  refine ⟨?_, ?_⟩
  · rw [Slot.over_restart, Slot.over_close]
  · rw [← Slot.over_close]
    have hgood : (slot.close now).overFloat.goodNs = (slot.close now).goodNs := rfl
    rw [hgood, float_zero]
    split
    · rw [List.map_filterMap]
      refine List.filterMap_congr fun a _ => ?_
      obtain ⟨aggregate, key⟩ := a
      cases aggregate <;> simp [SlotOver.aggregate, Slot.overFloat, Function.comp_def]
    · rfl

/-! ## What the open messages leave alone -/

/-- No message is open for samples of `every`. -/
def DeviceTable.Unsampled (every : Nat) (dev : DeviceTable) : Prop :=
  ∀ key ∈ dev.openMsgs, key.2 ≠ .sample every

/-- Filling and closing messages leaves slots, samplers and staleness alone, and puts out no
sample of `every`. -/
structure Slotted (every : Nat) (dev dev' : DeviceTable) (out : List Emission) : Prop
    extends Fixed dev dev', SameClock dev dev' where
  slots : dev'.slots = dev.slots
  unsampled : dev.Unsampled every → dev'.Unsampled every
  entries : dev.Unsampled every → ∀ t, keyEntries (t, .sample every) (parts out) = []

namespace Slotted

variable {every : Nat} {dev dev' dev'' : DeviceTable} {out out' : List Emission}

theorem refl (every : Nat) (dev : DeviceTable) : Slotted every dev dev [] :=
  ⟨Fixed.refl _, SameClock.refl _, rfl, id, fun _ _ => rfl⟩

theorem trans (h : Slotted every dev dev' out) (h' : Slotted every dev' dev'' out') :
    Slotted every dev dev'' (out ++ out') := by
  refine ⟨h.toFixed.trans h'.toFixed, h.toSameClock.trans h'.toSameClock,
    h'.slots.trans h.slots, fun hu => h'.unsampled (h.unsampled hu), fun hu t => ?_⟩
  rw [parts_append, keyEntries_append, h.entries hu, h'.entries (h.unsampled hu)]
  rfl

end Slotted

namespace Desk

theorem keyEntries_of_ne {every t : Nat} {ps : List Part} (h : ∀ p ∈ ps, p.key.2 ≠ .sample every) :
    keyEntries (t, .sample every) ps = [] := by
  have hnil : (ps.filter fun p => p.key = (t, .sample every)) = [] := by
    rw [List.filter_eq_nil_iff]
    intro p hp hkey
    exact h p hp (by rw [of_decide_eq_true hkey])
  rw [keyEntries, hnil]
  rfl

theorem closeLayer_clock (key : Key) (desk : Desk) (o : Open) :
    SameClock desk.dev (closeLayer key desk o).1.dev := by
  unfold closeLayer
  dsimp only
  split <;> exact ⟨rfl, rfl⟩

theorem close_clock (desk : Desk) (key : Key) :
    SameClock desk.dev (desk.close key).1.dev := by
  unfold close
  split
  · exact SameClock.refl _
  · exact final_induction (P := fun desk' : Desk => SameClock desk.dev desk'.dev)
      (fun desk' o h => h.trans (closeLayer_clock key desk' o)) _ ⟨rfl, rfl⟩

theorem closeAll_clock (desk : Desk) (keys : List Key) :
    SameClock desk.dev (desk.closeAll keys).1.dev :=
  final_induction (P := fun desk' : Desk => SameClock desk.dev desk'.dev)
    (fun desk' key h => h.trans (close_clock desk' key)) _ (SameClock.refl _)

theorem close_slotted (every : Nat) (desk : Desk) (key : Key) (hkey : key.2 ≠ .sample every) :
    Slotted every desk.dev (desk.close key).1.dev (desk.close key).2 := by
  obtain ⟨hclosed, hparts⟩ := close_spec desk key
  refine ⟨hclosed.toFixed, close_clock desk key, hclosed.slots, fun hu key' hmem => ?_, fun _ t => ?_⟩
  · rw [hclosed.openMsgs, AList.mem_erase] at hmem
    exact hu key' hmem.2
  · rw [hparts]
    apply keyEntries_of_ne
    intro p hp
    obtain ⟨o, -, rfl⟩ := List.mem_map.mp hp
    exact hkey

theorem closeAll_slotted (every : Nat) (desk : Desk) (keys : List Key)
    (hkeys : ∀ key ∈ keys, key.2 ≠ .sample every) :
    Slotted every desk.dev (desk.closeAll keys).1.dev (desk.closeAll keys).2 := by
  induction keys generalizing desk with
  | nil => exact Slotted.refl every desk.dev
  | cons key keys ih =>
    have hfirst := close_slotted every desk key (hkeys key List.mem_cons_self)
    have hrest := ih (desk.close key).1 fun key' h => hkeys key' (List.mem_cons_of_mem _ h)
    unfold closeAll at hrest ⊢
    rw [exec_cons]
    exact hfirst.trans hrest

theorem openLayer_slotted {every : Nat} (dev : DeviceTable) {key : Key}
    (hkey : key.2 ≠ .sample every) (ts : OffsetDateTime) (opened : Nat) :
    Slotted every dev (openLayer dev key ts opened) [] := by
  refine ⟨⟨rfl, rfl, SameTopics.refl _⟩, ⟨rfl, rfl⟩, rfl, fun hu key' hmem => ?_, fun _ _ => rfl⟩
  rcases AList.mem_insert _ |>.mp hmem with rfl | hmem
  · exact hkey
  · exact hu key' hmem

variable [Ryu]

/-- Filling another series leaves the slots alone. -/
theorem fill_slotted (every : Nat) (desk : Desk) {key : Key} (hkey : key.2 ≠ .sample every)
    (e : Entry) : Slotted every desk.dev (desk.fill key e).1.dev (desk.fill key e).2 := by
  have hinsert : ∀ layers, desk.dev.Unsampled every →
      ∀ key' ∈ desk.dev.openMsgs.insert key layers, key'.2 ≠ .sample every := by
    intro layers hu key' hmem
    rcases AList.mem_insert _ |>.mp hmem with rfl | hmem
    · exact hkey
    · exact hu key' hmem
  unfold fill
  dsimp only
  split
  · exact Slotted.refl every desk.dev
  · split
    · rename_i o _ _
      obtain ⟨hreleased, hparts⟩ := publish_spec desk key o.time o.entries false
      refine ⟨⟨rfl, rfl, hreleased.topics⟩, ⟨rfl, rfl⟩, rfl, hinsert _, fun _ t => ?_⟩
      rw [hparts]
      apply keyEntries_of_ne
      intro p hp
      rw [List.mem_singleton.mp hp]
      exact hkey
    · exact ⟨⟨rfl, rfl, SameTopics.refl _⟩, ⟨rfl, rfl⟩, rfl, hinsert _, fun _ _ => rfl⟩

theorem add_slotted (every : Nat) (desk : Desk) {k : Nat}
    (hkey : (desk.dev.plan k).groupBy ≠ .sample every) (ts : OffsetDateTime) (v : Float)
    (now : Nat) : Slotted every desk.dev (desk.add k ts v now).1.dev (desk.add k ts v now).2 := by
  unfold add
  dsimp only
  refine Slotted.trans ?_ (fill_slotted every _ hkey _)
  split
  · have hclosed := close_slotted every desk ((desk.dev.plan k).topic, (desk.dev.plan k).groupBy) hkey
    split
    · simpa using hclosed.trans (openLayer_slotted _ hkey _ _)
    · exact hclosed
  · split
    · exact openLayer_slotted _ hkey _ _
    · exact Slotted.refl every desk.dev

end Desk

/-! ## The machine of a point -/

/-- A call, as the point `k` of its device sees it. -/
def Call.at (k : Nat) : Call → Option (PointCall Float)
  | .value k' _ v now => if k' = k then some (.reading (some v) now) else none
  | .nothing k' quality now => if k' = k ∧ quality ≠ .good then some (.reading none now) else none
  | .due _ now _ => some (.due now)
  | .setStale stale now => some (.setStale stale now)
  | .endOfPass _ => none
  | .flushAll _ => none

/-- The sampled series of the point `k`, with their keys. -/
def sampledOf (dev : DeviceTable) (every k : Nat) (ps : List Part) : List (String × Float) :=
  ((keyEntries ((dev.plan k).topic, .sample every) ps).filter fun e => e.point = k).map
    fun e => (e.key, e.value)

/-- The samples that a run of the machine takes, with their keys. -/
def sampledBy (every : Nat) (aggregates : List Aggregated) (point : AggregatedPoint Float)
    (calls : List (PointCall Float)) : List (String × Float) :=
  (log (AggregatedPoint.step every aggregates) point calls).flatMap fun e =>
    (e.2.getD []).map fun av => (av.1.2, av.2)

theorem Fixed.sampledOf {dev dev' : DeviceTable} (h : Fixed dev dev') (every k : Nat)
    (ps : List Part) : sampledOf dev' every k ps = sampledOf dev every k ps := by
  simp only [Measure.sampledOf, h.plan]

theorem sampledOf_append (dev : DeviceTable) (every k : Nat) (ps ps' : List Part) :
    sampledOf dev every k (ps ++ ps') = sampledOf dev every k ps ++ sampledOf dev every k ps' := by
  simp [sampledOf]

theorem sampledBy_append (every : Nat) (aggregates : List Aggregated)
    (point : AggregatedPoint Float) (calls calls' : List (PointCall Float)) :
    sampledBy every aggregates point (calls ++ calls') =
      sampledBy every aggregates point calls ++
        sampledBy every aggregates (final (AggregatedPoint.step every aggregates) point calls)
          calls' := by
  simp [sampledBy, log_append]

/-- The point `k` of a device is an aggregated one, in the state `point`. -/
structure Represents (dev : DeviceTable) (k every : Nat) (point : AggregatedPoint Float) : Prop where
  lt : k < dev.points.length
  groupBy : (dev.plan k).groupBy = .sample every
  aggregates : (dev.plan k).aggregates ≠ []
  topic : (dev.plan k).topic < dev.topics.length
  slot : (dev.slots k).overFloat = point.slot
  stale : dev.stale = point.stale
  sampler : ∃ i : Nat, dev.samplers[i]? = some (every, point.next) ∧
    ∀ (j : Nat) next, dev.samplers[j]? = some (every, next) → j = i
  unsampled : dev.Unsampled every

namespace Represents

variable {dev dev' : DeviceTable} {k every : Nat} {point : AggregatedPoint Float}
  {out : List Emission}

theorem slotted (h : Represents dev k every point) (hs : Slotted every dev dev' out) :
    Represents dev' k every point where
  lt := by rw [hs.points]; exact h.lt
  groupBy := by rw [hs.toFixed.plan]; exact h.groupBy
  aggregates := by rw [hs.toFixed.plan]; exact h.aggregates
  topic := by rw [hs.toFixed.plan, hs.topics.length_eq]; exact h.topic
  slot := by rw [hs.slots]; exact h.slot
  stale := by rw [hs.stale]; exact h.stale
  sampler := by rw [hs.samplers]; exact h.sampler
  unsampled := hs.unsampled h.unsampled

theorem slots (h : Represents dev k every point) {slots : Nat → Slot} {stale : Bool}
    {point' : AggregatedPoint Float} (hslot : (slots k).overFloat = point'.slot)
    (hstale : stale = point'.stale) (hnext : point'.next = point.next) :
    Represents { dev with slots := slots, stale := stale } k every point' :=
  ⟨h.lt, h.groupBy, h.aggregates, h.topic, hslot, hstale, hnext ▸ h.sampler, h.unsampled⟩

end Represents

namespace Desk

variable [Ryu] {desk : Desk} {k every : Nat} {point : AggregatedPoint Float}

/-- A sampler of another interval leaves the point alone. -/
theorem sample_of_ne (h : Represents desk.dev k every point) {every' : Nat} (hne : every' ≠ every)
    (now : Nat) (wall : OffsetDateTime) :
    Represents (desk.sample every' now wall).1.dev k every point ∧
      ∀ t, keyEntries (t, .sample every) (parts (desk.sample every' now wall).2) = [] := by
  obtain ⟨-, hslots, hclock⟩ := sample_entries every' now wall desk
  have hsampled := sample_sampled every' now wall desk
  have hother : desk.dev.slotAfter every' now k = desk.dev.slots k := by
    have hgroup : (desk.dev.plan k).groupBy ≠ .sample every' := by
      rw [h.groupBy]
      simpa using Ne.symm hne
    exact if_neg hgroup
  refine ⟨⟨?_, ?_, ?_, ?_, ?_, ?_, ?_, ?_⟩, fun t => ?_⟩
  · rw [hsampled.points]; exact h.lt
  · rw [hsampled.toFixed.plan]; exact h.groupBy
  · rw [hsampled.toFixed.plan]; exact h.aggregates
  · rw [hsampled.toFixed.plan, hsampled.topics.length_eq]; exact h.topic
  · rw [hslots, hother, ite_self]; exact h.slot
  · rw [hclock.stale]; exact h.stale
  · rw [hclock.samplers]; exact h.sampler
  · intro key hmem
    rw [hsampled.openMsgs] at hmem
    exact h.unsampled key hmem
  · apply keyEntries_of_ne
    intro p hp
    obtain ⟨t', ht'⟩ := hsampled.key p hp
    rw [ht']
    simpa using hne

omit [Ryu] in
/-- Of the samples of all points, those of one. -/
theorem filter_sampled (dev : DeviceTable) (every now t : Nat) {k n : Nat} (hk : k < n) :
    ((List.range n).flatMap (dev.sampled every now t)).filter (fun e => e.point = k) =
      dev.sampled every now t k := by
  have hpoint : ∀ j, ∀ e ∈ dev.sampled every now t j, e.point = j := by
    intro j e he
    unfold sampled at he
    split at he
    · obtain ⟨kv, -, rfl⟩ := List.mem_map.mp he
      rfl
    · cases he
  have hself : (dev.sampled every now t k).filter (fun e => e.point = k) =
      dev.sampled every now t k :=
    List.filter_eq_self.mpr fun e he => by simpa using hpoint k e he
  have hother : ∀ j, j ≠ k → (dev.sampled every now t j).filter (fun e => e.point = k) = [] := by
    intro j hj
    rw [List.filter_eq_nil_iff]
    intro e he
    simpa [hpoint j e he] using hj
  -- `k` comes once in the range
  induction n with
  | zero => omega
  | succ n ih =>
    rw [List.range_succ, List.flatMap_append, List.filter_append, List.flatMap_singleton]
    rcases Nat.lt_or_ge k n with hlt | hge
    · rw [ih hlt, hother n (by omega), List.append_nil]
    · obtain rfl : k = n := by omega
      rw [hself]
      have hnil : ((List.range k).flatMap (dev.sampled every now t)).filter
          (fun e => e.point = k) = [] := by
        rw [List.filter_flatMap, List.flatMap_eq_nil_iff]
        intro j hj
        exact hother j (Nat.ne_of_lt (List.mem_range.mp hj))
      rw [hnil, List.nil_append]

theorem sample_of_eq (h : Represents desk.dev k every point) (now : Nat) (wall : OffsetDateTime) :
    ((desk.sample every now wall).1.dev.slots k).overFloat =
        (point.sample every (desk.dev.plan k).aggregates now).1.slot ∧
      sampledOf desk.dev every k (parts (desk.sample every now wall).2) =
        (point.sample every (desk.dev.plan k).aggregates now).2.map fun av => (av.1.2, av.2) := by
  obtain ⟨hentries, hslots, -⟩ := sample_entries every now wall desk
  obtain ⟨hslot, hseries⟩ := sampledSeries_over h.aggregates (desk.dev.slots k) desk.dev.stale now
  obtain ⟨rest, hrest, hnil⟩ := hentries (desk.dev.plan k).topic
  rw [hnil h.topic, List.append_nil] at hrest
  refine ⟨?_, ?_⟩
  · rw [hslots, if_pos h.lt, slotAfter, if_pos h.groupBy, hslot, h.slot]
    rfl
  · have hkey : ((desk.dev.plan k).topic, (desk.dev.plan k).groupBy) =
        ((desk.dev.plan k).topic, .sample every) := by rw [h.groupBy]
    rw [sampledOf, hrest, filter_sampled _ _ _ _ h.lt, sampled, if_pos hkey,
      sampleEntries, List.map_map, hseries, h.slot]
    simp [AggregatedPoint.sample, Function.comp_def]

/-! ### The samplers -/

omit [Ryu] in
theorem sampler_ne (h : Represents desk.dev k every point) {i j : Nat} {every' next : Nat}
    (hi : desk.dev.samplers[i]? = some (every, point.next)) (hij : j ≠ i)
    (hj : desk.dev.samplers[j]? = some (every', next)) : every' ≠ every := by
  rintro rfl
  obtain ⟨i', hi', hunique⟩ := h.sampler
  exact hij ((hunique j next hj).trans (hunique i _ hi).symm)

/-- Another sampler's turn. -/
theorem runSampler_of_ne (h : Represents desk.dev k every point) {i j : Nat} (hij : j ≠ i)
    (hi : desk.dev.samplers[i]? = some (every, point.next)) (now : Nat) (wall : OffsetDateTime) :
    Represents (runSampler now wall desk j).1.dev k every point ∧
      (runSampler now wall desk j).1.dev.samplers[i]? = some (every, point.next) ∧
      ∀ t, keyEntries (t, .sample every) (parts (runSampler now wall desk j).2) = [] := by
  unfold runSampler
  split
  · exact ⟨h, hi, fun _ => rfl⟩
  · rename_i every' next hj
    dsimp only
    split
    · exact ⟨h, hi, fun _ => rfl⟩
    · have hne := sampler_ne h hi hij hj
      obtain ⟨hsampled, hnone⟩ := sample_of_ne h hne now wall
      have hclock := (sample_entries every' now wall desk).2.2
      refine ⟨⟨hsampled.lt, hsampled.groupBy, hsampled.aggregates, hsampled.topic, hsampled.slot,
        hsampled.stale, ⟨i, ?_, fun j' next' hj' => ?_⟩, hsampled.unsampled⟩, ?_, hnone⟩
      · rw [hclock.samplers, List.getElem?_set_ne hij, hi]
      · rw [hclock.samplers] at hj'
        by_cases hjj : j = j'
        · subst hjj
          rw [List.getElem?_set_self (List.getElem?_eq_some_iff.mp hj).1] at hj'
          exact absurd (congrArg Prod.fst (Option.some.inj hj')) hne
        · rw [List.getElem?_set_ne hjj] at hj'
          obtain ⟨i', -, hunique⟩ := h.sampler
          exact (hunique j' next' hj').trans (hunique i _ hi).symm
      · rw [hclock.samplers, List.getElem?_set_ne hij, hi]

theorem exec_runSampler_of_ne (h : Represents desk.dev k every point) {i : Nat} {js : List Nat}
    (hjs : i ∉ js) (hi : desk.dev.samplers[i]? = some (every, point.next)) (now : Nat)
    (wall : OffsetDateTime) :
    Represents (exec (runSampler now wall) desk js).1.dev k every point ∧
      (exec (runSampler now wall) desk js).1.dev.samplers[i]? = some (every, point.next) ∧
      ∀ t, keyEntries (t, .sample every) (parts (exec (runSampler now wall) desk js).2) = [] := by
  induction js generalizing desk with
  | nil => exact ⟨h, hi, fun _ => rfl⟩
  | cons j js ih =>
    have hij : j ≠ i := fun heq => hjs (by rw [heq]; exact List.mem_cons_self)
    obtain ⟨hfirst, hi', hnone⟩ := runSampler_of_ne h hij hi now wall
    obtain ⟨hrest, hi'', hnone'⟩ := ih hfirst (fun hmem => hjs (List.mem_cons_of_mem _ hmem)) hi'
    rw [exec_cons]
    refine ⟨hrest, hi'', fun t => ?_⟩
    rw [parts_append, keyEntries_append, hnone, hnone']
    rfl

/-- The turn of the point's own sampler. -/
theorem runSampler_of_eq (h : Represents desk.dev k every point) {i : Nat}
    (hi : desk.dev.samplers[i]? = some (every, point.next)) (now : Nat) (wall : OffsetDateTime) :
    Represents (runSampler now wall desk i).1.dev k every
        (point.step every (desk.dev.plan k).aggregates (.due now)).1 ∧
      (runSampler now wall desk i).1.dev.samplers[i]? =
        some (every, (point.step every (desk.dev.plan k).aggregates (.due now)).1.next) ∧
      sampledOf desk.dev every k (parts (runSampler now wall desk i).2) =
        ((point.step every (desk.dev.plan k).aggregates (.due now)).2.getD []).map
          fun av => (av.1.2, av.2) := by
  unfold runSampler AggregatedPoint.step
  simp only [hi]
  split
  · exact ⟨h, hi, rfl⟩
  · obtain ⟨hslot, hseries⟩ := sample_of_eq h now wall
    have hclock := (sample_entries every now wall desk).2.2
    have hsampled := sample_sampled every now wall desk
    have hlt := (List.getElem?_eq_some_iff.mp hi).1
    have hset := List.getElem?_set_self (a := (every, if point.next + every ≤ now then now + every
      else point.next + every)) (hclock.samplers ▸ hlt)
    refine ⟨⟨?_, ?_, ?_, ?_, hslot, hclock.stale.trans h.stale,
      ⟨i, hset, fun j next hj => ?_⟩, ?_⟩, hset, hseries⟩
    · exact hsampled.points ▸ h.lt
    · exact (hsampled.toFixed.plan k).symm ▸ h.groupBy
    · exact (hsampled.toFixed.plan k).symm ▸ h.aggregates
    · exact (hsampled.toFixed.plan k).symm ▸ hsampled.topics.length_eq ▸ h.topic
    · by_contra hji
      rw [hclock.samplers, List.getElem?_set_ne (Ne.symm hji)] at hj
      exact sampler_ne h hi hji hj rfl
    · intro key hmem
      have hmem : key ∈ (desk.sample every now wall).1.dev.openMsgs := hmem
      rw [hsampled.openMsgs] at hmem
      exact h.unsampled key hmem

/-- All samplers in turn: only the point's own matters. -/
theorem exec_runSampler_represents (h : Represents desk.dev k every point) (now : Nat)
    (wall : OffsetDateTime) :
    let r := exec (runSampler now wall) desk (List.range desk.dev.samplers.length)
    Represents r.1.dev k every (point.step every (desk.dev.plan k).aggregates (.due now)).1 ∧
      sampledOf desk.dev every k (parts r.2) =
        ((point.step every (desk.dev.plan k).aggregates (.due now)).2.getD []).map
          fun av => (av.1.2, av.2) := by
  intro r
  obtain ⟨i, hi, -⟩ := h.sampler
  have hmem : i ∈ List.range desk.dev.samplers.length :=
    List.mem_range.mpr (List.getElem?_eq_some_iff.mp hi).1
  obtain ⟨js, js', hsplit⟩ := List.append_of_mem hmem
  have hnodup := List.nodup_range (n := desk.dev.samplers.length)
  rw [hsplit, List.nodup_append, List.nodup_cons] at hnodup
  have hjs : i ∉ js := fun hin => hnodup.2.2 i hin i List.mem_cons_self rfl
  -- the samplers before the point's, its own, and those after
  obtain ⟨hbefore, hi₁, hnone⟩ := exec_runSampler_of_ne h hjs hi now wall
  obtain ⟨hown, hi₂, hseries⟩ := runSampler_of_eq hbefore hi₁ now wall
  have hjs' : i ∉ js' := hnodup.2.1.1
  obtain ⟨hafter, -, hnone'⟩ := exec_runSampler_of_ne hown hjs' hi₂ now wall
  have hplan := (exec_runSampler now wall desk js).1.toFixed.plan k
  rw [hplan] at hafter hseries
  have hr : r = exec (runSampler now wall) desk (js ++ i :: js') := by rw [← hsplit]
  rw [hr, exec_append, exec_cons]
  refine ⟨hafter, ?_⟩
  rw [← hseries]
  simp only [sampledOf, hplan, parts_append, keyEntries_append, hnone, hnone', List.nil_append,
    List.append_nil]

/-! ### Calls -/

theorem represents_slotted (h : Represents desk.dev k every point) {c : Call} (hat : c.at k = none)
    (hs : Slotted every desk.dev (desk.call c).1.dev (desk.call c).2) :
    Represents (desk.call c).1.dev k every
        (final (AggregatedPoint.step every (desk.dev.plan k).aggregates) point (c.at k).toList) ∧
      sampledOf desk.dev every k (parts (desk.call c).2) =
        sampledBy every (desk.dev.plan k).aggregates point (c.at k).toList := by
  rw [hat]
  refine ⟨h.slotted hs, ?_⟩
  rw [sampledOf, hs.entries h.unsampled]
  rfl

/-- **A call on the device is the call on the machine**: the point ends up as the machine does,
and publishes the samples that the machine takes. -/
theorem call_represents (desk : Desk) (h : Represents desk.dev k every point) (c : Call) :
    Represents (desk.call c).1.dev k every
        (final (AggregatedPoint.step every (desk.dev.plan k).aggregates) point (c.at k).toList) ∧
      sampledOf desk.dev every k (parts (desk.call c).2) =
        sampledBy every (desk.dev.plan k).aggregates point (c.at k).toList := by
  have hisEmpty : (desk.dev.plan k).aggregates.isEmpty = false := by simpa using h.aggregates
  -- the slot of another point
  have hother : ∀ (k' : Nat) (slot : Slot), k' ≠ k →
      Represents { desk.dev with slots := Function.update desk.dev.slots k' slot } k every point := by
    intro k' slot hk
    refine h.slots ?_ h.stale rfl
    rw [Function.update_of_ne (Ne.symm hk)]
    exact h.slot
  cases c with
  | value k' ts v now =>
    by_cases hk : k' = k
    · subst hk
      simp only [call, Call.at, ↓reduceIte, Option.toList_some, offerValue, h.groupBy, hisEmpty,
        Bool.false_eq_true]
      refine ⟨h.slots ?_ h.stale rfl, rfl⟩
      rw [Function.update_self, Slot.over_hold, h.slot]
      rfl
    · have hat : (Call.value k' ts v now).at k = none := if_neg hk
      cases hg : (desk.dev.plan k').groupBy.isSample with
      | true =>
        rw [hat]
        simp only [call, offerValue]
        split
        · exact ⟨hother k' _ hk, rfl⟩
        · rename_i hnot
          cases hpolicy : (desk.dev.plan k').groupBy with
          | sample every' => exact absurd hpolicy (hnot every')
          | time => simp [hpolicy, GroupBy.isSample] at hg
          | frame window => simp [hpolicy, GroupBy.isSample] at hg
      | false =>
        refine represents_slotted h hat ?_
        have hkey : (desk.dev.plan k').groupBy ≠ .sample every := by
          intro heq
          simp [heq, GroupBy.isSample] at hg
        simp only [call]
        rw [offerValue_add desk ts v now hg]
        exact add_slotted every desk hkey ts v now
  | nothing k' quality now =>
    simp only [call, Call.at, offerNone]
    by_cases hk : k' = k ∧ quality ≠ .good
    · obtain ⟨rfl, hquality⟩ := hk
      simp only [hquality, ne_eq, not_false_eq_true, and_self, ↓reduceIte, Option.toList_some]
      refine ⟨h.slots ?_ h.stale rfl, rfl⟩
      rw [Function.update_self, Slot.over_hold, h.slot]
      rfl
    · rw [if_neg hk]
      split
      · rename_i hquality
        exact ⟨hother k' _ fun heq => hk ⟨heq, hquality⟩, rfl⟩
      · exact ⟨h, rfl⟩
  | endOfPass iter =>
    refine represents_slotted h rfl (closeAll_slotted every desk _ fun key hkey => ?_)
    have hmem := (List.mem_filter.mp (List.mem_mergeSort.mp hkey)).2
    have htime : key.2 = .time := by simpa using hmem
    rw [htime]
    exact GroupBy.noConfusion
  | flushAll iter =>
    refine represents_slotted h rfl (closeAll_slotted every desk _ fun key hkey => ?_)
    have hmem := (iter.perm _).mem_iff.mp (List.mem_mergeSort.mp hkey)
    exact h.unsampled key (AList.mem_keys.mp hmem)
  | due iter now wall =>
    -- the ended frames close first, then the samplers run
    simp only [call, due]
    have hclosed := closeAll_slotted every desk
      ((((iter.apply desk.dev.openMsgs.keys).filterMap (endedAt desk.dev now)).mergeSort
        fun a b => a.1 < b.1 || (a.1 == b.1 && a.2.1 ≤ b.2.1)).map Prod.snd) (by
      intro key hkey
      obtain ⟨⟨opened, key'⟩, hmem, rfl⟩ := List.mem_map.mp hkey
      obtain ⟨key₀, -, hended⟩ := List.mem_filterMap.mp (List.mem_mergeSort.mp hmem)
      unfold endedAt at hended
      split at hended
      · rename_i hframe _
        split at hended
        · obtain ⟨rfl, rfl⟩ := Prod.mk.injEq .. ▸ Option.some.inj hended
          rw [hframe]
          exact GroupBy.noConfusion
        · cases hended
      · cases hended)
    generalize desk.closeAll _ = closed at hclosed ⊢
    obtain ⟨hrun, hseries⟩ := exec_runSampler_represents (h.slotted hclosed) now wall
    rw [hclosed.toFixed.plan] at hrun hseries
    refine ⟨hrun, ?_⟩
    simp only [sampledOf, parts_append, keyEntries_append, hclosed.entries h.unsampled,
      List.nil_append, hclosed.toFixed.plan] at hseries ⊢
    rw [hseries]
    simp [sampledBy, Call.at]
  | setStale stale now =>
    simp only [call, setStale, Call.at, Option.toList_some]
    refine ⟨h.slots ?_ rfl rfl, rfl⟩
    simp only [final_cons, final_nil, AggregatedPoint.step, ← h.stale]
    split
    · simp only [hisEmpty, Bool.false_eq_true, ↓reduceIte]
      rw [Slot.over_hold, h.slot]
    · exact h.slot

end Desk

/-! ## Built tables -/

/-- The samplers built so far: one for each period of a point, its first sample a period away. -/
structure Building.Samplers (now : Nat) (b : Building) : Prop where
  nodup : (b.samplers.map Prod.fst).Nodup
  next : ∀ s ∈ b.samplers, s.2 = now + s.1
  mem : ∀ plan ∈ b.points, ∀ every, plan.groupBy = .sample every → (every, now + every) ∈ b.samplers

namespace Building

theorem topicFor_samplers (b : Building) (device group : String) :
    (b.topicFor device group).1.samplers = b.samplers ∧
      (b.topicFor device group).1.points = b.points := by
  unfold topicFor
  split <;> exact ⟨rfl, rfl⟩

theorem addPoint_samplers (config : ConnectorConfig) (device : DeviceConfig) (now : Nat)
    (b : Building) (point : PointConfig) :
    (addPoint config device now b point).samplers =
        (match groupByOf config device point with
        | .sample every =>
          if b.samplers.any fun s => s.1 == every then b.samplers
          else b.samplers ++ [(every, now + every)]
        | _ => b.samplers) ∧
      ∃ plan : PointPlan, plan.groupBy = groupByOf config device point ∧
        (addPoint config device now b point).points = b.points ++ [plan] := by
  obtain ⟨hsamplers, hpoints⟩ := topicFor_samplers b device.name
    ((Naming.of config).resolve config.protocol point).1
  unfold addPoint
  dsimp only
  rw [hsamplers, hpoints]
  exact ⟨rfl, _, rfl, rfl⟩

/-- Every point built has a sampler of its interval. -/
theorem Samplers.addPoint {config : ConnectorConfig} {device : DeviceConfig} {now : Nat}
    {b : Building} (h : b.Samplers now) (point : PointConfig) :
    (addPoint config device now b point).Samplers now := by
  obtain ⟨hsamplers, plan, hplan, hpoints⟩ := addPoint_samplers config device now b point
  -- the samplers there were stay, and the point's own is among them
  have hkept : ∀ s ∈ b.samplers, s ∈ (Building.addPoint config device now b point).samplers := by
    intro s hs
    rw [hsamplers]
    split
    · split
      · exact hs
      · exact List.mem_append_left _ hs
    · exact hs
  have hmem : ∀ every, groupByOf config device point = .sample every →
      (every, now + every) ∈ (Building.addPoint config device now b point).samplers := by
    intro every hevery
    rw [hsamplers, hevery]
    dsimp only
    split
    · rename_i hany
      obtain ⟨⟨every', next⟩, hs, heq⟩ := List.any_eq_true.mp hany
      obtain rfl : every' = every := by simpa using heq
      obtain rfl : next = now + every' := h.next _ hs
      exact hs
    · exact List.mem_append_right _ List.mem_cons_self
  refine ⟨?_, ?_, ?_⟩
  · rw [hsamplers]
    split
    · split
      · exact h.nodup
      · rename_i hany
        rw [List.map_append, List.nodup_append]
        refine ⟨h.nodup, by simp, ?_⟩
        rintro every hin every' hin' rfl
        obtain ⟨s, hs, rfl⟩ := List.mem_map.mp hin
        rw [List.map_cons, List.map_nil, List.mem_singleton] at hin'
        exact hany (List.any_eq_true.mpr ⟨s, hs, by simp [hin']⟩)
    · exact h.nodup
  · intro s hs
    rw [hsamplers] at hs
    split at hs
    · split at hs
      · exact h.next s hs
      · rcases List.mem_append.mp hs with hs | hs
        · exact h.next s hs
        · rw [List.mem_singleton.mp hs]
    · exact h.next s hs
  · intro plan' hplan' every hevery
    rw [hpoints] at hplan'
    rcases List.mem_append.mp hplan' with hin | hin
    · exact hkept _ (h.mem plan' hin every hevery)
    · rw [List.mem_singleton.mp hin, hplan] at hevery
      exact hmem every hevery

end Building

theorem building_samplers (config : ConnectorConfig) (device : DeviceConfig) (now : Nat)
    (points : List PointConfig) :
    (points.foldl (Building.addPoint config device now) {}).Samplers now := by
  induction points using List.reverseRecOn with
  | nil => exact ⟨by simp, by simp, by simp⟩
  | append_singleton points point ih =>
    rw [List.foldl_append]
    exact ih.addPoint point

/-- What is built represents new points. -/
theorem built_represents (config : ConnectorConfig) (device : DeviceConfig) (now : Nat)
    {k every : Nat} {point : PointConfig} (hpoint : device.points[k]? = some point)
    (hevery : groupByOf config device point = .sample every)
    (hne : ((new config device now).plan k).aggregates ≠ []) :
    Represents (new config device now) k every (AggregatedPoint.new every now) := by
  have hof := built_deviceTable config device now
  have hplan := hof.plan k point hpoint
  have hlt : k < (new config device now).points.length := by
    rw [hof.length]
    exact (List.getElem?_eq_some_iff.mp hpoint).1
  have hsamplers := building_samplers config device now device.points
  have hmem : (every, now + every) ∈ (new config device now).samplers := by
    refine hsamplers.mem ((new config device now).plan k) ?_ every
      (hplan.groupBy.trans hevery)
    rw [plan, List.getD_eq_getElem?_getD, List.getElem?_eq_getElem hlt]
    exact List.getElem_mem hlt
  obtain ⟨i, hi⟩ := List.getElem?_of_mem hmem
  obtain ⟨t, ht, -⟩ := hplan.topic
  refine ⟨hlt, hplan.groupBy.trans hevery, hne, (List.getElem?_eq_some_iff.mp ht).1,
    Slot.over_new now, rfl, ⟨i, hi, fun j next hj => ?_⟩, fun key hkey => ?_⟩
  · have hnodup : ((new config device now).samplers.map Prod.fst).Nodup :=
      hsamplers.nodup
    have hjlt := (List.getElem?_eq_some_iff.mp hj).1
    apply (List.getElem?_inj (by simpa using hjlt) hnodup).mp
    rw [List.getElem?_map, List.getElem?_map, hi, hj]
    rfl
  · exact absurd hkey (AList.notMem_empty key)

/-! ## Runs -/

/-- The calls of a run, as the point `k` of device `d` sees them. -/
def pointCalls (d k : Nat) (cs : List (Nat × Call)) : List (PointCall Float) :=
  cs.flatMap fun c => if c.1 = d then (c.2.at k).toList else []

variable [Ryu]

/-- Over a run the batcher's samples of a point are the point's own. -/
theorem run_represents {b : Batcher} {d k every : Nat} {dev : DeviceTable}
    {point : AggregatedPoint Float} (hdev : b.devices[d]? = some dev)
    (h : Represents dev k every point) (cs : List (Nat × Call)) :
    sampledOf dev every k (Batcher.partsOf d (exec Batcher.call b cs).2) =
      sampledBy every (dev.plan k).aggregates point (pointCalls d k cs) := by
  induction cs generalizing b dev point with
  | nil => rfl
  | cons c cs ih =>
    obtain ⟨d', c⟩ := c
    rw [exec_cons, Batcher.partsOf_append]
    have hsplit : pointCalls d k ((d', c) :: cs) =
        (if d' = d then (c.at k).toList else []) ++ pointCalls d k cs := rfl
    rw [hsplit]
    by_cases hd : d' = d
    · subst hd
      obtain ⟨hcall, hseries⟩ :=
        Desk.call_represents { dev := dev, publishedUnits := b.publishedUnits } h c
      have hfixed := Desk.call_fixed { dev := dev, publishedUnits := b.publishedUnits } c
      have hdev' : (b.call (d', c)).1.devices[d']? =
          some (Desk.call { dev := dev, publishedUnits := b.publishedUnits } c).1.dev := by
        rw [Batcher.call_of_some hdev, List.getElem?_set_self (List.getElem?_eq_some_iff.mp hdev).1]
      have hrest := ih hdev' hcall
      rw [hfixed.plan, hfixed.sampledOf] at hrest
      rw [if_pos rfl, sampledBy_append, ← hrest, ← hseries, sampledOf_append,
        Batcher.call_of_some hdev,
        Batcher.partsOf_map, if_pos rfl]
    · have hdev' : (b.call (d', c)).1.devices[d]? = some dev := by
        cases hdev₀ : b.devices[d']? with
        | none => rw [Batcher.call_of_none hdev₀, hdev]
        | some dev₀ => rw [Batcher.call_of_some hdev₀, List.getElem?_set_ne hd, hdev]
      have hout : Batcher.partsOf d (b.call (d', c)).2 = [] := by
        cases hdev₀ : b.devices[d']? with
        | none => rw [Batcher.call_of_none hdev₀]; rfl
        | some dev₀ => rw [Batcher.call_of_some hdev₀, Batcher.partsOf_map, if_neg hd]
      rw [hout, if_neg hd, List.nil_append, List.nil_append]
      exact ih hdev' h

/-- **The aggregated points of the batcher**: in every run, what an aggregated point publishes is
what the machine samples, with double-precision numbers. -/
theorem batcher_represents (config : ConnectorConfig) (now : Nat) (previous : Option Batcher)
    (ops : List Op) {d k every : Nat} {device : DeviceConfig} {point : PointConfig}
    (hdevice : config.devices[d]? = some device) (hpoint : device.points[k]? = some point)
    (hevery : groupByOf config device point = .sample every)
    (hne : ((new config device now).plan k).aggregates ≠ []) :
    sampledOf (new config device now) every k
        (Batcher.partsOf d ((log step (Batcher.new config now previous) ops).flatMap
          fun e => e.2.emissions)) =
      sampledBy every ((new config device now).plan k).aggregates
        (AggregatedPoint.new every now)
        (pointCalls d k (ops.flatMap (Batcher.new config now previous).calls)) := by
  have hdev : (Batcher.new config now previous).devices[d]? =
      some (new config device now) := by
    simp [Batcher.new, List.getElem?_map, hdevice]
  have hrun := run_represents hdev (built_represents config device now hpoint hevery hne)
    (ops.flatMap (Batcher.new config now previous).calls)
  rwa [Batcher.run_eq_calls] at hrun

/-! A point whose mean is published every second. -/

def meanPlc : DeviceConfig := { name := "plc", points := [{ id := "flow" }] }

def meanConfig : ConnectorConfig :=
  { protocol := "modbus"
    output := some "measurements"
    batch := some (.object [("aggregate", .string "mean"), ("every", .string "1s"),
      ("group_by", .string "sample")])
    devices := [meanPlc] }

def meanOps : List Op :=
  [.offer ⟨"plc", "flow", 0, .typed, .good, some (.number 4.0)⟩ 0,
    .due (fun _ => ⟨id, List.Perm.refl⟩) (Duration.fromSecs 1) 0]

omit [Ryu] in
/-- One point with a mean. -/
theorem batcher_represents_mean :
    letI : Ryu := ⟨toString⟩
    sampledOf (new meanConfig meanPlc 0) (Duration.fromSecs 1) 0
        (Batcher.partsOf 0 ((log step (Batcher.new meanConfig 0 none) meanOps).flatMap
          fun e => e.2.emissions)) =
      sampledBy (Duration.fromSecs 1) ((new meanConfig meanPlc 0).plan 0).aggregates
        (AggregatedPoint.new (Duration.fromSecs 1) 0)
        (pointCalls 0 0 (meanOps.flatMap (Batcher.new meanConfig 0 none).calls)) :=
  letI : Ryu := ⟨toString⟩
  batcher_represents meanConfig 0 none meanOps rfl rfl (by decide +kernel) (by decide +kernel)

end TedgeDot.Measure
