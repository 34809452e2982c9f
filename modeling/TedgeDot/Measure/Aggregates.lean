import Mathlib.Algebra.Order.Field.Rat
import TedgeDot.Lib.Signal
import TedgeDot.Measure.Calls

/-!
# Aggregates

The slot of an aggregated point, over any numbers (`SlotOver`): the batcher's slots are its
instance at `Float`, and its instance at an ordered field is what the same code computes in exact
arithmetic. `AggregatedPoint` is one such point with its sampler, as a machine that takes the
calls that reach it.

The sampled values are compared with the signal of what the point held (`heldAt`), period by
period (`Period`).
-/

namespace TedgeDot.Measure

open Machine Signal

/-! ## Slots over any numbers -/

/-- `Slot`, with its numbers in `K`. -/
structure SlotOver (K : Type*) where
  value : Option K
  since : Nat
  sum : K
  goodNs : K
  range : Option (K × K)

/-- An aggregate to publish, with its series key. -/
abbrev Aggregated := Aggregate × String

namespace SlotOver

variable {K : Type*} [Zero K] [Add K] [Mul K] [Div K] [NatCast K] [LT K] [DecidableLT K]

def new (now : Nat) : SlotOver K :=
  { value := none, since := now, sum := 0, goodNs := 0, range := none }

omit [Zero K] [Div K] [LT K] [DecidableLT K] in
/-- Add the held value's time up to `now` to the period's sums. -/
def close (slot : SlotOver K) (now : Nat) : SlotOver K :=
  match slot.value with
  | some v =>
    let ns : K := ((now - slot.since : Nat) : K)
    { slot with sum := slot.sum + v * ns, goodNs := slot.goodNs + ns, since := now }
  | none => { slot with since := now }

/-- Hold `value` from `now` on (`none`: nothing good is held). -/
def hold (slot : SlotOver K) (value : Option K) (now : Nat) : SlotOver K :=
  let slot := { slot.close now with value := value }
  match value with
  | none => slot
  | some v =>
    { slot with
      range := some (match slot.range with
        | none => (v, v)
        | some (lo, hi) => (if v < lo then v else lo, if hi < v then v else hi)) }

/-- Start the next period with the value held now. -/
def restart (slot : SlotOver K) (now : Nat) : SlotOver K :=
  { slot with since := now, sum := 0, goodNs := 0, range := slot.value.map fun v => (v, v) }

/-- What a closed slot gives for an aggregate. -/
def aggregate (slot : SlotOver K) : Aggregate → Option K
  | .mean => some (slot.sum / slot.goodNs)
  | .min => slot.range.map Prod.fst
  | .max => slot.range.map Prod.snd
  | .last => slot.value

/-- The aggregates of a closed slot, as far as it has them. -/
def values (slot : SlotOver K) (aggregates : List Aggregated) : List (Aggregated × K) :=
  if 0 < slot.goodNs then
    aggregates.filterMap fun a => (slot.aggregate a.1).map fun value => (a, value)
  else []

end SlotOver

/-! ## One aggregated point -/

/-- A call, as an aggregated point sees it. -/
inductive PointCall (K : Type*) where
  /-- A reading that becomes a series, or one that is not good. -/
  | reading (value : Option K) (now : Nat)
  | setStale (stale : Bool) (now : Nat)
  | due (now : Nat)

def PointCall.now {K : Type*} : PointCall K → Nat
  | .reading _ now => now
  | .setStale _ now => now
  | .due now => now

/-- An aggregated point: its slot, whether its device is stale, and its next sample time. -/
structure AggregatedPoint (K : Type*) where
  slot : SlotOver K
  stale : Bool
  next : Nat

namespace AggregatedPoint

variable {K : Type*} [Zero K] [Add K] [Mul K] [Div K] [NatCast K] [LT K] [DecidableLT K]

def new (every now : Nat) : AggregatedPoint K :=
  { slot := SlotOver.new now, stale := false, next := now + every }

/-- A sample of the point: its values, and the next period. -/
def sample (every : Nat) (aggregates : List Aggregated) (point : AggregatedPoint K) (now : Nat) :
    AggregatedPoint K × List (Aggregated × K) :=
  let slot := point.slot.close now
  ({ point with
      slot := slot.restart now
      next := if point.next + every ≤ now then now + every else point.next + every },
    slot.values aggregates)

/-- One call. A due call that finds the sample time come gives the values of the sample. -/
def step (every : Nat) (aggregates : List Aggregated) (point : AggregatedPoint K) :
    PointCall K → AggregatedPoint K × Option (List (Aggregated × K))
  | .reading value now => ({ point with slot := point.slot.hold value now }, none)
  | .setStale stale now =>
    let slot := if stale && !point.stale then point.slot.hold none now else point.slot
    ({ point with slot := slot, stale := stale }, none)
  | .due now =>
    if now < point.next then (point, none)
    else
      let (point, values) := point.sample every aggregates now
      (point, some values)

end AggregatedPoint

/-! ## What a point held -/

section Held

variable {K : Type*}

/-- What a call changes in the value held: a reading always does, going stale ends it. -/
def change (stale : Bool) : PointCall K → Bool × List (Nat × Option K)
  | .reading value now => (stale, [(now, value)])
  | .setStale stale' now => (stale', if stale' && !stale then [(now, none)] else [])
  | .due _ => (stale, [])

/-- The changes that the calls made to the value held. -/
def changes (calls : List (PointCall K)) : List (Nat × Option K) := (exec change false calls).2

def heldAt (calls : List (PointCall K)) : Nat → Option K := ofChanges (changes calls)

def heldAfter (calls : List (PointCall K)) : Option K := current (changes calls)

def readings (calls : List (PointCall K)) : List K :=
  calls.flatMap fun
    | .reading (some v) _ => [v]
    | _ => []

/-- A period, from one sample (or the creation of the table) to the next. -/
structure Period (K : Type*) where
  /-- The time of the sample before. -/
  since : Nat
  /-- The time of this sample. -/
  upto : Nat
  /-- The calls up to the sample before. -/
  before : List (PointCall K)
  /-- The calls since. -/
  during : List (PointCall K)
  /-- What this sample publishes. -/
  values : List (Aggregated × K)

namespace Period

/-- The values held during a period: the one held at its start, and those of its readings. -/
def held (p : Period K) : List K :=
  (heldAfter p.before).toList ++ readings p.during

def goodTime (signal : Nat → Option K) (p : Period K) : Nat := good signal p.since p.upto

/-- **What a sample publishes**, in terms of the signal of the values held. -/
structure Exact [Field K] [LinearOrder K] (signal : Nat → Option K) (aggregates : List Aggregated)
    (p : Period K) : Prop where
  mean : ∀ key v, ((.mean, key), v) ∈ p.values → v = average signal p.since p.upto
  min : ∀ key v, ((.min, key), v) ∈ p.values → IsLeast {v | v ∈ p.held} v
  max : ∀ key v, ((.max, key), v) ∈ p.values → IsGreatest {v | v ∈ p.held} v
  between : p.goodTime signal ≠ 0 → ∀ lo hi, IsLeast {v | v ∈ p.held} lo →
    IsGreatest {v | v ∈ p.held} hi →
    lo ≤ average signal p.since p.upto ∧ average signal p.since p.upto ≤ hi
  last : ∀ key v, ((.last, key), v) ∈ p.values → heldAfter (p.before ++ p.during) = some v
  goodTime_le : p.goodTime signal ≤ p.upto - p.since
  published : ∀ a ∈ aggregates, (∃ v, (a, v) ∈ p.values) ↔ p.goodTime signal ≠ 0 ∧
    (a.1 = .last → (heldAfter (p.before ++ p.during)).isSome)
  leftOut : p.values = [] ↔ p.goodTime signal = 0 ∨
    (heldAfter (p.before ++ p.during) = none ∧ ∀ a ∈ aggregates, a.1 = .last)

end Period

/-- The periods of a log: each sample ends one. -/
def periodsFrom (since : Nat) (before during : List (PointCall K)) :
    List (PointCall K × Option (List (Aggregated × K))) → List (Period K)
  | [] => []
  | (call, none) :: log => periodsFrom since before (during ++ [call]) log
  | (call, some values) :: log =>
    { since := since, upto := call.now, before := before, during := during, values := values } ::
      periodsFrom call.now (before ++ during ++ [call]) [] log

/-- The periods of an aggregated point's life, from the creation of its table on. -/
def periods [Zero K] [Add K] [Mul K] [Div K] [NatCast K] [LT K] [DecidableLT K]
    (start every : Nat) (aggregates : List Aggregated) (calls : List (PointCall K)) :
    List (Period K) :=
  periodsFrom start [] []
    (log (AggregatedPoint.step every aggregates) (AggregatedPoint.new every start) calls)

/-- The calls come in the order of their times, none before `start`. -/
def InOrder (start : Nat) : List (PointCall K) → Prop
  | [] => True
  | call :: calls => start ≤ call.now ∧ InOrder call.now calls

end Held

/-! ## What the calls held -/

section History

variable {K : Type*} {calls later : List (PointCall K)} {now t : Nat}

theorem changes_append (calls later : List (PointCall K)) :
    changes (calls ++ later) =
      changes calls ++ (exec change (final change false calls) later).2 := by
  simp only [changes, exec_append]
  rfl

theorem changes_snoc (calls : List (PointCall K)) (call : PointCall K) :
    changes (calls ++ [call]) = changes calls ++ (change (final change false calls) call).2 := by
  rw [changes_append, exec_cons, exec_nil, List.append_nil]

theorem now_of_mem_exec {stale : Bool} {e : Nat × Option K} (h : e ∈ (exec change stale calls).2) :
    ∃ call ∈ calls, e.1 = call.now := by
  induction calls generalizing stale with
  | nil => cases h
  | cons call calls ih =>
    rw [exec_cons, List.mem_append] at h
    rcases h with h | h
    · refine ⟨call, List.mem_cons_self, ?_⟩
      cases call with
      | reading value now => rw [List.mem_singleton.mp h]; rfl
      | setStale stale' now =>
        simp only [change] at h
        split at h
        · rw [List.mem_singleton.mp h]; rfl
        · cases h
      | due now => cases h
    · obtain ⟨call', hmem, heq⟩ := ih h
      exact ⟨call', List.mem_cons_of_mem _ hmem, heq⟩

theorem heldAt_append (h : ∀ call ∈ later, t < call.now) :
    heldAt (calls ++ later) t = heldAt calls t := by
  unfold heldAt
  rw [changes_append]
  apply ofChanges_append
  intro e he
  obtain ⟨call, hmem, heq⟩ := now_of_mem_exec he
  rw [heq]
  exact h call hmem

theorem InOrder.le_of_mem {start : Nat} (h : InOrder start calls) :
    ∀ call ∈ calls, start ≤ call.now := by
  induction calls generalizing start with
  | nil => simp
  | cons call calls ih =>
    intro call' hmem
    rcases List.mem_cons.mp hmem with rfl | hmem
    · exact h.1
    · exact h.1.trans (ih h.2 call' hmem)

end History

/-! ## The slot and the signal -/

section Exactness

variable {K : Type*} [Field K] [LinearOrder K]

/-- The sums of a slot are the integrals of a signal since the period's start, and the signal
keeps the slot's value from there on. -/
structure SlotOver.Of (f : Nat → Option K) (since : Nat) (slot : SlotOver K) : Prop where
  since_le : since ≤ slot.since
  sum : slot.sum = total f since slot.since
  goodNs : slot.goodNs = good f since slot.since
  value : ∀ t, slot.since ≤ t → f t = slot.value

/-- The range of a slot spans the values held. -/
def SlotOver.Spans (held : List K) (slot : SlotOver K) : Prop :=
  match slot.range with
  | none => held = []
  | some (lo, hi) => IsLeast {v | v ∈ held} lo ∧ IsGreatest {v | v ∈ held} hi

namespace SlotOver

variable {f : Nat → Option K} {since now : Nat} {slot : SlotOver K} {held : List K}

omit [LinearOrder K] in
@[simp] theorem close_since (slot : SlotOver K) (now : Nat) : (slot.close now).since = now := by
  unfold close
  split <;> rfl

omit [LinearOrder K] in
@[simp] theorem close_value (slot : SlotOver K) (now : Nat) :
    (slot.close now).value = slot.value := by
  unfold close
  split <;> rfl

omit [LinearOrder K] in
@[simp] theorem close_range (slot : SlotOver K) (now : Nat) :
    (slot.close now).range = slot.range := by
  unfold close
  split <;> rfl

omit [LinearOrder K] in
/-- Closing a slot accounts for the time up to now. -/
theorem Of.close (h : slot.Of f since) (hnow : slot.since ≤ now) : (slot.close now).Of f since := by
  have hkept : ∀ t, slot.since ≤ t → t < now → f t = slot.value := fun t ht _ => h.value t ht
  refine ⟨?_, ?_, ?_, ?_⟩
  · rw [close_since]
    exact h.since_le.trans hnow
  · rw [close_since, ← total_consecutive f h.since_le hnow, ← h.sum]
    unfold SlotOver.close
    split
    · rename_i v hv
      rw [total_some fun t ht ht' => (hkept t ht ht').trans hv]
    · rename_i hv
      rw [total_none fun t ht ht' => (hkept t ht ht').trans hv, add_zero]
  · rw [close_since, ← good_consecutive f h.since_le hnow, Nat.cast_add, ← h.goodNs]
    unfold SlotOver.close
    split
    · rename_i v hv
      rw [good_some fun t ht ht' => (hkept t ht ht').trans hv]
    · rename_i hv
      rw [good_none fun t ht ht' => (hkept t ht ht').trans hv, Nat.cast_zero, add_zero]
  · intro t ht
    rw [close_since] at ht
    rw [close_value]
    exact h.value t (hnow.trans ht)

/-- Holding a new value starts to account for it. -/
theorem Of.hold (h : slot.Of f since) (hnow : slot.since ≤ now) (value : Option K) :
    (slot.hold value now).Of (after f now value) since := by
  have hclosed := h.close hnow
  have hsince : (slot.hold value now).since = now := by
    unfold SlotOver.hold
    cases value <;> exact close_since slot now
  have hbefore : ∀ t, since ≤ t → t < now → after f now value t = f t :=
    fun t _ ht => after_of_lt ht
  refine ⟨?_, ?_, ?_, ?_⟩
  · rw [hsince]
    exact h.since_le.trans hnow
  · rw [hsince, total_congr hbefore]
    have hsum := hclosed.sum
    rw [close_since] at hsum
    rw [← hsum]
    unfold SlotOver.hold
    cases value <;> rfl
  · rw [hsince, good_congr hbefore]
    have hgood := hclosed.goodNs
    rw [close_since] at hgood
    rw [← hgood]
    unfold SlotOver.hold
    cases value <;> rfl
  · intro t ht
    rw [hsince] at ht
    rw [after_of_le ht]
    unfold SlotOver.hold
    cases value <;> rfl

omit [LinearOrder K] in
theorem Of.restart (h : slot.Of f since) (hnow : slot.since = now) :
    (slot.restart now).Of f now := by
  refine ⟨le_refl _, ?_, ?_, ?_⟩
  · exact (total_self f now).symm
  · simp [SlotOver.restart]
  · intro t ht
    exact h.value t (hnow ▸ ht)

theorem Spans.hold_none (h : slot.Spans held) (now : Nat) : (slot.hold none now).Spans held := by
  unfold Spans SlotOver.hold
  rw [close_range]
  exact h

/-- The range of a slot covers the values it has held. -/
theorem Spans.hold_some (h : slot.Spans held) (v : K) (now : Nat) :
    (slot.hold (some v) now).Spans (held ++ [v]) := by
  unfold Spans at h
  unfold Spans SlotOver.hold
  simp only [close_range]
  cases hrange : slot.range with
  | none =>
    rw [hrange] at h
    simp [h]
  | some range =>
    obtain ⟨lo, hi⟩ := range
    rw [hrange] at h
    obtain ⟨⟨hlo, hleast⟩, hhi, hgreatest⟩ := h
    have hset : {w | w ∈ held ++ [v]} = insert v {w | w ∈ held} := by
      ext w
      simp [or_comm]
    simp only [hset]
    refine ⟨?_, ?_⟩
    · rw [← min_def_lt]
      exact IsLeast.insert v ⟨hlo, hleast⟩
    · rw [← max_def_lt']
      exact IsGreatest.insert v ⟨hhi, hgreatest⟩

theorem spans_restart (slot : SlotOver K) (now : Nat) :
    (slot.restart now).Spans slot.value.toList := by
  unfold Spans SlotOver.restart
  cases slot.value with
  | none => rfl
  | some v => simp

end SlotOver

/-! ## A point and its calls -/

/-- Where an aggregated point is in a period: its slot has the integrals of what the calls held,
and its range spans the values held since the period's start. -/
structure Follows (since : Nat) (before during : List (PointCall K)) (point : AggregatedPoint K) :
    Prop where
  slot : point.slot.Of (heldAt (before ++ during)) since
  spans : point.slot.Spans ((heldAfter before).toList ++ readings during)
  value : point.slot.value = heldAfter (before ++ during)
  stale : point.stale = final change false (before ++ during)
  mem : ∀ t, since ≤ t → ∀ v, heldAt (before ++ during) t = some v →
    v ∈ (heldAfter before).toList ++ readings during

namespace Follows

variable {since now : Nat} {before during : List (PointCall K)} {point : AggregatedPoint K}

theorem new (every start : Nat) : Follows start [] [] (AggregatedPoint.new (K := K) every start) where
  slot := by
    refine ⟨le_refl _, ?_, ?_, fun _ _ => rfl⟩
    · exact (total_self _ start).symm
    · simp [AggregatedPoint.new, SlotOver.new]
  spans := rfl
  value := rfl
  stale := rfl
  mem := by simp [heldAt, changes]

/-- A call that changes nothing. -/
theorem skip (h : Follows since before during point) (call : PointCall K)
    (hchange : (change (final change false (before ++ during)) call).2 = [])
    (hreadings : readings [call] = []) {stale : Bool}
    (hstale : stale = (change (final change false (before ++ during)) call).1) :
    Follows since before (during ++ [call]) { point with stale := stale } := by
  have hsame : changes (before ++ (during ++ [call])) = changes (before ++ during) := by
    rw [← List.append_assoc, changes_snoc, hchange, List.append_nil]
  have hread : readings (during ++ [call]) = readings during := by
    rw [readings, List.flatMap_append, ← readings, ← readings, hreadings, List.append_nil]
  have hheld : heldAt (before ++ (during ++ [call])) = heldAt (before ++ during) := by
    rw [heldAt, hsame]
    rfl
  refine ⟨?_, ?_, ?_, ?_, ?_⟩
  · rw [hheld]
    exact h.slot
  · rw [hread]
    exact h.spans
  · rw [heldAfter, hsame]
    exact h.value
  · rw [← List.append_assoc, final_append, hstale]
    rfl
  · rw [hheld, hread]
    exact h.mem

/-- A call that changes the value held. -/
theorem hold (h : Follows since before during point) (call : PointCall K) (value : Option K)
    (hnow : point.slot.since ≤ call.now)
    (hchange : (change (final change false (before ++ during)) call).2 = [(call.now, value)])
    (hreadings : readings [call] = value.toList) {stale : Bool}
    (hstale : stale = (change (final change false (before ++ during)) call).1) :
    Follows since before (during ++ [call])
      { point with slot := point.slot.hold value call.now, stale := stale } := by
  -- the call adds its change, at its time, and no other
  have hchanges : changes (before ++ (during ++ [call])) =
      changes (before ++ during) ++ [(call.now, value)] := by
    rw [← List.append_assoc, changes_snoc, hchange]
  have hread : readings (during ++ [call]) = readings during ++ value.toList := by
    rw [readings, List.flatMap_append, ← readings, ← readings, hreadings]
  have hheld : heldAt (before ++ (during ++ [call])) =
      after (heldAt (before ++ during)) call.now value := by
    rw [heldAt, hchanges, ofChanges_snoc]
    rfl
  refine ⟨?_, ?_, ?_, ?_, ?_⟩
  · rw [hheld]
    exact h.slot.hold hnow value
  · rw [hread, ← List.append_assoc]
    cases value with
    | none =>
      rw [Option.toList_none, List.append_nil]
      exact h.spans.hold_none call.now
    | some v => exact h.spans.hold_some v call.now
  · rw [heldAfter, hchanges, current_snoc]
    unfold SlotOver.hold
    cases value <;> rfl
  · rw [← List.append_assoc, final_append, hstale]
    rfl
  · intro t ht v hv
    rw [hread, ← List.append_assoc, List.mem_append]
    rw [hheld] at hv
    rcases Nat.lt_or_ge t call.now with hlt | hge
    · rw [after_of_lt hlt] at hv
      exact Or.inl (h.mem t ht v hv)
    · rw [after_of_le hge] at hv
      exact Or.inr (by simp [hv])

/-- A sample ends the period and starts the next at the same value. -/
theorem sample (h : Follows since before during point) (hnow : point.slot.since ≤ now)
    (every : Nat) (aggregates : List Aggregated) :
    Follows now (before ++ during ++ [.due now]) []
      (point.sample every aggregates now).1 := by
  have hsame : changes (before ++ during ++ [.due now]) = changes (before ++ during) := by
    rw [changes_snoc]
    exact List.append_nil _
  have hheld : heldAt (before ++ during ++ [.due now]) = heldAt (before ++ during) := by
    rw [heldAt, hsame]
    rfl
  have hafter : heldAfter (before ++ during ++ [.due now]) = point.slot.value := by
    rw [heldAfter, hsame, h.value]
    rfl
  have hvalue : (point.sample every aggregates now).1.slot.value = point.slot.value :=
    SlotOver.close_value point.slot now
  have hspans := SlotOver.spans_restart (point.slot.close now) now
  rw [SlotOver.close_value, ← hafter] at hspans
  refine ⟨?_, ?_, ?_, ?_, ?_⟩
  · rw [List.append_nil, hheld]
    exact (h.slot.close hnow).restart (SlotOver.close_since _ _)
  · rw [show readings ([] : List (PointCall K)) = [] from rfl, List.append_nil]
    exact hspans
  · rw [List.append_nil, hafter, hvalue]
  · rw [List.append_nil, final_append]
    exact h.stale
  · intro t ht v hv
    rw [List.append_nil, hheld, h.slot.value t (hnow.trans ht)] at hv
    rw [hafter, hv]
    exact List.mem_cons_self

end Follows

/-! ## Exact values -/

variable [IsStrictOrderedRing K] {since now : Nat} {before during : List (PointCall K)}
  {point : AggregatedPoint K} {aggregates : List Aggregated}

omit [IsStrictOrderedRing K] in
theorem mem_values {slot : SlotOver K} {a : Aggregated} {v : K} :
    (a, v) ∈ slot.values aggregates ↔
      0 < slot.goodNs ∧ a ∈ aggregates ∧ slot.aggregate a.1 = some v := by
  unfold SlotOver.values
  split
  · rename_i hgood
    rw [List.mem_filterMap]
    constructor
    · rintro ⟨a', hmem, hvalue⟩
      obtain ⟨w, hw, heq⟩ := Option.map_eq_some_iff.mp hvalue
      obtain ⟨rfl, rfl⟩ := Prod.mk.injEq .. ▸ heq
      exact ⟨hgood, hmem, hw⟩
    · rintro ⟨-, hmem, hvalue⟩
      exact ⟨a, hmem, by rw [hvalue]; rfl⟩
  · rename_i hgood
    simp [hgood]

namespace Follows

omit [IsStrictOrderedRing K] in
theorem closed_sum (h : Follows since before during point) (hnow : point.slot.since ≤ now) :
    (point.slot.close now).sum = total (heldAt (before ++ during)) since now := by
  have hsum := (h.slot.close hnow).sum
  rwa [SlotOver.close_since] at hsum

omit [IsStrictOrderedRing K] in
theorem closed_goodNs (h : Follows since before during point) (hnow : point.slot.since ≤ now) :
    (point.slot.close now).goodNs = good (heldAt (before ++ during)) since now := by
  have hgood := (h.slot.close hnow).goodNs
  rwa [SlotOver.close_since] at hgood

omit [IsStrictOrderedRing K] in
theorem range (h : Follows since before during point) {lo hi : K}
    (hrange : point.slot.range = some (lo, hi)) :
    IsLeast {v | v ∈ (heldAfter before).toList ++ readings during} lo ∧
      IsGreatest {v | v ∈ (heldAfter before).toList ++ readings during} hi := by
  have hspans := h.spans
  unfold SlotOver.Spans at hspans
  rwa [hrange] at hspans

omit [IsStrictOrderedRing K] in
theorem range_of_good (h : Follows since before during point)
    (hgood : good (heldAt (before ++ during)) since now ≠ 0) :
    ∃ range, point.slot.range = some range := by
  obtain ⟨t, ht, -, hsome⟩ := good_pos_iff.mp (Nat.pos_of_ne_zero hgood)
  obtain ⟨v, hv⟩ := Option.isSome_iff_exists.mp hsome
  have hheld := h.mem t ht v hv
  have hspans := h.spans
  cases hrange : point.slot.range with
  | some range => exact ⟨range, rfl⟩
  | none =>
    unfold SlotOver.Spans at hspans
    rw [hrange] at hspans
    simp [hspans] at hheld

theorem published (h : Follows since before during point) (hnow : point.slot.since ≤ now)
    {a : Aggregated} (ha : a ∈ aggregates) :
    (∃ v, (a, v) ∈ (point.slot.close now).values aggregates) ↔
      good (heldAt (before ++ during)) since now ≠ 0 ∧
        (a.1 = .last → (heldAfter (before ++ during)).isSome) := by
  have hpos : 0 < (point.slot.close now).goodNs ↔
      good (heldAt (before ++ during)) since now ≠ 0 := by
    rw [h.closed_goodNs hnow, Nat.cast_pos, Nat.pos_iff_ne_zero]
  obtain ⟨aggregate, key⟩ := a
  simp only [mem_values, hpos, ha, true_and, exists_and_left, and_congr_right_iff]
  intro hgood
  cases aggregate with
  | mean => simp [SlotOver.aggregate]
  | min =>
    obtain ⟨range, hrange⟩ := h.range_of_good hgood
    simp [SlotOver.aggregate, hrange]
  | max =>
    obtain ⟨range, hrange⟩ := h.range_of_good hgood
    simp [SlotOver.aggregate, hrange]
  | last => simp [SlotOver.aggregate, h.value, Option.isSome_iff_exists]

/-- A period is left out when no time was good, or only a last value was asked and there is none. -/
theorem left_out (h : Follows since before during point) (hnow : point.slot.since ≤ now)
    (hne : aggregates ≠ []) :
    (point.slot.close now).values aggregates = [] ↔
      good (heldAt (before ++ during)) since now = 0 ∨
        (heldAfter (before ++ during) = none ∧ ∀ a ∈ aggregates, a.1 = .last) := by
  have hnil : (point.slot.close now).values aggregates = [] ↔
      ∀ a ∈ aggregates, ¬ ∃ v, (a, v) ∈ (point.slot.close now).values aggregates := by
    constructor
    · intro hnil a _ ⟨v, hv⟩
      rw [hnil] at hv
      cases hv
    · intro hnone
      apply List.eq_nil_iff_forall_not_mem.mpr
      intro ⟨a, v⟩ hv
      exact hnone a (mem_values.mp hv).2.1 ⟨v, hv⟩
  rw [hnil]
  constructor
  · intro hnone
    by_cases hgood : good (heldAt (before ++ during)) since now = 0
    · exact Or.inl hgood
    · -- every aggregate asks for the value held at the end, and there is none
      have hall : ∀ a ∈ aggregates, a.1 = .last ∧ heldAfter (before ++ during) = none := by
        intro a ha
        have hnot := hnone a ha
        rw [h.published hnow ha] at hnot
        simpa [hgood] using hnot
      obtain ⟨a, ha⟩ := List.exists_mem_of_ne_nil aggregates hne
      exact Or.inr ⟨(hall a ha).2, fun a ha => (hall a ha).1⟩
  · intro hleft a ha
    rw [h.published hnow ha]
    rintro ⟨hgood, hsome⟩
    rcases hleft with hzero | ⟨hvalue, hall⟩
    · exact hgood hzero
    · simpa [hvalue] using hsome (hall a ha)

/-- The values of a period are those of the definition. -/
theorem exact (h : Follows since before during point) (hnow : point.slot.since ≤ now)
    (hne : aggregates ≠ []) (every : Nat) :
    Period.Exact (heldAt (before ++ during)) aggregates
      { since := since, upto := now, before := before, during := during
        values := (point.sample every aggregates now).2 } where
  mean key v hmem := by
    obtain ⟨-, -, hvalue⟩ := mem_values.mp hmem
    simp only [SlotOver.aggregate, Option.some.injEq] at hvalue
    rw [← hvalue, h.closed_sum hnow, h.closed_goodNs hnow]
    rfl
  min key v hmem := by
    obtain ⟨-, -, hvalue⟩ := mem_values.mp hmem
    obtain ⟨⟨lo, hi⟩, hr, rfl⟩ := Option.map_eq_some_iff.mp hvalue
    exact (h.range ((SlotOver.close_range _ _).symm.trans hr)).1
  max key v hmem := by
    obtain ⟨-, -, hvalue⟩ := mem_values.mp hmem
    obtain ⟨⟨lo, hi⟩, hr, rfl⟩ := Option.map_eq_some_iff.mp hvalue
    exact (h.range ((SlotOver.close_range _ _).symm.trans hr)).2
  between hgood lo hi hleast hgreatest := by
    have hgood := Nat.pos_of_ne_zero hgood
    exact ⟨le_average hgood fun t ht _ v hv => hleast.2 (h.mem t ht v hv),
      average_le hgood fun t ht _ v hv => hgreatest.2 (h.mem t ht v hv)⟩
  last key v hmem := by
    obtain ⟨-, -, hvalue⟩ := mem_values.mp hmem
    rw [← h.value, ← SlotOver.close_value point.slot now]
    exact hvalue
  goodTime_le := good_le _ _ _
  published a ha := h.published hnow ha
  leftOut := h.left_out hnow hne

end Follows

omit [IsStrictOrderedRing K] in
theorem Period.Exact.congr {f g : Nat → Option K} {p : Period K} (h : p.Exact f aggregates)
    (hfg : ∀ t, t < p.upto → f t = g t) : p.Exact g aggregates := by
  have hgood : good f p.since p.upto = good g p.since p.upto :=
    good_congr fun t _ ht => hfg t ht
  have haverage : average f p.since p.upto = average g p.since p.upto := by
    rw [average, average, hgood, total_congr fun t _ ht => hfg t ht]
  obtain ⟨hmean, hmin, hmax, hbetween, hlast, hle, hpublished, hleft⟩ := h
  simp only [Period.goodTime, hgood, haverage] at *
  exact ⟨hmean, hmin, hmax, hbetween, hlast, hle, hpublished, hleft⟩

/-! ## The periods of a run -/

omit [IsStrictOrderedRing K] in
/-- Between samples the slot follows the calls. -/
theorem Follows.step (h : Follows since before during point) {call : PointCall K}
    (hnow : point.slot.since ≤ call.now) (every : Nat)
    (hnone : (point.step every aggregates call).2 = none) :
    Follows since before (during ++ [call]) (point.step every aggregates call).1 ∧
      (point.step every aggregates call).1.slot.since ≤ call.now := by
  have hsince : ∀ value, (point.slot.hold value call.now).since ≤ call.now := by
    intro value
    unfold SlotOver.hold
    cases value <;> exact (SlotOver.close_since point.slot call.now).le
  cases call with
  | reading value now =>
    have hheld := h.hold (.reading value now) value hnow rfl (by cases value <;> rfl) h.stale
    exact ⟨hheld, hsince value⟩
  | setStale stale now =>
    simp only [AggregatedPoint.step, h.stale]
    split
    · rename_i hgoes
      have hheld := h.hold (.setStale stale now) none hnow
        (by simp only [change, hgoes, ↓reduceIte]; rfl) rfl (rfl : stale = _)
      exact ⟨hheld, hsince none⟩
    · rename_i hstays
      have hkept := h.skip (.setStale stale now)
        (by simp only [change, hstays]; rfl) rfl (rfl : stale = _)
      exact ⟨hkept, hnow⟩
  | due now =>
    simp only [AggregatedPoint.step] at hnone ⊢
    split at hnone
    · rename_i hearly
      rw [if_pos hearly]
      exact ⟨h.skip (.due now) rfl rfl h.stale, hnow⟩
    · cases hnone

/-- Every period of a run is exact. -/
theorem exact_of_follows (h : Follows since before during point) (hne : aggregates ≠ [])
    (every : Nat) {clock : Nat} (hclock : point.slot.since ≤ clock) {calls : List (PointCall K)}
    (hcalls : InOrder clock calls) :
    ∀ p ∈ periodsFrom since before during (log (AggregatedPoint.step every aggregates) point calls),
      p.Exact (heldAt (before ++ during ++ calls)) aggregates := by
  induction calls generalizing since before during point clock with
  | nil => simp [periodsFrom]
  | cons call calls ih =>
    have hnow := hclock.trans hcalls.1
    rw [log_cons]
    cases hout : (point.step every aggregates call).2 with
    | none =>
      obtain ⟨hstep, hsince⟩ := h.step hnow every hout
      have hrest := ih hstep hsince hcalls.2
      simp only [periodsFrom]
      simpa only [List.append_assoc, List.singleton_append] using hrest
    | some values =>
      -- only a due call gives a sample
      cases call with
      | reading value now => cases hout
      | setStale stale now => cases hout
      | due now =>
        simp only [AggregatedPoint.step] at hout ⊢
        split at hout
        · cases hout
        · rename_i hdue
          obtain rfl : (point.sample every aggregates now).2 = values := by simpa using hout
          rw [if_neg hdue]
          simp only [periodsFrom, PointCall.now, List.mem_cons, forall_eq_or_imp]
          refine ⟨(h.exact hnow hne every).congr fun t ht => ?_, ?_⟩
          · -- the calls from here on come at the end of the period or later
            refine (heldAt_append fun call' hmem => ?_).symm
            rcases List.mem_cons.mp hmem with rfl | hmem
            · exact ht
            · exact lt_of_lt_of_le ht (hcalls.2.le_of_mem call' hmem)
          · have hnow : point.slot.since ≤ now := hnow
            have hrest := ih (h.sample hnow every aggregates) (SlotOver.close_since point.slot now ▸
              le_refl _) hcalls.2
            simpa only [List.append_nil, List.append_assoc, List.singleton_append] using hrest

/-! ### How periods follow each other -/

/-- The calls that a period takes up: those since the sample before, and its own. -/
def Period.calls (p : Period K) : List (PointCall K) := p.during ++ [.due p.upto]

/-- The time of the last sample, or of the creation of the table. -/
def lastSample (start : Nat) (ps : List (Period K)) : Nat := (ps.getLast?.map Period.upto).getD start

/-- Each period starts where the one before ended, with the calls from there on. -/
def Successive (since : Nat) (before : List (PointCall K)) : List (Period K) → Prop
  | [] => True
  | p :: ps => p.since = since ∧ p.before = before ∧ since ≤ p.upto ∧
      Successive p.upto (before ++ p.calls) ps

/-- **Periods partition time**, and the calls. -/
structure Partition (start : Nat) (calls : List (PointCall K)) (ps : List (Period K)) : Prop where
  successive : Successive start [] ps
  calls : ps.flatMap Period.calls <+: calls
  /-- Each instant up to the last sample is in one period, and no other instant is in any. -/
  once : ∀ t, (ps.countP fun p => p.since ≤ t && t < p.upto) =
    if start ≤ t ∧ t < lastSample start ps then 1 else 0
  /-- No good time is counted twice, and none is left out. -/
  goodTime : ∀ signal : Nat → Option K,
    (ps.map (Period.goodTime signal)).sum = good signal start (lastSample start ps)

omit [Field K] [LinearOrder K] [IsStrictOrderedRing K] in
@[simp] theorem lastSample_cons (start : Nat) (p : Period K) (ps : List (Period K)) :
    lastSample start (p :: ps) = lastSample p.upto ps := by
  unfold lastSample
  rw [List.getLast?_cons]
  cases ps.getLast? <;> rfl

namespace Successive

variable {start : Nat} {ps : List (Period K)}

omit [Field K] [LinearOrder K] [IsStrictOrderedRing K] in
theorem le_lastSample (h : Successive start before ps) : start ≤ lastSample start ps := by
  induction ps generalizing start before with
  | nil => exact le_refl _
  | cons p ps ih =>
    rw [lastSample_cons]
    exact h.2.2.1.trans (ih h.2.2.2)

omit [Field K] [LinearOrder K] [IsStrictOrderedRing K] in
theorem once (h : Successive start before ps) (t : Nat) :
    (ps.countP fun p => p.since ≤ t && t < p.upto) =
      if start ≤ t ∧ t < lastSample start ps then 1 else 0 := by
  induction ps generalizing start before with
  | nil =>
    have hnot : ¬ (start ≤ t ∧ t < start) := by omega
    exact (if_neg hnot).symm
  | cons p ps ih =>
    obtain ⟨rfl, -, hle, hrest⟩ := h
    have hlast := hrest.le_lastSample
    rw [List.countP_cons, ih hrest, lastSample_cons]
    -- `t` is before this period, in it, in a later one, or after all
    rcases Nat.lt_or_ge t p.since with hbefore | hsince
    · rw [if_neg (by omega), if_neg (by simp; omega), if_neg (by omega)]
    · rcases Nat.lt_or_ge t p.upto with hin | hafter
      · rw [if_neg (by omega), if_pos (by simp; omega), if_pos (by omega)]
      · rw [if_neg (c := (_ && _) = true) (by simp; omega), Nat.add_zero]
        simp only [hafter, hsince, true_and]

omit [Field K] [LinearOrder K] [IsStrictOrderedRing K] in
theorem goodTime (h : Successive start before ps) (signal : Nat → Option K) :
    (ps.map (Period.goodTime signal)).sum = good signal start (lastSample start ps) := by
  induction ps generalizing start before with
  | nil => exact (good_self signal start).symm
  | cons p ps ih =>
    obtain ⟨rfl, -, hle, hrest⟩ := h
    rw [List.map_cons, List.sum_cons, ih hrest, lastSample_cons]
    exact good_consecutive signal hle hrest.le_lastSample

end Successive

omit [IsStrictOrderedRing K] in
/-- The periods follow each other and have each call in one of them. -/
theorem successive_periodsFrom (before during : List (PointCall K)) (point : AggregatedPoint K)
    (aggregates : List Aggregated) (every : Nat) {clock : Nat} (hsince : since ≤ clock)
    {calls : List (PointCall K)} (hcalls : InOrder clock calls) :
    Successive since before
        (periodsFrom since before during (log (AggregatedPoint.step every aggregates) point calls)) ∧
      (periodsFrom since before during
        (log (AggregatedPoint.step every aggregates) point calls)).flatMap Period.calls <+:
          during ++ calls := by
  induction calls generalizing since before during point clock with
  | nil => simp [periodsFrom, Successive]
  | cons call calls ih =>
    rw [log_cons]
    cases hout : (point.step every aggregates call).2 with
    | none =>
      simp only [periodsFrom]
      obtain ⟨hsuccessive, hstart⟩ := ih before (during ++ [call])
        (point.step every aggregates call).1 (hsince.trans hcalls.1) hcalls.2
      refine ⟨hsuccessive, ?_⟩
      simpa only [List.append_assoc, List.singleton_append] using hstart
    | some values =>
      cases call with
      | reading value now => cases hout
      | setStale stale now => cases hout
      | due now =>
        obtain ⟨hsuccessive, hstart⟩ := ih (before ++ during ++ [.due now]) []
          (point.step every aggregates (.due now)).1 (le_refl now) hcalls.2
        simp only [periodsFrom, PointCall.now, Successive, Period.calls, List.flatMap_cons,
          true_and]
        refine ⟨⟨hsince.trans hcalls.1, ?_⟩, ?_⟩
        · rw [← List.append_assoc]
          exact hsuccessive
        · rw [List.append_assoc, List.prefix_append_right_inj, List.singleton_append]
          exact List.cons_prefix_cons.mpr ⟨rfl, hstart⟩

/-- **Aggregates are exact**: in exact arithmetic, each sample of an aggregated point publishes
the time-weighted average, the smallest and the largest of the values held in its period, and the
periods partition time. -/
theorem aggregates_exact (start every : Nat) {aggregates : List Aggregated}
    (hne : aggregates ≠ []) {calls : List (PointCall K)} (hcalls : InOrder start calls) :
    (∀ p ∈ periods start every aggregates calls, p.Exact (heldAt calls) aggregates) ∧
      Partition start calls (periods start every aggregates calls) := by
  obtain ⟨hsuccessive, hstart⟩ := successive_periodsFrom [] [] (AggregatedPoint.new every start)
    aggregates every (le_refl start) hcalls
  refine ⟨?_, hsuccessive, hstart, hsuccessive.once, hsuccessive.goodTime⟩
  exact exact_of_follows (Follows.new every start) hne every (le_refl start) hcalls

end Exactness

/-- A reading of 4 that is held for a quarter of the period, then a reading of 8. -/
theorem aggregates_exact_mean :
    (∀ p ∈ periods (K := ℚ) 0 400000000 [(.mean, "p")]
        [.reading (some 4) 0, .reading (some 8) 100000000, .due 400000000],
      p.Exact (heldAt [.reading (some 4) 0, .reading (some 8) 100000000, .due 400000000])
        [(.mean, "p")]) ∧
      Partition 0 [.reading (some 4) 0, .reading (some 8) 100000000, .due 400000000]
        (periods (K := ℚ) 0 400000000 [(.mean, "p")]
          [.reading (some 4) 0, .reading (some 8) 100000000, .due 400000000]) :=
  aggregates_exact 0 400000000 (by simp) (by simp [InOrder, PointCall.now])

/-- A point that aggregates to its last value only is left out although it had good time: it
holds nothing at the sample time. -/
theorem left_out_with_good_time :
    ¬ ∀ (start every : Nat) (aggregates : List Aggregated) (calls : List (PointCall ℚ)),
      aggregates ≠ [] → InOrder start calls → ∀ p ∈ periods start every aggregates calls,
        (p.values = [] ↔ p.goodTime (heldAt calls) = 0) := by
  intro h
  -- good for the first half of the period
  let calls : List (PointCall ℚ) :=
    [.reading (some 1) 0, .reading none 50000000, .due 100000000]
  have hperiods : periods 0 100000000 [(.last, "p")] calls =
      [{ since := 0, upto := 100000000, before := [], during := calls.take 2, values := [] }] := by
    simp [periods, periodsFrom, calls, AggregatedPoint.step, AggregatedPoint.new,
      AggregatedPoint.sample, SlotOver.new, SlotOver.hold, SlotOver.close, SlotOver.values,
      SlotOver.aggregate, PointCall.now]
  have hperiod := h 0 100000000 [(.last, "p")] calls (by simp)
    (by simp [calls, InOrder, PointCall.now])
    { since := 0, upto := 100000000, before := [], during := calls.take 2, values := [] }
    (by rw [hperiods]; exact List.mem_cons_self)
  have hgood : good (heldAt calls) 0 100000000 ≠ 0 := by
    rw [← Nat.pos_iff_ne_zero, good_pos_iff]
    exact ⟨0, le_refl 0, by omega, rfl⟩
  exact hgood (hperiod.mp rfl)

end TedgeDot.Measure
