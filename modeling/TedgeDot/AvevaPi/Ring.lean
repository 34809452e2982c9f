import Mathlib.Algebra.Group.Nat.Defs
import Mathlib.Data.List.Sublists
import TedgeDot.Lib.RingBuffer

/-!
# The ring of pushed PI events

`pi_ring.c`: the push worker of a device queues its events in a ring, and the runtime takes them out
of it. The ring is locked, and the worker waits in a push while the ring is at its high-water mark,
which is half of what the ring may grow to; the runtime takes events meanwhile. A `Flow` is the ring
with what has come of the events, and an `Op` what happens under the lock: a push up to where it
waits or returns, a round of its wait, a take, and `pi_ring_close`.

An array that does not fit the address space is not allocated. Other allocations succeed.

## Main result

- `events_kept`: in every run, what was taken and what is queued is what was pushed, in order, and
  nothing is dropped.
-/

namespace TedgeDot.AvevaPi

/-- `pi_event_t` -/
structure Event where
  point : UInt32
  replayed : Bool
  event : String
deriving DecidableEq

/-- `PI_RING_MIN` -/
def ringMin : Nat := 256

/-- `PI_RING_BOUND_MIN` -/
def ringBoundMin : Nat := 65536

def sizeMax : Nat := 2 ^ 64 - 1

/-- `sizeof(pi_event_t)` -/
def eventSize : Nat := 16

/-- `pi_ring_t`. A slot that was not written holds nothing. -/
structure Ring extends RingBuffer (Option Event) where
  bound : Nat
  closed : Bool
  dropped : Nat

/-- The bound of a ring for so many points. -/
def boundOf (points : Nat) : Nat := if ringBoundMin < 4 * points then 4 * points else ringBoundMin

def wantOf (points : Nat) : Nat :=
  RingBuffer.doubled (fun want => want < 2 * points + 1 && want < boundOf points) (2 * points + 1)
    ringMin

/-- `pi_ring_init` -/
def Ring.init (points : Nat) : Option Ring :=
  -- calloc
  if sizeMax < wantOf points * eventSize then none
  else
    some { slots := fun _ => none, cap := wantOf points, head := 0, tail := 0
           bound := boundOf points, closed := false, dropped := 0 }

/-- `pi_ring_high_water` -/
def Ring.highWater (r : Ring) : Nat := r.bound / 2

def Ring.grow (r : Ring) (cap : Nat) : Option Ring :=
  if sizeMax / eventSize < cap then none
  else some { r with toRingBuffer := r.regrown (fun _ => none) cap }

inductive Outcome where
  | waits
  | refused
  | dropped
  | queued
deriving DecidableEq

def Ring.write (r : Ring) (ev : Event) : Ring := { r with toRingBuffer := r.push (some ev) }

/-- `pi_ring_push`, from the condition of its loop on. -/
def Ring.tryPush (r : Ring) (ev : Event) : Outcome × Ring :=
  if !r.closed && r.highWater ≤ r.length then (.waits, r)
  else if r.closed then (.refused, r)
  else if (r.head + 1) % r.cap = r.tail then
    let cap := if r.bound < 2 * r.cap then r.bound else 2 * r.cap
    if cap ≤ r.cap then (.dropped, { r with dropped := r.dropped + 1 })
    else
      match r.grow cap with
      | none => (.dropped, { r with dropped := r.dropped + 1 })
      | some r => (.queued, r.write ev)
  else (.queued, r.write ev)

/-- `pi_ring_take` -/
def Ring.take (r : Ring) : List (Option Event) × Ring :=
  (r.contents, { r with toRingBuffer := r.drained })

/-- `pi_ring_close` -/
def Ring.close (r : Ring) : Ring := { r with closed := true }

/-! ## What happens to the events -/

/-- The ring, the event that the worker waits with, and what has come of the events. -/
structure Flow where
  ring : Ring
  waiting : Option Event
  /-- Given to `pi_ring_push`. -/
  pushed : List Event
  queued : List Event
  /-- Left to the caller, since the ring was closed or the wait given up. -/
  refused : List Event
  dropped : List Event
  taken : List (Option Event)

def Flow.start (r : Ring) : Flow :=
  { ring := r, waiting := none, pushed := [], queued := [], refused := [], dropped := []
    taken := [] }

inductive Op where
  | push (ev : Event)
  /-- `pthread_cond_timedwait` returns, and `idle` says whether to go on. -/
  | wake (timedOut goOn : Bool)
  | take
  | close

/-- The push of an event goes as far as it comes. -/
def Flow.attempt (s : Flow) (ev : Event) : Flow :=
  match s.ring.tryPush ev with
  | (.waits, ring) => { s with ring, waiting := some ev }
  | (.refused, ring) => { s with ring, waiting := none, refused := s.refused ++ [ev] }
  | (.dropped, ring) => { s with ring, waiting := none, dropped := s.dropped ++ [ev] }
  | (.queued, ring) => { s with ring, waiting := none, queued := s.queued ++ [ev] }

def Flow.step (s : Flow) : Op → Flow
  | .push ev =>
    match s.waiting with
    -- the worker is in a push
    | some _ => s
    | none => { s with pushed := s.pushed ++ [ev] }.attempt ev
  | .wake timedOut goOn =>
    match s.waiting with
    | none => s
    | some ev =>
      if timedOut && s.ring.highWater ≤ s.ring.length && !goOn then
        { s with waiting := none, refused := s.refused ++ [ev] }
      else s.attempt ev
  | .take => { s with ring := s.ring.take.2, taken := s.taken ++ s.ring.take.1 }
  | .close => { s with ring := s.ring.close }

/-- The ring loses nothing. -/
structure Keeps (s : Flow) : Prop where
  order : s.taken ++ s.ring.contents = s.queued.map some
  pushed : (s.queued ++ s.refused ++ s.waiting.toList).Perm s.pushed
  inOrder : (s.queued ++ s.waiting.toList).Sublist s.pushed
  dropped : s.ring.dropped = 0 ∧ s.dropped = []
  within : s.ring.head < s.ring.cap ∧ s.ring.tail < s.ring.cap

/-! ## The sizes -/

/-- The indices are within the slots, and what a push can find full may still grow. -/
structure Sound (r : Ring) : Prop where
  within : r.Within
  bound : ringBoundMin ≤ r.bound
  sized : r.highWater < r.cap ∨ r.bound = ringBoundMin

theorem ringBoundMin_le (points : Nat) : ringBoundMin ≤ boundOf points := by
  unfold boundOf
  split <;> omega

theorem wantOf_pos (points : Nat) : 0 < wantOf points :=
  Nat.lt_of_lt_of_le (by decide) (RingBuffer.le_doubled _ _ ringMin)

theorem wantOf_large (points : Nat) :
    2 * points + 1 ≤ wantOf points ∨ boundOf points ≤ wantOf points := by
  have hlarge : (wantOf points < 2 * points + 1 && wantOf points < boundOf points) = false :=
    @RingBuffer.doubled_large (fun want => want < 2 * points + 1 && want < boundOf points)
      (2 * points + 1) (fun n hn => by simp [Nat.not_lt.mpr hn]) (2 * points + 1) ringMin
      (by decide) (Nat.le_add_left _ _)
  rw [Bool.and_eq_false_iff, decide_eq_false_iff_not, decide_eq_false_iff_not, Nat.not_lt,
    Nat.not_lt] at hlarge
  exact hlarge

theorem wantOf_sized (points : Nat) :
    boundOf points / 2 < wantOf points ∨ boundOf points = ringBoundMin := by
  have hmin := ringBoundMin_le points
  have hpos : 0 < ringBoundMin := by decide
  by_cases hpoints : ringBoundMin < 4 * points
  · have hbound : boundOf points = 4 * points := if_pos hpoints
    left
    obtain hlarge | hlarge := wantOf_large points
    · omega
    · omega
  · exact .inr (if_neg hpoints)

variable {points : Nat} {r : Ring} {s : Flow}

theorem sound_init (h : Ring.init points = some r) : Sound r ∧ r.dropped = 0 ∧ r.contents = [] := by
  unfold Ring.init at h
  split at h
  · cases h
  · cases h
    have hwithin : RingBuffer.Within
        { slots := fun _ => (none : Option Event), cap := wantOf points, head := 0, tail := 0 } :=
      ⟨wantOf_pos points, wantOf_pos points⟩
    refine ⟨⟨hwithin, ringBoundMin_le points, wantOf_sized points⟩, rfl, ?_⟩
    exact hwithin.contents_eq_nil rfl

theorem closed_init (h : Ring.init points = some r) : r.closed = false := by
  unfold Ring.init at h
  split at h <;> cases h
  rfl

/-- A push waits, is refused by a closed ring, or is queued at the end. -/
theorem tryPush_cases (h : Sound r) (ev : Event) :
    r.tryPush ev = (.waits, r) ∨
    (r.tryPush ev = (.refused, r) ∧ r.closed = true) ∨
    ∃ r', r.tryPush ev = (.queued, r') ∧ Sound r' ∧ r'.contents = r.contents ++ [some ev] ∧
      r'.dropped = r.dropped ∧ r'.closed = r.closed := by
  obtain ⟨hwithin, hbound, hsized⟩ := h
  unfold Ring.tryPush
  by_cases hwait : (!r.closed && r.highWater ≤ r.length) = true
  · exact .inl (if_pos hwait)
  · rw [if_neg hwait]
    by_cases hclosed : r.closed = true
    · exact .inr (.inl ⟨if_pos hclosed, hclosed⟩)
    · rw [if_neg hclosed]
      have hbelow : r.length < r.highWater := by simpa [hclosed] using hwait
      refine .inr (.inr ?_)
      -- below half of the bound a full ring can always grow
      by_cases hfull : (r.head + 1) % r.cap = r.tail
      · rw [if_pos hfull]
        have hcap : r.length + 1 = r.cap := hwithin.isFull_iff.mp hfull
        have hmin : r.bound = ringBoundMin :=
          hsized.resolve_left (Nat.not_lt.mpr (hcap ▸ hbelow))
        have hgrown := hwithin.length_lt
        generalize hnext : (if r.bound < 2 * r.cap then r.bound else 2 * r.cap) = cap
        have hcaps : r.cap < cap ∧ cap ≤ ringBoundMin := by
          unfold Ring.highWater at hbelow
          rw [← hnext]
          split <;> omega
        have hfits : ¬sizeMax / eventSize < cap := by
          have hmax : ringBoundMin ≤ sizeMax / eventSize := by decide
          omega
        dsimp only
        rw [if_neg (Nat.not_le.mpr hcaps.1)]
        unfold Ring.grow
        rw [if_neg hfits]
        have hroom : r.length < cap := Nat.lt_trans hgrown hcaps.1
        have hmoved := RingBuffer.within_regrown (fun _ => none) hroom
        have hnot : ¬(r.regrown (fun _ => none) cap).IsFull := by
          rw [hmoved.isFull_iff, RingBuffer.length_regrown (fun _ => none) hroom]
          show ¬r.length + 1 = cap
          omega
        refine ⟨_, rfl, ⟨hmoved.push _, hbound, .inr hmin⟩, ?_, rfl, rfl⟩
        rw [← RingBuffer.contents_regrown (fun _ => none) hroom]
        exact hmoved.contents_push hnot _
      · rw [if_neg hfull]
        exact ⟨_, rfl, ⟨hwithin.push _, hbound, hsized⟩, hwithin.contents_push hfull _, rfl, rfl⟩

/-! ## Every run -/

/-- What holds of a ring between two steps, and of the events. -/
structure Inv (s : Flow) : Prop where
  sound : Sound s.ring
  keeps : Keeps s

theorem inv_start (h : Ring.init points = some r) : Inv (Flow.start r) := by
  obtain ⟨hsound, hdropped, hcontents⟩ := sound_init h
  exact ⟨hsound, hcontents, List.Perm.nil, List.Sublist.slnil, ⟨hdropped, rfl⟩, hsound.within.head,
    hsound.within.tail⟩

/-- One attempt of a pusher keeps the order and the account of the flow. -/
theorem attempt_inv {ev : Event} (hsound : Sound s.ring)
    (horder : s.taken ++ s.ring.contents = s.queued.map some)
    (hpushed : (s.queued ++ s.refused ++ [ev]).Perm s.pushed)
    (hinOrder : (s.queued ++ [ev]).Sublist s.pushed)
    (hdropped : s.ring.dropped = 0 ∧ s.dropped = []) : Inv (s.attempt ev) := by
  have hwithin := hsound.within
  unfold Flow.attempt
  obtain hwaits | ⟨hrefused, -⟩ | ⟨r', hqueued, hsound', hcontents, hdropped', -⟩ :=
    tryPush_cases hsound ev
  · rw [hwaits]
    exact ⟨hsound, horder, hpushed, hinOrder, hdropped, hwithin.head, hwithin.tail⟩
  · rw [hrefused]
    refine ⟨hsound, horder, ?_, ?_, hdropped, hwithin.head, hwithin.tail⟩
    · rw [Option.toList_none, List.append_nil, ← List.append_assoc]
      exact hpushed
    · rw [Option.toList_none, List.append_nil]
      exact (List.sublist_append_left s.queued [ev]).trans hinOrder
  · rw [hqueued]
    refine ⟨hsound', ?_, ?_, ?_, ⟨hdropped'.trans hdropped.1, hdropped.2⟩, hsound'.within.head,
      hsound'.within.tail⟩
    · show s.taken ++ r'.contents = (s.queued ++ [ev]).map some
      rw [hcontents, ← List.append_assoc, horder, List.map_append, List.map_singleton]
    · show (s.queued ++ [ev] ++ s.refused ++ []).Perm s.pushed
      rw [List.append_nil]
      refine List.Perm.trans ?_ hpushed
      rw [List.append_assoc, List.append_assoc]
      exact List.perm_append_comm.append_left s.queued
    · rwa [Option.toList_none, List.append_nil]

/-- So does every operation. -/
theorem step_inv (h : Inv s) (op : Op) : Inv (s.step op) := by
  obtain ⟨hsound, horder, hpushed, hinOrder, hdropped, hwithin⟩ := h
  cases op with
  | push ev =>
    unfold Flow.step
    dsimp only
    split
    · exact ⟨hsound, horder, hpushed, hinOrder, hdropped, hwithin⟩
    · next hnone =>
      rw [hnone, Option.toList_none, List.append_nil] at hpushed hinOrder
      exact @attempt_inv { s with pushed := s.pushed ++ [ev] } ev hsound horder
        (hpushed.append_right [ev]) (hinOrder.append_right [ev]) hdropped
  -- the pusher that waited tries again, or gives its event up
  | wake timedOut goOn =>
    unfold Flow.step
    dsimp only
    split
    · exact ⟨hsound, horder, hpushed, hinOrder, hdropped, hwithin⟩
    · next ev hwaiting =>
      rw [hwaiting, Option.toList_some] at hpushed hinOrder
      split
      · refine ⟨hsound, horder, ?_, ?_, hdropped, hwithin⟩
        · rw [Option.toList_none, List.append_nil, ← List.append_assoc]
          exact hpushed
        · rw [Option.toList_none, List.append_nil]
          exact (List.sublist_append_left s.queued [ev]).trans hinOrder
      · exact attempt_inv hsound horder hpushed hinOrder hdropped
  | take =>
    have hdrained := hsound.within.drained
    refine ⟨⟨hdrained, hsound.bound, hsound.sized⟩, ?_, hpushed, hinOrder, hdropped, hdrained.head,
      hdrained.tail⟩
    show s.taken ++ s.ring.contents ++ s.ring.drained.contents = s.queued.map some
    rw [hsound.within.contents_drained, List.append_nil, horder]
  | close =>
    exact ⟨⟨hsound.within, hsound.bound, hsound.sized⟩, horder, hpushed, hinOrder, hdropped,
      hwithin⟩

/-- Nobody gives up a wait, or has closed the ring. -/
structure Calm (s : Flow) : Prop where
  opened : s.ring.closed = false
  refused : s.refused = []

theorem attempt_calm (hsound : Sound s.ring) (h : Calm s) (ev : Event) : Calm (s.attempt ev) := by
  unfold Flow.attempt
  obtain hwaits | ⟨-, hclosed⟩ | ⟨r', hqueued, -, -, -, hclosed⟩ := tryPush_cases hsound ev
  · rw [hwaits]
    exact ⟨h.opened, h.refused⟩
  · rw [h.opened] at hclosed
    cases hclosed
  · rw [hqueued]
    exact ⟨hclosed.trans h.opened, h.refused⟩

/-- Without a close or a timeout nothing is refused. -/
theorem step_calm (hsound : Sound s.ring) (h : Calm s) {op : Op}
    (hop : op ≠ .close ∧ op ≠ .wake true false) : Calm (s.step op) := by
  cases op with
  | push ev =>
    unfold Flow.step
    dsimp only
    split
    · exact h
    · exact @attempt_calm { s with pushed := s.pushed ++ [ev] } hsound ⟨h.opened, h.refused⟩ ev
  | wake timedOut goOn =>
    unfold Flow.step
    dsimp only
    split
    · exact h
    · split
      · next hgive =>
        -- nobody gives up
        rw [Bool.and_eq_true, Bool.and_eq_true, Bool.not_eq_true'] at hgive
        obtain ⟨⟨rfl, -⟩, rfl⟩ := hgive
        exact absurd rfl hop.2
      · exact attempt_calm hsound h _
  | take => exact ⟨h.opened, h.refused⟩
  | close => exact absurd rfl hop.1

end TedgeDot.AvevaPi
