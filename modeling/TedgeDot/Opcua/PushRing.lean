import Mathlib.Algebra.Group.Nat.Defs
import TedgeDot.Lib.RingBuffer

/-!
# The ring of pushed OPC UA values

`push_ring.h`: the values that the server pushed, between two ticks of the runtime. The ring grows
by doubling, up to a bound that follows the number of points, and a value is dropped only at the
bound or where there is no memory. Every allocation comes with whether it succeeds. `Queue` is the
ring with what was offered, committed and popped since the queue was last emptied.

## Main result

- `queue_kept`: in every run, what was popped and what is queued is what was committed, in order,
  and what was offered is committed or counted.
-/

namespace TedgeDot.Opcua

/-- `UA_RING_MIN` -/
def ringMin : Nat := 256

/-- `UA_RING_BOUND_MIN` -/
def ringBoundMin : Nat := 65536

def sizeMax : Nat := 2 ^ 64 - 1

/-- `ua_ring_t`, over its values. There is no buffer where `cap` is zero, and a slot that was not
written holds nothing. -/
structure PushRing (α : Type) extends RingBuffer (Option α) where
  bound : Nat
  dropped : Nat
  nomem : Nat

namespace PushRing

variable {α : Type}

/-- A ring of a device that was not connected yet. -/
def unsized : PushRing α :=
  { slots := fun _ => none, cap := 0, head := 0, tail := 0, bound := 0, dropped := 0, nomem := 0 }

section

/-! ## The operations

`pendingSize` is `sizeof(ua_pending_t)`. -/

variable (pendingSize : Nat)

/-- `ua_ring_resize`; none where it fails. -/
def resize (r : PushRing α) (cap : Nat) (alloc : Bool) : Option (PushRing α) :=
  if cap = 0 ∨ sizeMax / pendingSize < cap then none
  else if alloc then some { r with toRingBuffer := r.regrown (fun _ => none) cap }
  else none

/-- `ua_ring_clear` -/
def clear (r : PushRing α) : PushRing α := { r with head := 0, tail := 0, dropped := 0, nomem := 0 }

/-- `ua_ring_free` -/
def free (r : PushRing α) : PushRing α :=
  { r with slots := fun _ => none, cap := 0, bound := 0, head := 0, tail := 0, dropped := 0
           nomem := 0 }

/-- The slots for so many points, before the bound. -/
def wantOf (points : Nat) : Nat :=
  RingBuffer.doubled (fun want => want < 2 * points + 1) (2 * points + 1) ringMin

def boundOf (points : Nat) : Nat := if ringBoundMin < 4 * points then 4 * points else ringBoundMin

/-- The ring with `want` slots, or with those that it has where it cannot be resized. -/
def sizedTo (r : PushRing α) (want : Nat) (alloc : Bool) : PushRing α :=
  if r.cap ≠ want then (r.resize pendingSize want alloc).getD r else r

/-- `ua_ring_reserve` -/
def reserve (r : PushRing α) (points : Nat) (alloc : Bool) : PushRing α :=
  sizedTo pendingSize
    { r with bound := boundOf points, head := 0, tail := 0, dropped := 0, nomem := 0 }
    (if boundOf points < wantOf points then boundOf points else wantOf points) alloc

/-- The bound, also of a ring that was not reserved. -/
def atMost (r : PushRing α) : Nat := if r.bound = 0 then ringBoundMin else r.bound

/-- The slots that a full ring grows to. -/
def grownTo (r : PushRing α) : Nat :=
  let cap := if r.cap = 0 then ringMin else 2 * r.cap
  if r.atMost < cap then r.atMost else cap

/-- `ua_ring_slot`: whether there is a slot, and the ring. -/
def slot (r : PushRing α) (alloc : Bool) : Bool × PushRing α :=
  if r.cap = 0 ∨ (r.head + 1) % r.cap = r.tail then
    if r.grownTo ≤ r.cap then (false, { r with dropped := r.dropped + 1 })
    else
      match r.resize pendingSize r.grownTo alloc with
      | none => (false, { r with dropped := r.dropped + 1, nomem := r.nomem + 1 })
      | some r => (true, r)
  else (true, r)

/-- The slot is filled, and `ua_ring_commit`. -/
def commit (r : PushRing α) (v : α) : PushRing α := { r with toRingBuffer := r.push (some v) }

/-- `ua_ring_peek` -/
def peek (r : PushRing α) : Option (Option α) :=
  if r.tail ≠ r.head then some (r.slots r.tail) else none

end

/-- `ua_ring_pop` -/
def release (r : PushRing α) : PushRing α := { r with toRingBuffer := r.pop }

end PushRing

/-! ## What happens to the values -/

/-- The ring, and what was offered, committed and popped since it was last emptied. -/
structure Queue (α : Type) where
  ring : PushRing α
  offered : List α
  committed : List α
  popped : List (Option α)

inductive QueueOp (α : Type) where
  | reserve (points : Nat) (alloc : Bool)
  /-- `ua_ring_slot`, and `ua_ring_commit` where there is a slot. -/
  | offer (v : α) (alloc : Bool)
  /-- `ua_ring_peek`, and `ua_ring_pop` where there is a value. -/
  | take
  | clear
  | free

def QueueOp.empties {α : Type} : QueueOp α → Bool
  | .reserve _ _ | .clear | .free => true
  | .offer _ _ | .take => false

def QueueOp.restarts {α : Type} : QueueOp α → Bool
  | .reserve _ _ | .clear => true
  | .offer _ _ | .take | .free => false

namespace Queue

variable {α : Type} (pendingSize : Nat)

def start : Queue α := { ring := .unsized, offered := [], committed := [], popped := [] }

/-- What an operation does to the ring, and what it adds to what was told of. -/
def act (s : Queue α) : QueueOp α → Queue α
  | .reserve points alloc => { s with ring := s.ring.reserve pendingSize points alloc }
  | .offer v alloc =>
    match s.ring.slot pendingSize alloc with
    | (true, r) =>
      { s with ring := r.commit v, offered := s.offered ++ [v], committed := s.committed ++ [v] }
    | (false, r) => { s with ring := r, offered := s.offered ++ [v] }
  | .take =>
    match s.ring.peek with
    | some x => { s with ring := s.ring.release, popped := s.popped ++ [x] }
    | none => s
  | .clear => { s with ring := s.ring.clear }
  | .free => { s with ring := s.ring.free }

/-- The operation, where `since` says which operations what is told of begins with. -/
def step (since : QueueOp α → Bool) (s : Queue α) (op : QueueOp α) : Queue α :=
  let s := s.act pendingSize op
  if since op then { s with offered := [], committed := [], popped := [] } else s

def run (since : QueueOp α → Bool) (ops : List (QueueOp α)) : Queue α :=
  ops.foldl (step pendingSize since) start

/-- The queue is in order, and its losses are counted. -/
structure Kept (s : Queue α) : Prop where
  indices : s.ring.head < s.ring.cap ∧ s.ring.tail < s.ring.cap ∨
    s.ring.cap = 0 ∧ s.ring.head = 0 ∧ s.ring.tail = 0
  popped : s.popped <+: s.committed.map some
  order : s.popped ++ s.ring.contents = s.committed.map some
  offered : s.committed.Sublist s.offered
  counted : s.offered.length = s.committed.length + s.ring.dropped

/-- A value that gets no slot: it is counted, and the queue is as it was. -/
structure Refused (r : PushRing α) (alloc : Bool) : Prop where
  same : (r.slot pendingSize alloc).2.toRingBuffer = r.toRingBuffer
  counted : (r.slot pendingSize alloc).2.dropped = r.dropped + 1
  why : r.atMost ≤ r.length + 1 ∨ alloc = false ∨ sizeMax / pendingSize < r.grownTo

end Queue

/-! ## One operation -/

namespace PushRing

variable {α : Type} {pendingSize : Nat}

/-- The indices are within the slots, or there are none. -/
structure Placed (r : PushRing α) : Prop where
  indices : r.Within ∨ r.cap = 0 ∧ r.head = 0 ∧ r.tail = 0
  bound : r.bound = 0 ∨ ringBoundMin ≤ r.bound

theorem ringBoundMin_le (points : Nat) : ringBoundMin ≤ boundOf points := by
  unfold boundOf
  split <;> omega

theorem wantOf_pos (points : Nat) : 0 < wantOf points :=
  Nat.lt_of_lt_of_le (by decide) (RingBuffer.le_doubled _ _ ringMin)

variable {r : PushRing α}

theorem placed_start (hhead : r.head = 0) (htail : r.tail = 0)
    (hbound : r.bound = 0 ∨ ringBoundMin ≤ r.bound) : r.Placed := by
  refine ⟨?_, hbound⟩
  by_cases hcap : r.cap = 0
  · exact .inr ⟨hcap, hhead, htail⟩
  · exact .inl ⟨hhead ▸ Nat.pos_of_ne_zero hcap, htail ▸ Nat.pos_of_ne_zero hcap⟩

theorem resize_eq_some {r r' : PushRing α} {cap : Nat} {alloc : Bool}
    (h : r.resize pendingSize cap alloc = some r') :
    r' = { r with toRingBuffer := r.regrown (fun _ => none) cap } := by
  unfold resize at h
  split at h
  · cases h
  · split at h
    · exact (Option.some.inj h).symm
    · cases h

theorem resize_eq_none {cap : Nat} {alloc : Bool} (h : r.resize pendingSize cap alloc = none)
    (hcap : 0 < cap) : alloc = false ∨ sizeMax / pendingSize < cap := by
  unfold resize at h
  split at h
  · next hfits => exact .inr (hfits.resolve_left (Nat.ne_of_gt hcap))
  · split at h
    · cases h
    · next hfails => exact .inl (Bool.eq_false_iff.mpr hfails)

theorem sizedTo_empty (hhead : r.head = 0) (htail : r.tail = 0)
    (hbound : r.bound = 0 ∨ ringBoundMin ≤ r.bound) {want : Nat} (hwant : 0 < want) (alloc : Bool) :
    (r.sizedTo pendingSize want alloc).Placed ∧ (r.sizedTo pendingSize want alloc).length = 0 ∧
      (r.sizedTo pendingSize want alloc).dropped = r.dropped := by
  have hempty := RingBuffer.length_of_start hhead htail
  have hsame : r.Placed ∧ r.length = 0 ∧ r.dropped = r.dropped :=
    ⟨placed_start hhead htail hbound, hempty, rfl⟩
  unfold sizedTo
  split
  · cases hresize : r.resize pendingSize want alloc with
    | none => exact hsame
    | some r' =>
      obtain rfl := resize_eq_some hresize
      have hroom : r.length < want := hempty ▸ hwant
      exact ⟨⟨.inl (RingBuffer.within_regrown _ hroom), hbound⟩,
        (RingBuffer.length_regrown _ hroom).trans hempty, rfl⟩
  · exact hsame

/-- **Reserve**: the ring is empty, with the buffer that it has or another one. -/
theorem reserve_emptied (r : PushRing α) (points : Nat) (alloc : Bool) :
    (r.reserve pendingSize points alloc).Placed ∧
      (r.reserve pendingSize points alloc).length = 0 ∧
      (r.reserve pendingSize points alloc).dropped = 0 := by
  unfold reserve
  refine sizedTo_empty rfl rfl (.inr (ringBoundMin_le points)) ?_ alloc
  split
  · exact Nat.lt_of_lt_of_le (by decide) (ringBoundMin_le points)
  · exact wantOf_pos points

theorem sizedTo_failed (r : PushRing α) (want : Nat) : r.sizedTo pendingSize want false = r := by
  have hnone : r.resize pendingSize want false = none := by simp [resize]
  unfold sizedTo
  rw [hnone]
  exact ite_self r

theorem reserve_failed (r : PushRing α) (points : Nat) :
    (r.reserve pendingSize points false).slots = r.slots ∧
      (r.reserve pendingSize points false).cap = r.cap := by
  unfold reserve
  rw [sizedTo_failed]
  exact ⟨rfl, rfl⟩

theorem Placed.le_atMost (h : r.Placed) : ringBoundMin ≤ r.atMost := by
  unfold atMost
  split
  · exact le_rfl
  · next hbound => exact h.bound.resolve_left hbound

theorem Placed.atMost_le (hr : r.Placed) (h : r.grownTo ≤ r.cap) : r.atMost ≤ r.cap := by
  have hmost := hr.le_atMost
  have hmin : 0 < ringMin := by decide
  have hboundMin : 0 < ringBoundMin := by decide
  unfold grownTo at h
  dsimp only at h
  split at h <;> split at h <;> omega

theorem Placed.lt_grownTo (hr : r.Placed) (hfull : r.cap = 0 ∨ r.length + 1 = r.cap)
    (h : r.cap < r.grownTo) : r.length + 1 < r.grownTo := by
  obtain hcap | hcap := hfull
  · have hmost := hr.le_atMost
    have hmin : 1 < ringMin ∧ 1 < ringBoundMin := by decide
    have hlength : r.length = 0 := if_pos hcap
    have hgrown : r.grownTo = if r.atMost < ringMin then r.atMost else ringMin := by
      unfold grownTo
      rw [if_pos hcap]
    rw [hlength, hgrown]
    split <;> omega
  · rwa [hcap]

/-- Room is found, perhaps after growing, or the value is dropped and counted. -/
theorem slot_cases (h : r.Placed) (alloc : Bool) :
    (∃ r', r.slot pendingSize alloc = (true, r') ∧ r'.Within ∧ ¬r'.IsFull ∧
      r'.contents = r.contents ∧ r'.bound = r.bound ∧ r'.dropped = r.dropped) ∨
    ∃ r', r.slot pendingSize alloc = (false, r') ∧
      r' = { r with dropped := r'.dropped, nomem := r'.nomem } ∧ r'.dropped = r.dropped + 1 ∧
      (r.atMost ≤ r.length + 1 ∨ alloc = false ∨ sizeMax / pendingSize < r.grownTo) := by
  unfold slot
  by_cases hneed : r.cap = 0 ∨ (r.head + 1) % r.cap = r.tail
  · rw [if_pos hneed]
    have hfull : r.cap = 0 ∨ r.length + 1 = r.cap := by
      obtain hwithin | ⟨hcap, -⟩ := h.indices
      · exact .inr (hwithin.isFull_iff.mp (hneed.resolve_left hwithin.cap_pos.ne'))
      · exact .inl hcap
    by_cases hbound : r.grownTo ≤ r.cap
    · -- at the bound
      rw [if_pos hbound]
      have hmost := h.atMost_le hbound
      exact .inr ⟨_, rfl, rfl, rfl, .inl (by omega)⟩
    · rw [if_neg hbound]
      have hgrows := h.lt_grownTo hfull (Nat.not_le.mp hbound)
      have hroom : r.length < r.grownTo := Nat.lt_of_succ_lt hgrows
      cases hresize : r.resize pendingSize r.grownTo alloc with
      | none =>
        exact .inr ⟨_, rfl, rfl, rfl,
          .inr (resize_eq_none hresize (Nat.lt_of_le_of_lt (Nat.zero_le _) hroom))⟩
      | some r' =>
        obtain rfl := resize_eq_some hresize
        have hmoved := RingBuffer.within_regrown (fun _ => none) hroom
        refine .inl ⟨_, rfl, hmoved, ?_, RingBuffer.contents_regrown _ hroom, rfl, rfl⟩
        rw [hmoved.isFull_iff, RingBuffer.length_regrown _ hroom]
        exact Nat.ne_of_lt hgrows
  · rw [if_neg hneed]
    obtain ⟨hcap, hroom⟩ := not_or.mp hneed
    exact .inl ⟨r, rfl, h.indices.resolve_right fun hnone => hcap hnone.1, hroom, rfl, rfl, rfl⟩

end PushRing

/-! ## Every run -/

namespace Queue

variable {α : Type} {pendingSize : Nat}

/-- What holds between two operations. -/
structure Inv (s : Queue α) : Prop where
  placed : s.ring.Placed
  order : s.popped ++ s.ring.contents = s.committed.map some
  offered : s.committed.Sublist s.offered
  counted : s.offered.length = s.committed.length + s.ring.dropped

theorem Inv.kept {s : Queue α} (h : Inv s) : Kept s where
  indices := h.placed.indices.imp_left fun hwithin => ⟨hwithin.head, hwithin.tail⟩
  popped := ⟨s.ring.contents, h.order⟩
  order := h.order
  offered := h.offered
  counted := h.counted

theorem inv_start : Inv (start : Queue α) where
  placed := PushRing.placed_start rfl rfl (.inl rfl)
  order := rfl
  offered := List.Sublist.slnil
  counted := rfl

theorem inv_emptied {r : PushRing α} (hplaced : r.Placed) (hempty : r.length = 0)
    (hdropped : r.dropped = 0) :
    Inv { ring := r, offered := [], committed := [], popped := [] } where
  placed := hplaced
  order := RingBuffer.contents_of_length hempty
  offered := List.Sublist.slnil
  counted := by
    show 0 = 0 + r.dropped
    rw [hdropped]

/-- Offering a value keeps the account. -/
theorem offer_inv {s : Queue α} (h : Inv s) (v : α) (alloc : Bool) :
    Inv (s.act pendingSize (.offer v alloc)) := by
  obtain ⟨hplaced, horder, hoffered, hcounted⟩ := h
  unfold act
  dsimp only
  obtain ⟨r', hslot, hwithin, hroom, hcontents, hbound, hdropped⟩ |
    ⟨r', hslot, hsame, hdropped, -⟩ := @PushRing.slot_cases α pendingSize _ hplaced alloc
  · rw [hslot]
    have hpushed := hwithin.push (some v)
    refine ⟨⟨.inl hpushed, ?_⟩, ?_, hoffered.append_right [v], ?_⟩
    · show r'.bound = 0 ∨ ringBoundMin ≤ r'.bound
      exact hbound ▸ hplaced.bound
    · show s.popped ++ (r'.push (some v)).contents = (s.committed ++ [v]).map some
      rw [hwithin.contents_push hroom, hcontents, ← List.append_assoc, horder, List.map_append,
        List.map_singleton]
    · show (s.offered ++ [v]).length = (s.committed ++ [v]).length + r'.dropped
      rw [List.length_append, List.length_append, hdropped, hcounted]
      omega
  · rw [hslot, hsame]
    refine ⟨⟨hplaced.indices, hplaced.bound⟩, horder,
      hoffered.trans (List.sublist_append_left s.offered [v]), ?_⟩
    show (s.offered ++ [v]).length = s.committed.length + r'.dropped
    rw [List.length_append, hcounted, hdropped]
    rfl

theorem take_inv {s : Queue α} (h : Inv s) : Inv (s.act pendingSize .take) := by
  obtain ⟨hplaced, horder, hoffered, hcounted⟩ := h
  unfold act PushRing.peek
  by_cases hsome : s.ring.tail ≠ s.ring.head
  · rw [if_pos hsome]
    have hwithin : s.ring.Within := hplaced.indices.resolve_right fun hnone =>
      hsome (hnone.2.2.trans hnone.2.1.symm)
    have hpopped := hwithin.pop
    refine ⟨⟨.inl hpopped, hplaced.bound⟩, ?_, hoffered, hcounted⟩
    show s.popped ++ [s.ring.slots s.ring.tail] ++ s.ring.pop.contents = s.committed.map some
    rw [List.append_assoc, List.singleton_append, ← hwithin.contents_pop hsome, horder]
  · rw [if_neg hsome]
    exact ⟨hplaced, horder, hoffered, hcounted⟩

theorem step_inv {s : Queue α} (h : Inv s) (op : QueueOp α) :
    Inv (s.step pendingSize QueueOp.empties op) := by
  cases op with
  | reserve points alloc =>
    obtain ⟨hplaced, hempty, hdropped⟩ := PushRing.reserve_emptied s.ring points alloc
    exact inv_emptied hplaced hempty hdropped
  | offer v alloc => exact offer_inv h v alloc
  | take => exact @take_inv α pendingSize s h
  | clear =>
    exact inv_emptied (PushRing.placed_start rfl rfl h.placed.bound)
      (RingBuffer.length_of_start rfl rfl) rfl
  | free =>
    exact inv_emptied (PushRing.placed_start rfl rfl (.inl rfl))
      (RingBuffer.length_of_start rfl rfl) rfl

theorem run_inv (pendingSize : Nat) (ops : List (QueueOp α)) :
    Inv (run pendingSize QueueOp.empties ops) :=
  List.foldlRecOn ops _ inv_start fun _ hs op _ => step_inv hs op

/-- **Every run keeps the queue**: what was popped and what is queued is what was committed since
the ring was emptied, and the rest of what was offered is counted. No slot is refused but at the
bound or without memory, and a resize that fails leaves the buffer and the indices. -/
theorem queue_kept (pendingSize : Nat) (ops : List (QueueOp α)) :
    Kept (run pendingSize QueueOp.empties ops) ∧
    (∀ alloc, ((run pendingSize QueueOp.empties ops).ring.slot pendingSize alloc).1 = false →
      Refused pendingSize (run pendingSize QueueOp.empties ops).ring alloc) ∧
    ∀ points,
      ((run pendingSize QueueOp.empties ops).ring.reserve pendingSize points false).slots =
          (run pendingSize QueueOp.empties ops).ring.slots ∧
        ((run pendingSize QueueOp.empties ops).ring.reserve pendingSize points false).cap =
          (run pendingSize QueueOp.empties ops).ring.cap := by
  have hinv := run_inv pendingSize ops
  refine ⟨hinv.kept, fun alloc hnone => ?_, PushRing.reserve_failed _⟩
  obtain ⟨r', hslot, -⟩ | ⟨r', hslot, hsame, hdropped, hwhy⟩ :=
    @PushRing.slot_cases α pendingSize _ hinv.placed alloc
  · rw [hslot] at hnone
    cases hnone
  · refine ⟨?_, ?_, hwhy⟩
    · rw [hslot, hsame]
    · rw [hslot, hdropped]

/-- Without memory the ring of one point stays as it was reserved, with room for 255 values: it is
filled, three of them are taken, and of four more the last is dropped. -/
def wrapping : List (QueueOp Nat) :=
  [.reserve 1 true] ++ (List.range 255).map (QueueOp.offer · false) ++
    [.take, .take, .take, .offer 255 false, .offer 256 false, .offer 257 false, .offer 258 false]

/-- A ring that wraps and drops. -/
theorem queue_kept_wrapping :
    Kept (run 64 QueueOp.empties wrapping) ∧
      Refused 64 (run 64 QueueOp.empties wrapping).ring false ∧
      (run 64 QueueOp.empties wrapping).ring.head < (run 64 QueueOp.empties wrapping).ring.tail ∧
      (run 64 QueueOp.empties wrapping).ring.dropped = 1 := by
  obtain ⟨hkept, hrefused, -⟩ := queue_kept 64 wrapping
  exact ⟨hkept, hrefused false (by decide +kernel), by decide +kernel, by decide +kernel⟩

/-- A ring that is freed with a value in it: told of since the reserve, the value was committed
before the one that was popped. -/
theorem free_between :
    ¬((run 64 QueueOp.restarts
          [.reserve 1 true, .offer 1 true, .free, .offer 2 true, .take]).popped <+:
        (run 64 QueueOp.restarts
          [.reserve 1 true, .offer 1 true, .free, .offer 2 true, .take]).committed.map some) := by
  decide

end Queue

end TedgeDot.Opcua
