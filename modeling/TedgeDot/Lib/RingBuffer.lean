import Mathlib.Data.List.Range
import Mathlib.Logic.Function.Basic

/-!
# Ring buffers

A queue in an array of `cap` slots, between a `tail` that is read and a `head` that is written. One
slot stays free, so that an empty ring and a full one differ. A ring without a buffer has `cap = 0`.

`contents` is the queue that a ring stands for, and the laws say what each operation does to it:

- `contents_push`: a push to a ring that is not full appends.
- `contents_pop`: a pop takes the first value.
- `contents_regrown`: moving the values into another array that has room for them changes nothing.
- `isFull_iff`: a ring is full exactly where it holds one value less than it has slots.
-/

namespace TedgeDot

universe u

/-- The slots, and the indices into them. -/
structure RingBuffer (α : Type u) where
  slots : Nat → α
  cap : Nat
  head : Nat
  tail : Nat

namespace RingBuffer

variable {α : Type u}

/-! ## Operations -/

def length (b : RingBuffer α) : Nat :=
  if b.cap = 0 then 0 else (b.head + b.cap - b.tail) % b.cap

/-- The queued values, the oldest first. -/
def contents (b : RingBuffer α) : List α :=
  (List.range b.length).map fun i => b.slots ((b.tail + i) % b.cap)

def IsFull (b : RingBuffer α) : Prop := (b.head + 1) % b.cap = b.tail

instance (b : RingBuffer α) : Decidable b.IsFull :=
  inferInstanceAs (Decidable ((b.head + 1) % b.cap = b.tail))

def push (b : RingBuffer α) (v : α) : RingBuffer α :=
  { b with slots := Function.update b.slots b.head v, head := (b.head + 1) % b.cap }

def pop (b : RingBuffer α) : RingBuffer α := { b with tail := (b.tail + 1) % b.cap }

def drained (b : RingBuffer α) : RingBuffer α := { b with tail := b.head }

/-- The queued values, moved into an array of `cap` slots. -/
def regrown (fresh : Nat → α) (b : RingBuffer α) (cap : Nat) : RingBuffer α where
  slots i := if i < b.length then b.slots ((b.tail + i) % b.cap) else fresh i
  cap := cap
  head := b.length
  tail := 0

/-- The indices are within the slots. -/
structure Within (b : RingBuffer α) : Prop where
  head : b.head < b.cap
  tail : b.tail < b.cap

/-- A size doubled while it is too small, in so many rounds at most. -/
def doubled (small : Nat → Bool) : Nat → Nat → Nat
  | 0, size => size
  | rounds + 1, size => if small size then doubled small rounds (2 * size) else size

/-! ## Sizes -/

theorem le_doubled (small : Nat → Bool) (rounds size : Nat) : size ≤ doubled small rounds size := by
  induction rounds generalizing size with
  | zero => exact le_rfl
  | succ rounds ih =>
    unfold doubled
    split
    · exact le_trans (Nat.le_mul_of_pos_left size Nat.two_pos) (ih (2 * size))
    · exact le_rfl

theorem doubled_large {small : Nat → Bool} {limit : Nat} (hlimit : ∀ n, limit ≤ n → small n = false)
    (rounds : Nat) {size : Nat} (hsize : 0 < size) (hrounds : limit ≤ size + rounds) :
    small (doubled small rounds size) = false := by
  induction rounds generalizing size with
  | zero => exact hlimit size hrounds
  | succ rounds ih =>
    unfold doubled
    cases hsmall : small size with
    | true => exact ih (Nat.mul_pos Nat.two_pos hsize) (by omega)
    | false => exact hsmall

/-! ## Indices -/

theorem mod_of_lt_two_mul {i n : Nat} (h : i < 2 * n) : i % n = if i < n then i else i - n := by
  by_cases hlt : i < n
  · rw [if_pos hlt, Nat.mod_eq_of_lt hlt]
  · have hle : n ≤ i := Nat.le_of_not_lt hlt
    rw [if_neg hlt, Nat.mod_eq_sub_mod hle, Nat.mod_eq_of_lt (by omega)]

variable {b : RingBuffer α}

theorem Within.cap_pos (h : b.Within) : 0 < b.cap := Nat.lt_of_le_of_lt (Nat.zero_le _) h.head

theorem Within.length_eq (h : b.Within) :
    b.length = if b.tail ≤ b.head then b.head - b.tail else b.head + b.cap - b.tail := by
  obtain ⟨hhead, htail⟩ := h
  unfold length
  rw [if_neg (by omega), mod_of_lt_two_mul (by omega)]
  split <;> split <;> omega

theorem Within.length_lt (h : b.Within) : b.length < b.cap := by
  have hlength := h.length_eq
  obtain ⟨hhead, htail⟩ := h
  split at hlength <;> omega

theorem Within.index_eq (h : b.Within) {i : Nat} (hi : i ≤ b.length) :
    (b.tail + i) % b.cap = if b.tail + i < b.cap then b.tail + i else b.tail + i - b.cap := by
  have hlt := h.length_lt
  have htail := h.tail
  exact mod_of_lt_two_mul (by omega)

theorem Within.index_head (h : b.Within) : (b.tail + b.length) % b.cap = b.head := by
  have hlength := h.length_eq
  rw [h.index_eq le_rfl]
  obtain ⟨hhead, htail⟩ := h
  split at hlength <;> split <;> omega

theorem Within.index_ne_head (h : b.Within) {i : Nat} (hi : i < b.length) :
    (b.tail + i) % b.cap ≠ b.head := by
  have hlength := h.length_eq
  rw [h.index_eq hi.le]
  obtain ⟨hhead, htail⟩ := h
  split at hlength <;> split <;> omega

theorem Within.next_eq {i : Nat} (hi : i < b.cap) :
    (i + 1) % b.cap = if i + 1 < b.cap then i + 1 else 0 := by
  rw [mod_of_lt_two_mul (by omega)]
  split
  · rfl
  · omega

theorem Within.isFull_iff (h : b.Within) : b.IsFull ↔ b.length + 1 = b.cap := by
  have hlength := h.length_eq
  unfold IsFull
  rw [next_eq h.head]
  obtain ⟨hhead, htail⟩ := h
  split at hlength <;> split <;> omega

theorem Within.length_eq_zero_iff (h : b.Within) : b.length = 0 ↔ b.tail = b.head := by
  have hlength := h.length_eq
  obtain ⟨hhead, htail⟩ := h
  split at hlength <;> omega

/-! ## Laws -/

theorem length_of_start (hhead : b.head = 0) (htail : b.tail = 0) : b.length = 0 := by
  unfold length
  rw [hhead, htail, Nat.zero_add, Nat.sub_zero, Nat.mod_self, ite_self]

theorem Within.push (h : b.Within) (v : α) : (b.push v).Within where
  head := Nat.mod_lt _ h.cap_pos
  tail := h.tail

theorem Within.pop (h : b.Within) : b.pop.Within where
  head := h.head
  tail := Nat.mod_lt _ h.cap_pos

theorem within_regrown (fresh : Nat → α) {cap : Nat} (hcap : b.length < cap) :
    (b.regrown fresh cap).Within where
  head := hcap
  tail := Nat.lt_of_le_of_lt (Nat.zero_le _) hcap

theorem Within.length_push (h : b.Within) (hroom : ¬b.IsFull) (v : α) :
    (b.push v).length = b.length + 1 := by
  have hlength := h.length_eq
  have hfull := mt h.isFull_iff.mpr hroom
  rw [(h.push v).length_eq]
  have hhead : (b.push v).head = _ := next_eq h.head
  rw [hhead]
  have hcap := h.length_lt
  obtain ⟨hhead, htail⟩ := h
  show (if b.tail ≤ _ then _ - b.tail else _ + b.cap - b.tail) = _
  split at hlength <;> split <;> split <;> omega

theorem Within.contents_push (h : b.Within) (hroom : ¬b.IsFull) (v : α) :
    (b.push v).contents = b.contents ++ [v] := by
  unfold contents
  rw [h.length_push hroom v, List.range_succ, List.map_append, List.map_singleton]
  congr 1
  · apply List.map_congr_left
    intro i hi
    exact Function.update_of_ne (h.index_ne_head (List.mem_range.mp hi)) v b.slots
  · show [Function.update b.slots b.head v ((b.tail + b.length) % b.cap)] = [v]
    rw [h.index_head, Function.update_self]

theorem Within.length_pop (h : b.Within) (hsome : b.tail ≠ b.head) :
    b.length = b.pop.length + 1 := by
  have hlength := h.length_eq
  rw [h.pop.length_eq]
  have htail : b.pop.tail = _ := next_eq h.tail
  rw [htail]
  obtain ⟨hhead, htail⟩ := h
  show _ = (if _ ≤ b.head then b.head - _ else b.head + b.cap - _) + 1
  split at hlength <;> split <;> split <;> omega

theorem Within.contents_pop (h : b.Within) (hsome : b.tail ≠ b.head) :
    b.contents = b.slots b.tail :: b.pop.contents := by
  unfold contents
  rw [h.length_pop hsome, List.range_succ_eq_map, List.map_cons, List.map_map, Nat.add_zero,
    Nat.mod_eq_of_lt h.tail]
  congr 1
  apply List.map_congr_left
  intro i _
  show b.slots ((b.tail + (i + 1)) % b.cap) = b.slots (((b.tail + 1) % b.cap + i) % b.cap)
  rw [Nat.mod_add_mod, Nat.add_assoc, Nat.add_comm 1 i]

theorem length_regrown (fresh : Nat → α) {cap : Nat} (hcap : b.length < cap) :
    (b.regrown fresh cap).length = b.length := by
  rw [(within_regrown fresh hcap).length_eq]
  show (if 0 ≤ b.length then b.length - 0 else _) = b.length
  rw [if_pos (Nat.zero_le _), Nat.sub_zero]

theorem contents_regrown (fresh : Nat → α) {cap : Nat} (hcap : b.length < cap) :
    (b.regrown fresh cap).contents = b.contents := by
  unfold contents
  rw [length_regrown fresh hcap]
  apply List.map_congr_left
  intro i hi
  have hlt : i < b.length := List.mem_range.mp hi
  have hindex : (0 + i) % cap = i := by rw [Nat.zero_add, Nat.mod_eq_of_lt (Nat.lt_trans hlt hcap)]
  show (if (0 + i) % cap < b.length then b.slots ((b.tail + (0 + i) % cap) % b.cap) else _) = _
  rw [hindex, if_pos hlt]

theorem contents_of_length {b : RingBuffer α} (h : b.length = 0) : b.contents = [] := by
  unfold contents
  rw [h]
  rfl

theorem Within.contents_eq_nil (h : b.Within) (hempty : b.tail = b.head) : b.contents = [] :=
  contents_of_length (h.length_eq_zero_iff.mpr hempty)

theorem Within.drained (h : b.Within) : b.drained.Within where
  head := h.head
  tail := h.head

theorem Within.contents_drained (h : b.Within) : b.drained.contents = [] :=
  h.drained.contents_eq_nil rfl

end RingBuffer

end TedgeDot
