import TedgeDot.Lib.Bytes
import Mathlib.Tactic.Linarith

/-!
# Minimal bytes of integers

The fewest big-endian bytes that write an integer in two's complement.

- `signed_trim`: a first byte that only repeats the sign can be left out.
- `shortest_trim`: where none is left, no other bytes that write the integer are as few.
-/

namespace TedgeDot.MinimalBytes

/-! ## Bytes from the front -/

theorem fromBeBytes_cons (b : UInt8) (rest : List UInt8) :
    fromBeBytes (b :: rest) = b.toNat * 256 ^ rest.length + fromBeBytes rest := by
  induction rest using List.reverseRecOn with
  | nil => simp [fromBeBytes]
  | append_singleton rest c ih =>
    rw [← List.cons_append, fromBeBytes_concat, fromBeBytes_concat, ih, List.length_append,
      List.length_singleton, Nat.pow_succ]
    ring

theorem toBeBytes_succ (count n : Nat) :
    toBeBytes (count + 1) n = UInt8.ofNat (n / 256 ^ count) :: toBeBytes count n := by
  induction count generalizing n with
  | zero => simp [toBeBytes]
  | succ count ih =>
    have hdiv : n / 256 / 256 ^ count = n / 256 ^ (count + 1) := by
      rw [Nat.div_div_eq_div_mul, Nat.pow_succ, Nat.mul_comm]
    rw [toBeBytes, ih, hdiv]
    rfl

/-! ## Two's complement -/

def topBit (b : UInt8) : Bool := b &&& 0x80 != 0

theorem topBit_iff {b : UInt8} : topBit b = true ↔ 128 ≤ b.toNat := by
  have h : ∀ v : BitVec 8, topBit ⟨v⟩ = true ↔ 128 ≤ v.toNat := by decide +kernel
  exact h b.toBitVec

/-- The integer that bytes write in two's complement. -/
def signed (bytes : List UInt8) : Int :=
  if topBit (bytes.headD 0) then fromBeBytes bytes - 256 ^ bytes.length else fromBeBytes bytes

/-- The first of two bytes only repeats the sign of the second. -/
def redundant (a b : UInt8) : Bool := (a == 0x00 && !topBit b) || (a == 0xFF && topBit b)

/-- Bytes without the first ones that only repeat the sign. -/
def trim : List UInt8 → List UInt8
  | a :: b :: rest => if redundant a b then trim (b :: rest) else a :: b :: rest
  | bytes => bytes

/-- A redundant byte does not change the number. -/
theorem signed_of_redundant {a b : UInt8} (rest : List UInt8) (h : redundant a b = true) :
    signed (a :: b :: rest) = signed (b :: rest) := by
  have hcons := fromBeBytes_cons a (b :: rest)
  rcases (Bool.or_eq_true _ _).mp h with h | h <;> obtain ⟨ha, hb⟩ := (Bool.and_eq_true _ _).mp h
  · -- a zero before a byte without the top bit
    obtain rfl := beq_iff_eq.mp ha
    have hclear : topBit b = false := by simpa using hb
    have hzero : topBit 0x00 = false := by decide
    unfold signed
    rw [List.headD_cons, List.headD_cons, hclear, hzero, hcons]
    simp
  · obtain rfl := beq_iff_eq.mp ha
    have hones : topBit 0xFF = true := by decide
    have hnat : (0xFF : UInt8).toNat = 255 := rfl
    unfold signed
    rw [List.headD_cons, List.headD_cons, hb, hones, hcons, hnat, List.length_cons (a := 0xFF),
      pow_succ]
    simp only [if_true]
    push_cast
    ring

theorem signed_trim (bytes : List UInt8) : signed (trim bytes) = signed bytes := by
  induction bytes with
  | nil => rfl
  | cons a bytes ih =>
    cases bytes with
    | nil => rfl
    | cons b rest =>
      rw [trim]
      split
      · rename_i h
        rw [ih, signed_of_redundant rest h]
      · rfl

theorem length_trim_pos {bytes : List UInt8} (h : 0 < bytes.length) : 0 < (trim bytes).length := by
  induction bytes with
  | nil => exact h
  | cons a bytes ih =>
    cases bytes with
    | nil => exact h
    | cons b rest =>
      rw [trim]
      split
      · exact ih (Nat.succ_pos _)
      · exact Nat.succ_pos _

/-! ## Fewest -/

/-- The only one of its length that has the property, and none that has it is shorter. -/
def Shortest {α : Type*} (P : List α → Prop) (c : List α) : Prop :=
  P c ∧ ∀ c', P c' → c.length ≤ c'.length ∧ (c'.length = c.length → c' = c)

/-- The numbers of a length. -/
theorem signed_bounds (a : UInt8) (rest : List UInt8) :
    -(128 * (256 ^ rest.length : Nat) : Int) ≤ signed (a :: rest) ∧
      signed (a :: rest) < 128 * (256 ^ rest.length : Nat) := by
  have hcons := fromBeBytes_cons a rest
  have hrest := fromBeBytes_lt rest
  have hlength : (256 : Int) ^ (a :: rest).length = 256 * (256 ^ rest.length : Nat) := by
    rw [List.length_cons, pow_succ]
    push_cast
    ring
  unfold signed
  rw [List.headD_cons, hlength, hcons]
  generalize 256 ^ rest.length = p at hrest ⊢
  have ha := a.toNat_lt
  by_cases htop : topBit a = true
  · rw [if_pos htop]
    have hlow : 128 * p ≤ a.toNat * p := Nat.mul_le_mul_right p (topBit_iff.mp htop)
    have hhigh : a.toNat * p ≤ 255 * p := Nat.mul_le_mul_right p (by omega)
    omega
  · rw [if_neg htop]
    have hhigh : a.toNat * p ≤ 127 * p :=
      Nat.mul_le_mul_right p (by have := mt topBit_iff.mpr htop; omega)
    omega

/-- No first byte only repeats the sign. -/
def Irredundant : List UInt8 → Prop
  | a :: b :: _ => redundant a b = false
  | _ => True

theorem irredundant_trim (bytes : List UInt8) : Irredundant (trim bytes) := by
  induction bytes with
  | nil => trivial
  | cons a bytes ih =>
    cases bytes with
    | nil => trivial
    | cons b rest =>
      rw [trim]
      split
      · exact ih
      · rename_i h
        exact Bool.eq_false_iff.mpr h

/-- Without a redundant byte the number needs all of them. -/
theorem irredundant_bounds {a b : UInt8} {rest : List UInt8} (h : Irredundant (a :: b :: rest)) :
    128 * (256 ^ rest.length : Nat) ≤ signed (a :: b :: rest) ∨
      signed (a :: b :: rest) < -(128 * (256 ^ rest.length : Nat) : Int) := by
  have hcons := fromBeBytes_cons a (b :: rest)
  have hcons' := fromBeBytes_cons b rest
  have hrest := fromBeBytes_lt rest
  have hlength : (256 : Int) ^ (a :: b :: rest).length = 65536 * (256 ^ rest.length : Nat) := by
    rw [List.length_cons, List.length_cons, pow_succ, pow_succ]
    push_cast
    ring
  have hpow : 256 ^ (b :: rest).length = 256 * 256 ^ rest.length := by
    rw [List.length_cons, pow_succ]
    ring
  unfold signed
  rw [List.headD_cons, hlength, hcons, hcons', hpow]
  generalize 256 ^ rest.length = p at hrest ⊢
  have ha := a.toNat_lt
  have hb := b.toNat_lt
  -- linear in the rest, so that `omega` can finish
  have hmul : a.toNat * (256 * p) = 256 * (a.toNat * p) := by ring
  rw [hmul]
  have hbhigh : b.toNat * p ≤ 255 * p := Nat.mul_le_mul_right p (by omega)
  by_cases htop : topBit a = true
  · rw [if_pos htop]
    right
    have hfull : a.toNat = 255 → b.toNat ≤ 127 := by
      intro hones
      have hff : a = 0xFF := UInt8.toNat_inj.mp hones
      have hclear : topBit b ≠ true := by
        intro hset
        simp [Irredundant, redundant, hff, hset] at h
      have := mt topBit_iff.mpr hclear
      omega
    by_cases hones : a.toNat = 255
    · have hsmall : b.toNat * p ≤ 127 * p := Nat.mul_le_mul_right p (hfull hones)
      rw [hones]
      omega
    · have hsmall : a.toNat * p ≤ 254 * p := Nat.mul_le_mul_right p (by omega)
      omega
  · rw [if_neg htop]
    left
    by_cases hzero : a.toNat = 0
    · have hz : a = 0x00 := UInt8.toNat_inj.mp hzero
      have hset : topBit b = true := by
        by_contra hclear
        simp [Irredundant, redundant, hz, hclear] at h
      have hlarge : 128 * p ≤ b.toNat * p := Nat.mul_le_mul_right p (topBit_iff.mp hset)
      omega
    · have hlarge : 1 * p ≤ a.toNat * p := Nat.mul_le_mul_right p (by omega)
      omega

theorem eq_of_signed_eq {c c' : List UInt8} (hlen : c.length = c'.length)
    (h : signed c = signed c') : c = c' := by
  have hmod : ∀ d : List UInt8, (fromBeBytes d : Int) = signed d % (256 ^ d.length : Nat) := by
    intro d
    have hlt := fromBeBytes_lt d
    have hpos : (0 : Int) ≤ fromBeBytes d := Int.natCast_nonneg _
    have hlt' : (fromBeBytes d : Int) < (256 ^ d.length : Nat) := by exact_mod_cast hlt
    unfold signed
    split
    · have hpow : (256 : Int) ^ d.length = (256 ^ d.length : Nat) := by push_cast; rfl
      rw [hpow, Int.sub_emod_right, Int.emod_eq_of_lt hpos hlt']
    · rw [Int.emod_eq_of_lt hpos hlt']
  have hvalue : fromBeBytes c = fromBeBytes c' := by
    have hint : (fromBeBytes c : Int) = fromBeBytes c' := by rw [hmod, hmod c', h, hlen]
    exact_mod_cast hint
  rw [← toBeBytes_fromBeBytes c, ← toBeBytes_fromBeBytes c', hvalue, hlen]

/-- Irredundant bytes are the fewest that write their integer. -/
theorem shortest_of_irredundant {c : List UInt8} (hne : c ≠ []) (h : Irredundant c) :
    Shortest (fun c' => c' ≠ [] ∧ signed c' = signed c) c := by
  refine ⟨⟨hne, rfl⟩, fun c' hc' => ⟨?_, fun hlen => eq_of_signed_eq hlen hc'.2⟩⟩
  obtain ⟨x, rest', rfl⟩ := List.exists_cons_of_ne_nil hc'.1
  match c, h with
  | [], _ => exact absurd rfl hne
  | [_], _ => simp
  | a :: b :: rest, h =>
    by_contra hshort
    simp only [List.length_cons, not_le] at hshort
    -- what the fewer bytes can write is too near zero
    obtain ⟨hlow, hhigh⟩ := signed_bounds x rest'
    have hpow : (256 ^ rest'.length : Nat) ≤ 256 ^ rest.length :=
      Nat.pow_le_pow_right (by omega) (by omega)
    rw [hc'.2] at hlow hhigh
    rcases irredundant_bounds h with hfar | hfar <;> omega

theorem trim_ne_nil {bytes : List UInt8} (h : bytes ≠ []) : trim bytes ≠ [] := by
  intro hnil
  have hpos := length_trim_pos (List.length_pos_iff.mpr h)
  rw [hnil] at hpos
  exact absurd hpos (lt_irrefl _)

theorem shortest_trim {bytes : List UInt8} (h : bytes ≠ []) :
    Shortest (fun c => c ≠ [] ∧ signed c = signed bytes) (trim bytes) := by
  rw [← signed_trim bytes]
  exact shortest_of_irredundant (trim_ne_nil h) (irredundant_trim bytes)

theorem Shortest.unique {α : Type*} {P : List α → Prop} {c c' : List α} (h : Shortest P c)
    (h' : Shortest P c') : c = c' := by
  have hle := (h.2 c' h'.1).1
  have hle' := (h'.2 c h.1).1
  exact (h'.2 c h.1).2 (hle.antisymm hle')

/-! ## Numbers without a sign -/

def leadingZeros (bytes : List UInt8) : Nat := (bytes.takeWhile (· == 0)).length

/-- The zeros in front are left out, the last byte apart, and a zero that makes the number positive
is put back. -/
def trimUnsigned (bytes : List UInt8) : List UInt8 :=
  let rest := bytes.drop (min (leadingZeros bytes) (bytes.length - 1))
  if topBit (rest.headD 0) then 0 :: rest else rest

/-- An unsigned number is a signed one after a zero byte. -/
theorem trimUnsigned_eq {bytes : List UInt8} (h : bytes ≠ []) :
    trimUnsigned bytes = trim (0 :: bytes) := by
  have hzero : topBit 0 = false := by decide
  -- the signed trim drops a zero only before a byte without the top bit
  induction bytes with
  | nil => exact absurd rfl h
  | cons a bytes ih =>
    cases bytes with
    | nil =>
      by_cases htop : topBit a = true
      · simp [trimUnsigned, trim, redundant, htop]
      · simp [trimUnsigned, trim, redundant, htop]
    | cons b rest =>
      by_cases ha : a = 0
      · have hdrop : trimUnsigned (a :: b :: rest) = trimUnsigned (b :: rest) := by
          have hskip : min (leadingZeros (a :: b :: rest)) (rest.length + 1) =
              min (leadingZeros (b :: rest)) rest.length + 1 := by
            simp only [leadingZeros, ha, List.takeWhile_cons, beq_self_eq_true, if_true,
              List.length_cons]
            omega
          simp only [trimUnsigned, List.length_cons, Nat.add_sub_cancel, hskip,
            List.drop_succ_cons]
        have hstep : trim (0 :: 0 :: b :: rest) = trim (0 :: b :: rest) :=
          if_pos (by simp [redundant, hzero])
        rw [hdrop, ih (by simp), ha, hstep]
      · have hskip : leadingZeros (a :: b :: rest) = 0 := by simp [leadingZeros, ha]
        have hstay : redundant a b = true → topBit a = true := by
          intro hred
          rcases (Bool.or_eq_true _ _).mp hred with hred | hred
          · exact absurd (beq_iff_eq.mp ((Bool.and_eq_true _ _).mp hred).1) ha
          · rw [beq_iff_eq.mp ((Bool.and_eq_true _ _).mp hred).1]
            decide
        by_cases htop : topBit a = true
        · simp [trimUnsigned, hskip, trim, redundant, htop]
        · have hkeep : redundant a b = false := Bool.eq_false_iff.mpr fun h => htop (hstay h)
          simp [trimUnsigned, hskip, trim, hkeep, htop, show redundant 0 a = true by
            simp [redundant, htop]]

theorem signed_zero_cons (bytes : List UInt8) : signed (0 :: bytes) = fromBeBytes bytes := by
  have hzero : topBit 0 = false := by decide
  unfold signed
  rw [List.headD_cons, hzero, fromBeBytes_cons]
  simp

theorem signed_toBeBytes {count n : Nat} (h : n < 256 ^ (count + 1)) :
    signed (toBeBytes (count + 1) n) =
      if 128 * 256 ^ count ≤ n then (n : Int) - 256 ^ (count + 1) else n := by
  have hhead : (toBeBytes (count + 1) n).headD 0 = UInt8.ofNat (n / 256 ^ count) := by
    rw [toBeBytes_succ]
    rfl
  have hpos : 0 < 256 ^ count := Nat.pow_pos (by omega)
  have hsmall : n / 256 ^ count < 256 := by
    apply (Nat.div_lt_iff_lt_mul hpos).mpr
    rwa [Nat.mul_comm, ← Nat.pow_succ]
  have htop : topBit (UInt8.ofNat (n / 256 ^ count)) = true ↔ 128 * 256 ^ count ≤ n := by
    rw [topBit_iff, UInt8.toNat_ofNat', Nat.mod_eq_of_lt hsmall]
    exact Nat.le_div_iff_mul_le hpos
  unfold signed
  rw [hhead, fromBeBytes_toBeBytes, Nat.mod_eq_of_lt h, length_toBeBytes]
  simp only [htop]

end TedgeDot.MinimalBytes
