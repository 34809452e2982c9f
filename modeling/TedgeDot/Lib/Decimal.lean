import Mathlib.Data.Int.Notation

/-!
# Decimal text

The digits of a number, read back, and the text of an integer: an optional minus sign and digits.
-/

namespace TedgeDot.Decimal

/-- The number that digits spell, if they are digits, and there are some. -/
def digits (text : List Char) : Option Nat :=
  if text ≠ [] ∧ text.all Char.isDigit = true then some (Nat.ofDigitChars 10 text 0) else none

theorem digits_toDigits (n : Nat) : digits (Nat.toDigits 10 n) = some n := by
  have hall : (Nat.toDigits 10 n).all Char.isDigit = true :=
    List.all_eq_true.mpr fun c hc => Nat.isDigit_of_mem_toDigits (by decide) (by decide) hc
  rw [digits, if_pos ⟨Nat.toDigits_ne_nil, hall⟩, Nat.ofDigitChars_ten_toDigits]

theorem toDigits_head (n : Nat) : ∃ c rest, Nat.toDigits 10 n = c :: rest ∧ c.isDigit = true := by
  obtain ⟨c, rest, h⟩ := List.exists_cons_of_ne_nil (Nat.toDigits_ne_nil (n := n) (b := 10))
  refine ⟨c, rest, h, Nat.isDigit_of_mem_toDigits (by decide) (by decide) (n := n) (b := 10) ?_⟩
  rw [h]
  exact List.mem_cons_self

theorem toList_toString_of_nonneg {v : Int} (hv : 0 ≤ v) :
    (toString v).toList = Nat.toDigits 10 v.toNat := by
  rw [Int.toString_eq_repr, Int.repr_eq_if, if_pos hv, Nat.toList_repr]

theorem toList_toString_of_neg {v : Int} (hv : v < 0) :
    (toString v).toList = '-' :: Nat.toDigits 10 (-v).toNat := by
  rw [Int.toString_eq_repr, Int.repr_eq_if, if_neg (by omega), String.toList_append,
    Nat.toList_repr]
  rfl

end TedgeDot.Decimal
