import Mathlib.Data.List.Basic

/-!
# Numbered items

A list whose items carry numbers stands for a family of lists: `numbered n` is the list of number
`n`. Interleaved streams are told apart this way, and the order within each stream is kept.
-/

namespace TedgeDot.Numbered

universe u

variable {α : Type u}

/-- The items with the number `n`, in order. -/
def numbered (n : ℕ) (l : List (ℕ × α)) : List α := (l.filter fun x => x.1 = n).map Prod.snd

@[simp] theorem numbered_nil (n : ℕ) : numbered n ([] : List (ℕ × α)) = [] := rfl

@[simp] theorem numbered_append (n : ℕ) (l l' : List (ℕ × α)) :
    numbered n (l ++ l') = numbered n l ++ numbered n l' := by
  simp [numbered]

@[simp] theorem numbered_singleton (n m : ℕ) (a : α) :
    numbered n [(m, a)] = if m = n then [a] else [] := by
  by_cases h : m = n <;> simp [numbered, h]

@[simp] theorem numbered_cons (n : ℕ) (x : ℕ × α) (l : List (ℕ × α)) :
    numbered n (x :: l) = (if x.1 = n then [x.2] else []) ++ numbered n l := by
  by_cases h : x.1 = n <;> simp [numbered, h]

theorem numbered_map_mk (n m : ℕ) (l : List α) :
    numbered n (l.map fun a => (m, a)) = if m = n then l else [] := by
  by_cases h : m = n <;> simp [numbered, List.filter_map, Function.comp_def, h]

/-- A list numbered from `c` on. -/
def numberFrom : ℕ → List α → List (ℕ × α)
  | _, [] => []
  | c, a :: l => (c, a) :: numberFrom (c + 1) l

@[simp] theorem map_snd_numberFrom (c : ℕ) (l : List α) : (numberFrom c l).map Prod.snd = l := by
  induction l generalizing c with
  | nil => rfl
  | cons a l ih => simp [numberFrom, ih]

theorem numbered_numberFrom_lt {n c : ℕ} (h : n < c) (l : List α) :
    numbered n (numberFrom c l) = [] := by
  induction l generalizing c with
  | nil => rfl
  | cons a l ih => simp [numberFrom, ih (Nat.lt_succ_of_lt h), Nat.ne_of_gt h]

theorem numbered_numberFrom_add (c j : ℕ) (l : List α) :
    numbered (c + j) (numberFrom c l) = l[j]?.toList := by
  induction l generalizing c j with
  | nil => rfl
  | cons a l ih =>
    cases j with
    | zero => simp [numberFrom, numbered_numberFrom_lt (Nat.lt_succ_self c)]
    | succ j =>
      have hne : c ≠ c + (j + 1) := by omega
      rw [numberFrom, numbered_cons, if_neg hne, List.nil_append,
        show c + (j + 1) = c + 1 + j by omega, ih, List.getElem?_cons_succ]

end TedgeDot.Numbered
