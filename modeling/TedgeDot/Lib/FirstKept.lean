import Mathlib.Data.List.Basic

/-!
# Lists without repeats of what a test takes for equal

`firstKept same xs` goes through a list and keeps what no element that is kept already is the same
as. The test is any Boolean relation.

- `exists_firstKept`: where the test is transitive, the same values are the same as an element
  before and after.
- `pairwise_firstKept`: no element that is kept is the same as a later one.
-/

namespace TedgeDot

universe u

variable {α : Type u} (same : α → α → Bool)

/-- The list, with an element if none that is kept is the same as it. -/
def keepNew (out : List α) (x : α) : List α := if out.any (same · x) then out else out ++ [x]

/-- The elements that no earlier element is the same as. -/
def firstKept (xs : List α) : List α := xs.foldl (keepNew same) []

variable {same}

theorem mem_keepNew_of_mem {out : List α} {x y : α} (h : y ∈ out) : y ∈ keepNew same out x := by
  unfold keepNew
  split
  · exact h
  · simp [h]

theorem mem_of_mem_keepNew {out : List α} {x y : α} (h : y ∈ keepNew same out x) :
    y ∈ out ∨ y = x := by
  unfold keepNew at h
  split at h
  · exact .inl h
  · simpa using h

theorem kept_keepNew (out : List α) (x : α) :
    x ∈ keepNew same out x ∨ ∃ o ∈ keepNew same out x, same o x = true := by
  unfold keepNew
  split
  · rename_i hany
    exact .inr (by simpa using hany)
  · simp

theorem pairwise_keepNew {out : List α} (h : out.Pairwise fun a b => same a b = false) (x : α) :
    (keepNew same out x).Pairwise fun a b => same a b = false := by
  unfold keepNew
  split
  · exact h
  · rename_i hnone
    apply List.pairwise_append.mpr
    refine ⟨h, by simp, ?_⟩
    intro a ha b hb
    simp only [List.mem_singleton] at hb
    rw [hb]
    simp only [List.any_eq_true, not_exists, not_and, Bool.not_eq_true] at hnone
    exact hnone a ha

theorem mem_foldl_of_mem {out xs : List α} {y : α} (h : y ∈ out) :
    y ∈ xs.foldl (keepNew same) out := by
  induction xs generalizing out with
  | nil => exact h
  | cons x xs ih => exact ih (mem_keepNew_of_mem h)

theorem mem_of_mem_foldl {out xs : List α} {y : α} (h : y ∈ xs.foldl (keepNew same) out) :
    y ∈ out ∨ y ∈ xs := by
  induction xs generalizing out with
  | nil => exact .inl h
  | cons x xs ih =>
    rcases ih h with hmem | hmem
    · rcases mem_of_mem_keepNew hmem with hout | rfl
      · exact .inl hout
      · simp
    · simp [hmem]

/-- Every element of the list is kept, or one that is the same. -/
theorem kept_foldl (out : List α) {xs : List α} {x : α} (h : x ∈ xs) :
    x ∈ xs.foldl (keepNew same) out ∨ ∃ o ∈ xs.foldl (keepNew same) out, same o x = true := by
  induction xs generalizing out with
  | nil => simp at h
  | cons head xs ih =>
    rw [List.foldl_cons]
    rcases List.mem_cons.mp h with rfl | hmem
    · rcases kept_keepNew out x with hkept | ⟨o, ho, hsame⟩
      · exact .inl (mem_foldl_of_mem hkept)
      · exact .inr ⟨o, mem_foldl_of_mem ho, hsame⟩
    · exact ih (keepNew same out head) hmem

theorem pairwise_foldl {out : List α} (h : out.Pairwise fun a b => same a b = false)
    (xs : List α) : (xs.foldl (keepNew same) out).Pairwise fun a b => same a b = false := by
  induction xs generalizing out with
  | nil => exact h
  | cons x xs ih => exact ih (pairwise_keepNew h x)

theorem pairwise_firstKept (xs : List α) :
    (firstKept same xs).Pairwise fun a b => same a b = false :=
  pairwise_foldl List.Pairwise.nil xs

theorem mem_of_mem_firstKept {xs : List α} {x : α} (h : x ∈ firstKept same xs) : x ∈ xs := by
  rcases mem_of_mem_foldl h with hnil | hmem
  · simp at hnil
  · exact hmem

/-- A value is the same as a kept element exactly when it is the same as an element. -/
theorem exists_firstKept (trans : ∀ a b c, same a b = true → same b c = true → same a c = true)
    (xs : List α) (v : α) :
    (∃ o ∈ firstKept same xs, same o v = true) ↔ ∃ x ∈ xs, same x v = true := by
  constructor
  · rintro ⟨o, ho, hsame⟩
    exact ⟨o, mem_of_mem_firstKept ho, hsame⟩
  · rintro ⟨x, hx, hsame⟩
    rcases kept_foldl [] hx with hkept | ⟨o, ho, hox⟩
    · exact ⟨x, hkept, hsame⟩
    · exact ⟨o, ho, trans o x v hox hsame⟩

end TedgeDot
