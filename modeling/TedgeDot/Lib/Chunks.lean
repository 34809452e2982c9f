import Mathlib.Data.List.Basic

/-!
# Lists cut into chunks

`List.toChunks n` cuts a list into pieces of `n`, the last of them shorter: nothing is lost, and no
piece is empty.
-/

namespace TedgeDot.Chunks

universe u

variable {α : Type u} {n : Nat}

theorem go_flatten (xs : List α) (part : Array α) (parts : Array (List α)) :
    (List.toChunks.go n xs part parts).flatten = parts.toList.flatten ++ part.toList ++ xs := by
  induction xs generalizing part parts with
  | nil => simp [List.toChunks.go]
  | cons y ys ih =>
    unfold List.toChunks.go
    split <;> simp [ih]

theorem go_ne_nil (xs : List α) (part : Array α) (parts : Array (List α))
    (hpart : part.toList ≠ []) (hparts : ∀ l ∈ parts.toList, l ≠ []) :
    ∀ l ∈ List.toChunks.go n xs part parts, l ≠ [] := by
  induction xs generalizing part parts with
  | nil =>
    intro l hl
    simp only [List.toChunks.go, Array.toList_push, List.mem_append, List.mem_singleton] at hl
    obtain hl | rfl := hl
    · exact hparts l hl
    · exact hpart
  | cons y ys ih =>
    unfold List.toChunks.go
    split
    · refine ih _ _ (by simp) fun l hl => ?_
      rw [Array.toList_push, List.mem_append, List.mem_singleton] at hl
      obtain hl | rfl := hl
      · exact hparts l hl
      · exact hpart
    · exact ih _ _ (by simp) hparts

theorem flatten_toChunks (xs : List α) : (xs.toChunks n).flatten = xs := by
  cases xs with
  | nil => cases n <;> rfl
  | cons x xs =>
    cases n with
    | zero => simp [List.toChunks]
    | succ n =>
      have hgo : (x :: xs).toChunks (n + 1) = List.toChunks.go (n + 1) xs #[x] #[] := rfl
      rw [hgo, go_flatten]
      rfl

theorem ne_nil_of_mem_toChunks {xs l : List α} (h : l ∈ xs.toChunks n) : l ≠ [] := by
  cases xs with
  | nil => cases n <;> cases h
  | cons x xs =>
    cases n with
    | zero =>
      rw [List.toChunks, List.mem_singleton] at h
      · rw [h]
        exact List.cons_ne_nil x xs
      · exact List.cons_ne_nil x xs
    | succ n =>
      unfold List.toChunks at h
      exact go_ne_nil xs #[x] #[] (List.cons_ne_nil x []) (fun l hl => by cases hl) l h

end TedgeDot.Chunks
