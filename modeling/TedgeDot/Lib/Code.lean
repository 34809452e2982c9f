import Mathlib.Logic.Function.Basic
import Mathlib.Data.List.Flatten

/-!
# Codes read back word by word

A code gives each letter a word. If a word can be read off the front of any text it starts, a
text is the code of one message only (`flatMap_injective`).
-/

namespace TedgeDot.Code

universe u v

variable {α : Type u} {β : Type v} {word : α → List β} {read : List β → Option (α × List β)}

/-- **Reading back**: a code whose words are not empty and can be read off the front is
injective on messages. -/
theorem flatMap_injective (hread : ∀ a rest, read (word a ++ rest) = some (a, rest))
    (hne : ∀ a, word a ≠ []) : Function.Injective (List.flatMap word) := by
  intro xs ys h
  induction xs generalizing ys with
  | nil =>
    cases ys with
    | nil => rfl
    | cons y ys => simp [hne y] at h
  | cons x xs ih =>
    cases ys with
    | nil => simp [hne x] at h
    | cons y ys =>
      simp only [List.flatMap_cons] at h
      have hxy := (hread x _).symm.trans ((congrArg read h).trans (hread y _))
      simp only [Option.some.injEq, Prod.mk.injEq] at hxy
      rw [hxy.1, ih hxy.2]

end TedgeDot.Code
