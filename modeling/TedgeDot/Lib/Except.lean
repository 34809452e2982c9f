import Mathlib.Data.List.Forall2

/-!
# Fallible steps

What a chain of fallible steps that succeeds says of each step.
-/

namespace TedgeDot

theorem bind_ok {ε α β : Type} {x : Except ε α} {f : α → Except ε β} {b : β}
    (h : (x >>= f) = .ok b) : ∃ a, x = .ok a ∧ f a = .ok b := by
  cases x with
  | error e => cases h
  | ok a => exact ⟨a, rfl, h⟩

theorem toOption_eq_some_iff {ε α : Type} {x : Except ε α} {a : α} :
    x.toOption = some a ↔ x = .ok a := by
  cases x <;> simp [Except.toOption]

theorem forM_ok {ε α : Type} {check : α → Except ε PUnit} {items : List α}
    (h : items.forM check = .ok ()) : ∀ x ∈ items, check x = .ok () := by
  induction items with
  | nil => simp
  | cons item items ih =>
    obtain ⟨_, hitem, hitems⟩ := bind_ok h
    exact List.forall_mem_cons.mpr ⟨hitem, ih hitems⟩

theorem forall₂_of_mapM {α β : Type} {f : α → Option β} {items : List α} {values : List β}
    (h : items.mapM f = some values) : List.Forall₂ (fun x y => f x = some y) items values := by
  induction items generalizing values with
  | nil =>
    obtain rfl := Option.some.inj h
    exact .nil
  | cons item items ih =>
    rw [List.mapM_cons] at h
    obtain ⟨value, hvalue, h⟩ := Option.bind_eq_some_iff.mp h
    obtain ⟨rest, hrest, h⟩ := Option.bind_eq_some_iff.mp h
    obtain rfl := Option.some.inj h
    exact .cons hvalue (ih hrest)

theorem any_of_forall₂ {α β : Type} {R : α → β → Prop} {P : α → Prop} {q : β → Bool}
    {items : List α} {values : List β} (h : List.Forall₂ R items values)
    (hiff : ∀ x y, R x y → (q y = true ↔ P x)) : values.any q = true ↔ ∃ x ∈ items, P x := by
  induction h with
  | nil => simp
  | cons hxy _ ih => simp [hiff _ _ hxy, ih]

end TedgeDot
