import Mathlib.Data.List.Basic
import Mathlib.Logic.Function.Basic

/-!
# Retained messages

A memory of one value for each key, and messages on their way to it, first in first out. A message
sets the value of one key, clears it, or leaves the memory alone. What the memory will say once every
message has arrived (`settle`) is what the sender may rely on: handing a message over does not change
it, and so it only changes when a message is added or lost.

- `settle_of_silent`: a key that no message sets keeps its value.
- `settle_of_sets`: what every message for a key says, where there is one, holds of the key.
- `settle_again`: messages that arrive a second time change nothing.
-/

namespace TedgeDot.Retained

universe u v w

variable {κ : Type u} {ν : Type v} {π : Type w} [DecidableEq κ]

def apply (sets : π → Option (κ × Option ν)) (memory : κ → Option ν) (p : π) : κ → Option ν :=
  match sets p with
  | some (k, v) => Function.update memory k v
  | none => memory

/-- The memory after these messages, in order. -/
def settle (sets : π → Option (κ × Option ν)) (memory : κ → Option ν) (ps : List π) :
    κ → Option ν :=
  ps.foldl (apply sets) memory

def Silent (sets : π → Option (κ × Option ν)) (k : κ) (ps : List π) : Prop :=
  ∀ p ∈ ps, ∀ v, sets p ≠ some (k, v)

variable {sets : π → Option (κ × Option ν)} {memory memory' : κ → Option ν} {p : π} {k : κ}

@[simp] theorem settle_nil : settle sets memory [] = memory := rfl

@[simp] theorem settle_cons (ps : List π) :
    settle sets memory (p :: ps) = settle sets (apply sets memory p) ps := rfl

@[simp] theorem settle_append (ps qs : List π) :
    settle sets memory (ps ++ qs) = settle sets (settle sets memory ps) qs := by
  simp [settle]

theorem apply_sets {v : Option ν} (h : sets p = some (k, v)) : apply sets memory p k = v := by
  simp [apply, h]

theorem apply_of_ne (h : ∀ v, sets p ≠ some (k, v)) : apply sets memory p k = memory k := by
  cases hsets : sets p with
  | none => simp [apply, hsets]
  | some set =>
    obtain ⟨j, v⟩ := set
    have hne : k ≠ j := fun heq => h v (heq ▸ hsets)
    simp [apply, hsets, hne]

theorem apply_congr (h : memory k = memory' k) : apply sets memory p k = apply sets memory' p k := by
  by_cases hsets : ∃ v, sets p = some (k, v)
  · obtain ⟨v, hv⟩ := hsets
    rw [apply_sets hv, apply_sets hv]
  · have hne : ∀ v, sets p ≠ some (k, v) := fun v hv => hsets ⟨v, hv⟩
    rw [apply_of_ne hne, apply_of_ne hne, h]

theorem settle_congr {ps : List π} (h : memory k = memory' k) :
    settle sets memory ps k = settle sets memory' ps k := by
  induction ps generalizing memory memory' with
  | nil => exact h
  | cons p ps ih => exact ih (apply_congr h)

omit [DecidableEq κ] in
theorem silent_cons {ps : List π} :
    Silent sets k (p :: ps) ↔ (∀ v, sets p ≠ some (k, v)) ∧ Silent sets k ps := by
  simp [Silent]

theorem settle_of_silent {ps : List π} (h : Silent sets k ps) :
    settle sets memory ps k = memory k := by
  induction ps generalizing memory with
  | nil => rfl
  | cons p ps ih =>
    obtain ⟨hp, hps⟩ := silent_cons.mp h
    rw [settle_cons, ih hps, apply_of_ne hp]

/-- **Last word**: a property of what every message for the key says. -/
theorem settle_of_sets {P : Option ν → Prop} {ps : List π} (hsome : ¬ Silent sets k ps)
    (hall : ∀ p ∈ ps, ∀ v, sets p = some (k, v) → P v) : P (settle sets memory ps k) := by
  induction ps generalizing memory with
  | nil => exact absurd (fun _ h => absurd h List.not_mem_nil) hsome
  | cons p ps ih =>
    have hrest : ∀ q ∈ ps, ∀ v, sets q = some (k, v) → P v :=
      fun q hq => hall q (List.mem_cons_of_mem p hq)
    by_cases hsilent : Silent sets k ps
    · rw [settle_cons, settle_of_silent hsilent]
      by_cases hp : ∃ v, sets p = some (k, v)
      · obtain ⟨v, hv⟩ := hp
        rw [apply_sets hv]
        exact hall p List.mem_cons_self v hv
      · exact absurd (silent_cons.mpr ⟨fun v hv => hp ⟨v, hv⟩, hsilent⟩) hsome
    · exact ih hsilent hrest

/-- The values of a key depend on the messages for it alone. -/
theorem settle_filter {keep : π → Bool} (hkeep : ∀ p v, sets p = some (k, v) → keep p = true)
    (ps : List π) : settle sets memory (ps.filter keep) k = settle sets memory ps k := by
  induction ps generalizing memory with
  | nil => rfl
  | cons p ps ih =>
    cases hp : keep p with
    | true => simp only [List.filter_cons, hp, if_true, settle_cons, ih]
    | false =>
      have hne : ∀ v, sets p ≠ some (k, v) := fun v hv => by simp [hkeep p v hv] at hp
      simp only [List.filter_cons, hp, Bool.false_eq_true, if_false, settle_cons, ih]
      exact settle_congr (apply_of_ne hne).symm

/-- Where there is a message for the key, the memory before them does not count. -/
theorem settle_irrel {ps : List π} (hsome : ¬ Silent sets k ps) (memory memory' : κ → Option ν) :
    settle sets memory ps k = settle sets memory' ps k := by
  induction ps generalizing memory memory' with
  | nil => exact absurd (fun _ h => absurd h List.not_mem_nil) hsome
  | cons p ps ih =>
    simp only [settle_cons]
    by_cases hsilent : Silent sets k ps
    · by_cases hp : ∃ v, sets p = some (k, v)
      · obtain ⟨v, hv⟩ := hp
        apply settle_congr
        rw [apply_sets hv, apply_sets hv]
      · exact absurd (silent_cons.mpr ⟨fun v hv => hp ⟨v, hv⟩, hsilent⟩) hsome
    · exact ih hsilent _ _

/-- Messages that arrive a second time say what they said. -/
theorem settle_again (ps : List π) :
    settle sets (settle sets memory ps) ps k = settle sets memory ps k := by
  by_cases hsilent : Silent sets k ps
  · exact settle_of_silent hsilent
  · exact settle_irrel hsilent _ _

end TedgeDot.Retained
