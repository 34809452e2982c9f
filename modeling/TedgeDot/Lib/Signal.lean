import Mathlib.Algebra.BigOperators.Intervals
import Mathlib.Algebra.Order.BigOperators.Group.Finset
import Mathlib.Algebra.Order.Field.Basic
import Mathlib.Algebra.Order.Interval.Finset.SuccPred

/-!
# Signals

A signal is the value something has at each instant of a discrete clock, if it has one:
`Nat → Option K`. This file has its integrals over half-open spans of time: how long the signal
had a value (`good`), the sum of its values (`total`), and their quotient (`average`), with what
they do when spans are joined. `ofChanges` is the signal that a record of changes makes.
-/

namespace TedgeDot.Signal

open Finset

variable {K : Type*}

/-! ## Integrals -/

/-- The instants of a span at which the signal has a value. -/
def good (f : Nat → Option K) (a b : Nat) : Nat := #{t ∈ Ico a b | (f t).isSome}

def total [AddCommMonoid K] (f : Nat → Option K) (a b : Nat) : K := ∑ t ∈ Ico a b, (f t).getD 0

section Span

variable {f g : Nat → Option K} {a b c : Nat}

theorem good_le (f : Nat → Option K) (a b : Nat) : good f a b ≤ b - a := by
  rw [← Nat.card_Ico a b]
  exact card_filter_le _ _

@[simp] theorem good_self (f : Nat → Option K) (a : Nat) : good f a a = 0 := by simp [good]

theorem good_consecutive (f : Nat → Option K) (hab : a ≤ b) (hbc : b ≤ c) :
    good f a b + good f b c = good f a c := by
  simp only [good, card_filter]
  exact sum_Ico_consecutive _ hab hbc

theorem good_congr (h : ∀ t, a ≤ t → t < b → f t = g t) : good f a b = good g a b := by
  simp only [good, card_filter]
  refine sum_congr rfl fun t ht => ?_
  rw [h t (mem_Ico.mp ht).1 (mem_Ico.mp ht).2]

theorem good_some {v : K} (h : ∀ t, a ≤ t → t < b → f t = some v) : good f a b = b - a := by
  rw [good_congr (g := fun _ => some v) h]
  simp [good]

theorem good_none (h : ∀ t, a ≤ t → t < b → f t = none) : good f a b = 0 := by
  rw [good_congr (g := fun _ => none) h]
  simp [good]

theorem good_pos_iff : 0 < good f a b ↔ ∃ t, a ≤ t ∧ t < b ∧ (f t).isSome := by
  rw [good, card_pos, filter_nonempty_iff]
  simp only [mem_Ico, and_assoc]

section Total

variable [AddCommMonoid K]

@[simp] theorem total_self (f : Nat → Option K) (a : Nat) : total f a a = 0 := by simp [total]

theorem total_consecutive (f : Nat → Option K) (hab : a ≤ b) (hbc : b ≤ c) :
    total f a b + total f b c = total f a c :=
  sum_Ico_consecutive _ hab hbc

theorem total_congr (h : ∀ t, a ≤ t → t < b → f t = g t) : total f a b = total g a b := by
  refine sum_congr rfl fun t ht => ?_
  rw [h t (mem_Ico.mp ht).1 (mem_Ico.mp ht).2]

theorem total_none (h : ∀ t, a ≤ t → t < b → f t = none) : total f a b = 0 := by
  rw [total_congr (g := fun _ => none) h]
  simp [total]

end Total

end Span

private theorem total_eq_filter [AddCommMonoid K] (f : Nat → Option K) (a b : Nat) :
    total f a b = ∑ t ∈ Ico a b with (f t).isSome, (f t).getD 0 := by
  rw [total, sum_filter]
  refine sum_congr rfl fun t _ => ?_
  cases f t <;> simp

/-! ## Averages -/

section Average

variable [Field K] {f : Nat → Option K} {a b : Nat}

/-- The average of the values over a span, each weighted by the time the signal had it. -/
def average (f : Nat → Option K) (a b : Nat) : K := total f a b / good f a b

theorem total_some {v : K} (h : ∀ t, a ≤ t → t < b → f t = some v) :
    total f a b = v * ((b - a : Nat) : K) := by
  rw [total_congr (g := fun _ => some v) h]
  simp [total, mul_comm]

variable [LinearOrder K] [IsStrictOrderedRing K]

theorem le_average {lo : K} (hgood : 0 < good f a b)
    (h : ∀ t, a ≤ t → t < b → ∀ v, f t = some v → lo ≤ v) : lo ≤ average f a b := by
  have hpos : (0 : K) < good f a b := by exact_mod_cast hgood
  rw [average, le_div_iff₀ hpos, mul_comm, total_eq_filter, ← nsmul_eq_mul]
  apply card_nsmul_le_sum
  intro t ht
  obtain ⟨hmem, hsome⟩ := mem_filter.mp ht
  obtain ⟨v, hv⟩ := Option.isSome_iff_exists.mp hsome
  rw [hv, Option.getD_some]
  exact h t (mem_Ico.mp hmem).1 (mem_Ico.mp hmem).2 v hv

theorem average_le {hi : K} (hgood : 0 < good f a b)
    (h : ∀ t, a ≤ t → t < b → ∀ v, f t = some v → v ≤ hi) : average f a b ≤ hi := by
  have hpos : (0 : K) < good f a b := by exact_mod_cast hgood
  rw [average, div_le_iff₀ hpos, mul_comm, total_eq_filter, ← nsmul_eq_mul]
  apply sum_le_card_nsmul
  intro t ht
  obtain ⟨hmem, hsome⟩ := mem_filter.mp ht
  obtain ⟨v, hv⟩ := Option.isSome_iff_exists.mp hsome
  rw [hv, Option.getD_some]
  exact h t (mem_Ico.mp hmem).1 (mem_Ico.mp hmem).2 v hv

end Average

/-! ## Changes -/

/-- The signal that a record of changes makes: from its time on, each gives the value. -/
def ofChanges (changes : List (Nat × Option K)) (t : Nat) : Option K :=
  changes.foldl (fun value change => if change.1 ≤ t then change.2 else value) none

def current (changes : List (Nat × Option K)) : Option K := changes.getLast?.bind Prod.snd

@[simp] theorem ofChanges_nil (t : Nat) : ofChanges ([] : List (Nat × Option K)) t = none := rfl

@[simp] theorem current_nil : current ([] : List (Nat × Option K)) = none := rfl

@[simp] theorem current_snoc (changes : List (Nat × Option K)) (change : Nat × Option K) :
    current (changes ++ [change]) = change.2 := by simp [current]

/-- The signal that takes `value` at `now`. -/
def after (f : Nat → Option K) (now : Nat) (value : Option K) (t : Nat) : Option K :=
  if now ≤ t then value else f t

theorem after_of_le {f : Nat → Option K} {now t : Nat} {value : Option K} (h : now ≤ t) :
    after f now value t = value := if_pos h

theorem after_of_lt {f : Nat → Option K} {now t : Nat} {value : Option K} (h : t < now) :
    after f now value t = f t := if_neg (Nat.not_le.mpr h)

theorem ofChanges_snoc (changes : List (Nat × Option K)) (change : Nat × Option K) :
    ofChanges (changes ++ [change]) = after (ofChanges changes) change.1 change.2 := by
  funext t
  simp [ofChanges, after, List.foldl_append]

theorem ofChanges_append {changes later : List (Nat × Option K)} {t : Nat}
    (h : ∀ change ∈ later, t < change.1) : ofChanges (changes ++ later) t = ofChanges changes t := by
  induction later using List.reverseRecOn with
  | nil => rw [List.append_nil]
  | append_singleton later change ih =>
    rw [← List.append_assoc, ofChanges_snoc, after_of_lt (h change (by simp))]
    exact ih fun change' h' => h change' (List.mem_append_left _ h')

end TedgeDot.Signal
