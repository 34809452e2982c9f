import Mathlib.Logic.Basic
import Mathlib.Tactic.Common

/-!
# Limits with hysteresis

Something stands while a reading is listed, or while a limit is exceeded that has not been passed
back since. Any number of limits have their own say: a limit is exceeded by one reading, and counts
until another one passes it back, whatever else the readings in between were listed for.

What is known may be nothing. A reading within the band of a limit, where it is neither beyond the
limit nor back, then leaves it at that.

- `exceeded_step`: a limit counts after a reading where the reading exceeds it, or does not pass it
  back.
-/

namespace TedgeDot.Hysteresis

open Classical

universe u v

/-- What readings say of the limits. -/
structure Limits (ν : Type u) (ι : Type v) where
  listed : ν → Prop
  beyond : ι → ν → Prop
  within : ι → ν → Prop
  back : ι → ν → Prop

/-- What is known: with what stands, the limits that count. -/
inductive Knowledge (ι : Type v) where
  | unknown
  | clear
  | standing (exceeded : ι → Prop)

namespace Knowledge

variable {ι : Type v}

/-- The limits that were exceeded and not passed back. -/
def exceeded : Knowledge ι → ι → Prop
  | standing exceeded => exceeded
  | _ => fun _ => False

/-- Whether it stands, where that is known. -/
def stands : Knowledge ι → Option Bool
  | unknown => none
  | clear => some false
  | standing _ => some true

/-- What is found recorded, where nothing is known: any limit may have been exceeded then. -/
def learn (recorded : Option Bool) : Knowledge ι → Knowledge ι
  | unknown =>
    match recorded with
    | none => unknown
    | some true => standing fun _ => True
    | some false => clear
  | k => k

@[simp] theorem learn_none (k : Knowledge ι) : k.learn none = k := by
  cases k <;> rfl

end Knowledge

variable {ν : Type u} {ι : Type v} (c : Limits ν ι)

namespace Limits

/-- The limits that count after a reading. -/
def exceededAfter (k : Knowledge ι) (v : ν) (i : ι) : Prop :=
  c.beyond i v ∨ k.exceeded i ∧ ¬c.back i v

def Holds (k : Knowledge ι) (v : ν) : Prop := c.listed v ∨ ∃ i, c.exceededAfter k v i

noncomputable def step (k : Knowledge ι) (v : ν) : Knowledge ι :=
  if c.Holds k v then .standing (c.exceededAfter k v)
  else if k = .unknown ∧ ∃ i, c.within i v then .unknown
  else .clear

variable {c} {k : Knowledge ι} {v : ν}

theorem step_of_holds (h : c.Holds k v) : c.step k v = .standing (c.exceededAfter k v) := if_pos h

theorem stands_step_of_holds (h : c.Holds k v) : (c.step k v).stands = some true := by
  rw [step_of_holds h]
  rfl

theorem exceeded_step (i : ι) : (c.step k v).exceeded i ↔ c.exceededAfter k v i := by
  by_cases hholds : c.Holds k v
  · rw [step_of_holds hholds]
    rfl
  · have hnone : ¬c.exceededAfter k v i := fun h => hholds (Or.inr ⟨i, h⟩)
    refine iff_of_false ?_ hnone
    unfold step
    rw [if_neg hholds]
    split <;> exact id

end Limits

end TedgeDot.Hysteresis
