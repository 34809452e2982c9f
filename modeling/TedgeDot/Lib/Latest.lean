import Mathlib.Data.List.Induction
import Mathlib.Logic.Function.Basic
import Mathlib.Tactic.Common

/-!
# The latest lists of several senders

Senders say lists, one after the other, and what counts of each is the last one. The senders of a
group share one place, which every list that says something overwrites, and which a sender that says
nothing any more empties. The place shows the latest lists as long as at most one sender of its group
says anything at a time.

## Main result

- `shown_of_lone`: after a run in which the senders of a group never say anything at the same time,
  the place of each group shows the list of its one sender, and nothing where none says anything.
-/

namespace TedgeDot.Latest

variable {ι κ γ α : Type*}

section Lists

variable [DecidableEq κ]

/-- The lists of all senders, after one message. -/
def hear (told : ι → Option (κ × List α)) (l : κ → List α) (i : ι) : κ → List α :=
  match told i with
  | some (k, a) => Function.update l k a
  | none => l

/-- The last list of each sender; an empty one of a sender that said nothing yet. -/
def latestLists (told : ι → Option (κ × List α)) (is : List ι) : κ → List α :=
  is.foldl (hear told) fun _ => []

@[simp] theorem latestLists_snoc (told : ι → Option (κ × List α)) (is : List ι) (i : ι) :
    latestLists told (is ++ [i]) = hear told (latestLists told is) i := by
  simp [latestLists, List.foldl_append]

theorem latestLists_swap {told : ι → Option (κ × List α)} {x y : ι} {j k : κ} {a b : List α}
    (hx : told x = some (j, a)) (hy : told y = some (k, b)) (hne : j ≠ k) (is : List ι) :
    latestLists told (is ++ [x, y]) = latestLists told (is ++ [y, x]) := by
  have hpair : ∀ x y : ι, is ++ [x, y] = (is ++ [x]) ++ [y] := by simp
  rw [hpair x y, hpair y x]
  simp only [latestLists_snoc, hear, hx, hy]
  exact Function.update_comm (β := fun _ => List α) hne a b _

end Lists

/-- At most one sender of each group says anything. -/
def Lone (group : κ → γ) (l : κ → List α) : Prop :=
  ∀ j k, l j ≠ [] → l k ≠ [] → group j = group k → j = k

/-- The places show the lists of the senders. -/
structure Shown (group : κ → γ) (l : κ → List α) (shown : γ → List α) : Prop where
  said : ∀ k, l k ≠ [] → shown (group k) = l k
  silent : ∀ g, (∀ k, group k = g → l k = []) → shown g = []

theorem shown_empty (group : κ → γ) : Shown group (fun _ => ([] : List α)) fun _ => [] :=
  ⟨fun _ h => absurd rfl h, fun _ _ => rfl⟩

variable [DecidableEq κ] [DecidableEq γ]

/-- The places after one message: a sender that says nothing, and did not before, leaves its own. -/
def place (group : κ → γ) (told : ι → Option (κ × List α)) (l : κ → List α) (shown : γ → List α)
    (i : ι) : γ → List α :=
  match told i with
  | some (k, a) => if l k ≠ [] ∨ a ≠ [] then Function.update shown (group k) a else shown
  | none => shown

variable {group : κ → γ} {told : ι → Option (κ × List α)} {l : κ → List α} {shown : γ → List α}

/-- One more report replaces its own list. -/
theorem Shown.update (h : Shown group l shown) {k : κ} {a : List α} (hlone : Lone group l)
    (hlone' : Lone group (Function.update l k a)) (hcounts : l k ≠ [] ∨ a ≠ []) :
    Shown group (Function.update l k a) (Function.update shown (group k) a) where
  said := by
    intro j hj
    by_cases hjk : j = k
    · simp [hjk]
    · rw [Function.update_of_ne hjk] at hj ⊢
      -- another sender of the group would say something at the same time
      have hgroup : group j ≠ group k := by
        intro hsame
        rcases hcounts with hbefore | hnow
        · exact hjk (hlone j k hj hbefore hsame)
        · apply hjk
          apply hlone' j k _ _ hsame
          · rwa [Function.update_of_ne hjk]
          · rwa [Function.update_self]
      rw [Function.update_of_ne hgroup]
      exact h.said j hj
  silent := by
    intro g hg
    by_cases hgk : g = group k
    · have hnone := hg k hgk.symm
      simp only [Function.update_self] at hnone
      simp [hgk, hnone]
    · rw [Function.update_of_ne hgk]
      apply h.silent
      intro j hj
      have hjk : j ≠ k := fun heq => hgk (hj.symm.trans (congrArg group heq))
      simpa [Function.update_of_ne hjk] using hg j hj

omit [DecidableEq γ] in
theorem Shown.former (h : Shown group l shown) {k : κ} {a : List α}
    (hlone : Lone group (Function.update l k a)) (hcounts : l k ≠ [] ∨ a ≠ []) :
    shown (group k) = l k := by
  by_cases hbefore : l k = []
  · rw [hbefore]
    apply h.silent
    intro j hj
    by_cases hjk : j = k
    · rwa [hjk]
    · by_contra hsaid
      have hnow := hcounts.resolve_left fun hne => hne hbefore
      apply hjk
      apply hlone j k _ _ hj
      · rwa [Function.update_of_ne hjk]
      · rwa [Function.update_self]
  · exact h.said k hbefore

/-- One message keeps the places, where at most one sender of a group says anything before and after
it. -/
theorem Shown.step (h : Shown group l shown) (i : ι) (hlone : Lone group l)
    (hlone' : Lone group (hear told l i)) :
    Shown group (hear told l i) (place group told l shown i) := by
  unfold hear at hlone' ⊢
  unfold place
  cases htold : told i with
  | none => exact h
  | some m =>
    simp only [htold] at hlone' ⊢
    split
    · next hcounts => exact h.update hlone hlone' hcounts
    · next hnothing =>
      -- nothing before and nothing now
      simp only [not_or, not_not] at hnothing
      have hsame : Function.update l m.1 m.2 = l := by
        rw [hnothing.2, ← hnothing.1, Function.update_eq_self]
      rwa [hsame]

/-- The lists and the places after a run. -/
def run (group : κ → γ) (told : ι → Option (κ × List α)) (is : List ι) :
    (κ → List α) × (γ → List α) :=
  is.foldl (fun t i => (hear told t.1 i, place group told t.1 t.2 i)) (fun _ => [], fun _ => [])

def places (group : κ → γ) (told : ι → Option (κ × List α)) (is : List ι) : γ → List α :=
  (run group told is).2

theorem run_snoc (group : κ → γ) (told : ι → Option (κ × List α)) (is : List ι) (i : ι) :
    run group told (is ++ [i]) = (hear told (run group told is).1 i,
      place group told (run group told is).1 (run group told is).2 i) := by
  simp [run, List.foldl_append]

theorem run_fst (group : κ → γ) (told : ι → Option (κ × List α)) (is : List ι) :
    (run group told is).1 = latestLists told is := by
  induction is using List.reverseRecOn with
  | nil => rfl
  | append_singleton is i ih => rw [run_snoc, latestLists_snoc, ih]

@[simp] theorem places_nil (group : κ → γ) (told : ι → Option (κ × List α)) :
    places group told [] = fun _ => [] := rfl

@[simp] theorem places_snoc (group : κ → γ) (told : ι → Option (κ × List α)) (is : List ι) (i : ι) :
    places group told (is ++ [i]) = place group told (latestLists told is) (places group told is)
      i := by
  rw [places, run_snoc, run_fst]
  rfl

theorem shown_of_lone {is : List ι}
    (hlone : ∀ moment, moment <+: is → Lone group (latestLists told moment)) :
    Shown group (latestLists told is) (places group told is) := by
  induction is using List.reverseRecOn with
  | nil => exact shown_empty group
  | append_singleton is i ih =>
    have hbefore := ih fun moment hmoment => hlone moment (hmoment.trans (List.prefix_append is [i]))
    have hlone' := hlone _ List.prefix_rfl
    rw [latestLists_snoc] at hlone' ⊢
    rw [places_snoc]
    exact hbefore.step i (hlone is (List.prefix_append is [i])) hlone'

end TedgeDot.Latest
