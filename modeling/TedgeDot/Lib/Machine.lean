import Mathlib.Data.List.Perm.Basic
import Mathlib.Data.List.Flatten

/-!
# Machines with outputs

A machine is a function `step : σ → ι → σ × ο`: a state and an input give the next state and
an output. This file has the rules every run of such a machine obeys, for any state, input and
output types:

- `final_induction`: an invariant that one step keeps holds at the end of every run.
- `account`: what a run has put out, followed by what its state still holds, is bounded by what
  the first state held, followed by what the run took in. The bound is any relation on lists
  that is compatible with appending (`AppendRel`): equality for a queue, `List.Perm` for a
  table, `List.Sublist` for a buffer that may drop.
-/

namespace TedgeDot.Machine

universe u v w x

variable {σ : Type u} {τ : Type v} {ι : Type w} {ο : Type x}

/-! ## Runs -/

def final (step : σ → ι → σ × ο) : σ → List ι → σ
  | s, [] => s
  | s, i :: is => final step (step s i).1 is

/-- Each input of a run with the output it got. -/
def log (step : σ → ι → σ × ο) : σ → List ι → List (ι × ο)
  | _, [] => []
  | s, i :: is => (i, (step s i).2) :: log step (step s i).1 is

/-- Every step of a run meets `C`, a condition on the state before the step and its input. -/
def AllSteps (step : σ → ι → σ × ο) (C : σ → ι → Prop) : σ → List ι → Prop
  | _, [] => True
  | s, i :: is => C s i ∧ AllSteps step C (step s i).1 is

variable {step : σ → ι → σ × ο}

instance decidableAllSteps (C : σ → ι → Prop) [∀ s i, Decidable (C s i)] :
    (s : σ) → (is : List ι) → Decidable (AllSteps step C s is)
  | _, [] => .isTrue trivial
  | s, i :: is =>
    have := decidableAllSteps C (step s i).1 is
    inferInstanceAs (Decidable (C s i ∧ AllSteps step C (step s i).1 is))

@[simp] theorem final_nil (s : σ) : final step s [] = s := rfl

@[simp] theorem final_cons (s : σ) (i : ι) (is : List ι) :
    final step s (i :: is) = final step (step s i).1 is := rfl

@[simp] theorem log_nil (s : σ) : log step s [] = [] := rfl

@[simp] theorem log_cons (s : σ) (i : ι) (is : List ι) :
    log step s (i :: is) = (i, (step s i).2) :: log step (step s i).1 is := rfl

@[simp] theorem allSteps_nil (C : σ → ι → Prop) (s : σ) : AllSteps step C s [] := trivial

@[simp] theorem allSteps_cons (C : σ → ι → Prop) (s : σ) (i : ι) (is : List ι) :
    AllSteps step C s (i :: is) ↔ C s i ∧ AllSteps step C (step s i).1 is := Iff.rfl

theorem final_append (s : σ) (is js : List ι) :
    final step s (is ++ js) = final step (final step s is) js := by
  induction is generalizing s with
  | nil => rfl
  | cons i is ih => exact ih (step s i).1

theorem log_append (s : σ) (is js : List ι) :
    log step s (is ++ js) = log step s is ++ log step (final step s is) js := by
  induction is generalizing s with
  | nil => rfl
  | cons i is ih => simp [ih]

theorem allSteps_append (C : σ → ι → Prop) (s : σ) (is js : List ι) :
    AllSteps step C s (is ++ js) ↔
      AllSteps step C s is ∧ AllSteps step C (final step s is) js := by
  induction is generalizing s with
  | nil => simp
  | cons i is ih => simp [ih, and_assoc]

theorem final_map {κ : Type*} (f : κ → ι) (s : σ) (ks : List κ) :
    final step s (ks.map f) = final (fun s k => step s (f k)) s ks := by
  induction ks generalizing s with
  | nil => rfl
  | cons k ks ih => exact ih (step s (f k)).1

theorem allSteps_map {κ : Type*} (f : κ → ι) (C : σ → ι → Prop) (s : σ) (ks : List κ) :
    AllSteps step C s (ks.map f) ↔
      AllSteps (fun s k => step s (f k)) (fun s k => C s (f k)) s ks := by
  induction ks generalizing s with
  | nil => simp
  | cons k ks ih => simp [ih]

/-- A condition that holds of every step on these inputs holds along the run. -/
theorem allSteps_of_mem {C : σ → ι → Prop} {is : List ι} (h : ∀ s, ∀ i ∈ is, C s i) (s : σ) :
    AllSteps step C s is := by
  induction is generalizing s with
  | nil => trivial
  | cons i is ih =>
    exact ⟨h s i List.mem_cons_self, ih (fun s j hj => h s j (List.mem_cons_of_mem i hj)) _⟩

/-- A condition that holds of every step holds along every run. -/
theorem allSteps_of_forall {C : σ → ι → Prop} (h : ∀ s i, C s i) (s : σ) (is : List ι) :
    AllSteps step C s is :=
  allSteps_of_mem (fun s i _ => h s i) s

theorem log_flatMap_fst {β : Type*} (f : ι → List β) (s : σ) (is : List ι) :
    (log step s is).flatMap (fun e => f e.1) = is.flatMap f := by
  induction is generalizing s with
  | nil => rfl
  | cons i is ih => simp [ih]

/-- A run of a machine that puts out lists: where it ends, and all it put out, in order. A loop
over a collection is such a run. -/
def exec {β : Type*} (step : σ → ι → σ × List β) (s : σ) (is : List ι) : σ × List β :=
  (final step s is, (log step s is).flatMap Prod.snd)

section Exec

variable {β : Type*} {step : σ → ι → σ × List β}

@[simp] theorem exec_nil (s : σ) : exec step s [] = (s, []) := rfl

@[simp] theorem exec_cons (s : σ) (i : ι) (is : List ι) :
    exec step s (i :: is) =
      ((exec step (step s i).1 is).1, (step s i).2 ++ (exec step (step s i).1 is).2) := by
  simp [exec]

theorem exec_append (s : σ) (is js : List ι) :
    exec step s (is ++ js) =
      ((exec step (exec step s is).1 js).1,
        (exec step s is).2 ++ (exec step (exec step s is).1 js).2) := by
  simp [exec, final_append, log_append]

theorem exec_map {κ : Type*} (f : κ → ι) (s : σ) (ks : List κ) :
    exec step s (ks.map f) = exec (fun s k => step s (f k)) s ks := by
  induction ks generalizing s with
  | nil => rfl
  | cons k ks ih => simp only [List.map_cons, exec_cons, ih]

/-- Steps that leave the state as it is and put nothing out. -/
theorem exec_idle {s : σ} {is : List ι} (h : ∀ i ∈ is, step s i = (s, [])) :
    exec step s is = (s, []) := by
  induction is with
  | nil => rfl
  | cons i is ih =>
    rw [exec_cons, h i List.mem_cons_self, ih fun j hj => h j (List.mem_cons_of_mem i hj)]
    rfl

/-- **History rule**: what every step that meets `C` keeps of the state, the inputs taken and the
outputs put out so far, a run of such steps keeps. -/
theorem exec_history {κ : Type*} {C : σ → ι → Prop} {P : σ → List κ → List β → Prop}
    (inn : ι → List κ)
    (hstep : ∀ s i ins outs, C s i → P s ins outs →
      P (step s i).1 (ins ++ inn i) (outs ++ (step s i).2))
    {s : σ} {is : List ι} {ins : List κ} {outs : List β}
    (hC : AllSteps step C s is) (hs : P s ins outs) :
    P (exec step s is).1 (ins ++ is.flatMap inn) (outs ++ (exec step s is).2) := by
  induction is generalizing s ins outs with
  | nil => simpa using hs
  | cons i is ih =>
    have hrest := ih hC.2 (hstep s i ins outs hC.1 hs)
    simpa only [List.flatMap_cons, exec_cons, List.append_assoc] using hrest

/-- **History rule** for a loop: no condition, and nothing but the outputs to record. -/
theorem exec_outputs {P : σ → List β → Prop}
    (hstep : ∀ s i outs, P s outs → P (step s i).1 (outs ++ (step s i).2))
    {s : σ} (is : List ι) (hs : P s []) : P (exec step s is).1 (exec step s is).2 := by
  have hrun : ∀ outs, P s outs → P (exec step s is).1 (outs ++ (exec step s is).2) := by
    clear hs
    induction is generalizing s with
    | nil => simp
    | cons i is ih =>
      intro outs hs
      have hrest := ih (outs ++ (step s i).2) (hstep s i outs hs)
      simpa only [exec_cons, List.append_assoc] using hrest
  exact hrun [] hs

end Exec

/-! ## Invariants -/

variable {C : σ → ι → Prop} {P : σ → Prop} {s : σ} {is : List ι}

/-- **Run rule**: what every step that meets `C` keeps, a run of such steps keeps. -/
theorem final_induction_of (hstep : ∀ s i, C s i → P s → P (step s i).1) (hC : AllSteps step C s is)
    (hs : P s) : P (final step s is) := by
  induction is generalizing s with
  | nil => exact hs
  | cons i is ih => exact ih hC.2 (hstep s i hC.1 hs)

/-- **Run rule** without a condition on the steps. -/
theorem final_induction (hstep : ∀ s i, P s → P (step s i).1) (is : List ι) (hs : P s) :
    P (final step s is) :=
  final_induction_of (C := fun _ _ => True) (fun s i _ => hstep s i)
    (allSteps_of_forall (fun _ _ => trivial) s is) hs

/-- A condition that an invariant implies holds along every run. -/
theorem allSteps_of_invariant (hstep : ∀ s i, P s → P (step s i).1) (hC : ∀ s i, P s → C s i)
    (is : List ι) (hs : P s) : AllSteps step C s is := by
  induction is generalizing s with
  | nil => trivial
  | cons i is ih => exact ⟨hC s i hs, ih (hstep s i hs)⟩

/-- In a run whose steps meet `C`, what such a step says from an invariant holds of every step. -/
theorem allSteps_of_allSteps {C D : σ → ι → Prop} (hstep : ∀ s i, C s i → P s → P (step s i).1)
    (hD : ∀ s i, C s i → P s → D s i) (hC : AllSteps step C s is) (hs : P s) :
    AllSteps step D s is := by
  induction is generalizing s with
  | nil => trivial
  | cons i is ih => exact ⟨hD s i hC.1 hs, ih hC.2 (hstep s i hC.1 hs)⟩

/-- **Exactness rule**: if a step keeps the invariant exactly when it meets `C`, a run stays within
the invariant exactly when all its steps meet `C`. -/
theorem allSteps_iff_of_invariant (hstep : ∀ s i, P s → (C s i ↔ P (step s i).1)) (is : List ι)
    (hs : P s) : AllSteps step C s is ↔ AllSteps step (fun s i => P (step s i).1) s is := by
  induction is generalizing s with
  | nil => simp
  | cons i is ih =>
    simp only [allSteps_cons, hstep s i hs]
    exact and_congr_right fun hnext => ih hnext

/-- What every step says of its own output, from an invariant of the state, holds of every
entry of the log. -/
theorem log_forall_of {Q : ι × ο → Prop} (hstep : ∀ s i, C s i → P s → P (step s i).1)
    (hout : ∀ s i, C s i → P s → Q (i, (step s i).2)) (hC : AllSteps step C s is) (hs : P s) :
    ∀ e ∈ log step s is, Q e := by
  induction is generalizing s with
  | nil => simp
  | cons i is ih =>
    intro e he
    rcases List.mem_cons.mp he with rfl | he
    · exact hout s i hC.1 hs
    · exact ih hC.2 (hstep s i hC.1 hs) e he

/-- **Landing rule**: if the steps of a run keep `S`, one of them is a step of the kind `L`
that takes a safe state to a state in `K`, and no step of the run leaves `K`, the run ends
in `K`. -/
theorem final_of_mem {L : ι → Prop} {S K : σ → Prop} (hsafe : ∀ s i, C s i → S s → S (step s i).1)
    (hland : ∀ s i, C s i → L i → S s → K (step s i).1)
    (hkept : ∀ s i, C s i → K s → K (step s i).1) (hC : AllSteps step C s is) (hs : S s)
    (hmem : ∃ i ∈ is, L i) : K (final step s is) := by
  induction is generalizing s with
  | nil =>
    obtain ⟨i, hi, -⟩ := hmem
    cases hi
  | cons i is ih =>
    obtain ⟨j, hj, hL⟩ := hmem
    rcases List.mem_cons.mp hj with rfl | hj
    · show K (final step (step s j).1 is)
      exact final_induction_of hkept hC.2 (hland s j hC.1 hL hs)
    · exact ih hC.2 (hsafe s i hC.1 hs) ⟨j, hj, hL⟩

/-- **Point of no return**: if a step that does not meet `C` takes a safe state to a lost one,
and lost states stay lost, a run with such a step ends lost. -/
theorem final_of_not_allSteps {Safe Lost : σ → Prop}
    (hsafe : ∀ s i, C s i → Safe s → Safe (step s i).1)
    (hbreak : ∀ s i, ¬ C s i → Safe s → Lost (step s i).1)
    (hlost : ∀ s i, Lost s → Lost (step s i).1) (hC : ¬ AllSteps step C s is) (hs : Safe s) :
    Lost (final step s is) := by
  induction is generalizing s with
  | nil => exact absurd trivial hC
  | cons i is ih =>
    by_cases hi : C s i
    · exact ih (fun h => hC ⟨hi, h⟩) (hsafe s i hi hs)
    · exact final_induction hlost is (hbreak s i hi hs)

/-! ## Flags -/

/-- A flag that follows the run is up at every step that needs it. -/
def Flagged (step : σ → ι → σ × ο) (flag : σ → Bool → ι → Bool) (needs : σ → ι → Prop) :
    σ → Bool → List ι → Prop
  | _, _, [] => True
  | s, up, i :: is =>
    (needs s i → up = true) ∧ Flagged step flag needs (step s i).1 (flag s up i) is

instance decidableFlagged (flag : σ → Bool → ι → Bool) (needs : σ → ι → Prop)
    [∀ s i, Decidable (needs s i)] :
    (s : σ) → (up : Bool) → (is : List ι) → Decidable (Flagged step flag needs s up is)
  | _, _, [] => .isTrue trivial
  | s, up, i :: is =>
    have := decidableFlagged flag needs (step s i).1 (flag s up i) is
    inferInstanceAs (Decidable ((needs s i → up = true) ∧ _))

/-- **Flag rule**: if what the flag stands for holds whenever it is up, the steps that need it find
it so. -/
theorem allSteps_of_flagged {flag : σ → Bool → ι → Bool} {needs : σ → ι → Prop}
    (hflag : ∀ s up i, (up = true → P s) → flag s up i = true → P (step s i).1)
    (hneeds : ∀ s i, (needs s i → P s) → C s i) {up : Bool} (hrun : Flagged step flag needs s up is)
    (hs : up = true → P s) : AllSteps step C s is := by
  induction is generalizing s up with
  | nil => trivial
  | cons i is ih =>
    exact ⟨hneeds s i fun h => hs (hrun.1 h), ih hrun.2 fun h => hflag s up i hs h⟩

/-! ## Recorded outputs -/

/-- The machine that also carries what it has put out so far. -/
def recorded {β : Type*} (step : σ → ι → σ × ο) (out : ο → List β) (s : List β × σ) (i : ι) :
    (List β × σ) × ο :=
  ((s.1 ++ out (step s.2 i).2, (step s.2 i).1), (step s.2 i).2)

theorem final_recorded {β : Type*} (out : ο → List β) (past : List β) (s : σ) (is : List ι) :
    final (recorded step out) (past, s) is =
      (past ++ (log step s is).flatMap (fun e => out e.2), final step s is) := by
  induction is generalizing past s with
  | nil => simp
  | cons i is ih => simp [recorded, ih, List.append_assoc]

theorem allSteps_recorded {β : Type*} (out : ο → List β) (C : σ → ι → Prop) (past : List β)
    (s : σ) (is : List ι) :
    AllSteps (recorded step out) (fun s i => C s.2 i) (past, s) is ↔ AllSteps step C s is := by
  induction is generalizing past s with
  | nil => simp
  | cons i is ih => simp [recorded, ih]

/-! ## Accounting -/

/-- A preorder on lists that appending on either side respects. -/
structure AppendRel {β : Type*} (R : List β → List β → Prop) : Prop where
  refl : ∀ a, R a a
  trans : ∀ {a b c}, R a b → R b c → R a c
  append_left : ∀ {a b} (c), R a b → R (c ++ a) (c ++ b)
  append_right : ∀ {a b} (c), R a b → R (a ++ c) (b ++ c)

section Account

variable {β : Type*}

theorem appendRel_sublist : AppendRel (β := β) List.Sublist where
  refl := List.Sublist.refl
  trans := List.Sublist.trans
  append_left c h := List.Sublist.append_left h c
  append_right c h := List.Sublist.append_right h c

/-- **Accounting rule**: let `held` be what a state still holds, `out` what a log entry puts out
and `inn` what it takes in. If each step keeps `out ++ held` within `held ++ inn`, a whole run
does. The invariant `P` is what the step's bound may rely on. -/
theorem account_of {R : List β → List β → Prop} (hR : AppendRel R)
    (held : σ → List β) (out inn : ι × ο → List β) {C : σ → ι → Prop} {P : σ → Prop}
    (hkeep : ∀ s i, C s i → P s → P (step s i).1)
    (hstep : ∀ s i, C s i → P s →
      R (out (i, (step s i).2) ++ held (step s i).1) (held s ++ inn (i, (step s i).2)))
    {s : σ} {is : List ι} (hC : AllSteps step C s is) (hs : P s) :
    R ((log step s is).flatMap out ++ held (final step s is))
      (held s ++ (log step s is).flatMap inn) := by
  induction is generalizing s with
  | nil => simpa using hR.refl (held s)
  | cons i is ih =>
    have hrest := ih hC.2 (hkeep s i hC.1 hs)
    have hfirst := hstep s i hC.1 hs
    simp only [log_cons, List.flatMap_cons, final_cons, List.append_assoc] at hrest ⊢
    refine hR.trans (hR.append_left _ hrest) ?_
    simpa only [List.append_assoc] using hR.append_right _ hfirst

/-- **Accounting rule** without a condition on the steps. -/
theorem account {R : List β → List β → Prop} (hR : AppendRel R)
    (held : σ → List β) (out inn : ι × ο → List β) {P : σ → Prop}
    (hkeep : ∀ s i, P s → P (step s i).1)
    (hstep : ∀ s i, P s →
      R (out (i, (step s i).2) ++ held (step s i).1) (held s ++ inn (i, (step s i).2)))
    {s : σ} (is : List ι) (hs : P s) :
    R ((log step s is).flatMap out ++ held (final step s is))
      (held s ++ (log step s is).flatMap inn) :=
  account_of (C := fun _ _ => True) hR held out inn (fun s i _ => hkeep s i) (fun s i _ => hstep s i)
    (allSteps_of_forall (fun _ _ => trivial) s is) hs

end Account

end TedgeDot.Machine
