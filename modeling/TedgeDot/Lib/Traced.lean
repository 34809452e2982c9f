import Mathlib.Data.List.Basic

/-!
# Computations that leave a trace

A fallible computation with the list of what it touched on the way, whether or not it succeeds:
files opened, addresses read, calls made. `Only P` says that it touched nothing outside `P`, with
one rule for each way to build such a computation.
-/

namespace TedgeDot

/-- What was touched, in order, and what came of it. -/
structure Traced (τ ε α : Type) where
  events : List τ
  result : Except ε α

namespace Traced

variable {τ ε α β : Type}

def lift (x : Except ε α) : Traced τ ε α := { events := [], result := x }

def fail (e : ε) : Traced τ ε α := lift (.error e)

def touch (t : τ) : Traced τ ε Unit := { events := [t], result := .ok () }

/-- One step and then, where it succeeds, the next. -/
def bind (x : Traced τ ε α) (f : α → Traced τ ε β) : Traced τ ε β :=
  match x.result with
  | .error e => { events := x.events, result := .error e }
  | .ok a => { events := x.events ++ (f a).events, result := (f a).result }

instance instMonad : Monad (Traced τ ε) where
  pure a := lift (.ok a)
  bind := bind

/-- The same computation with its trace and its error under other names. -/
def relabel {τ' ε' : Type} (f : τ → τ') (g : ε → ε') (x : Traced τ ε α) : Traced τ' ε' α :=
  { events := x.events.map f, result := x.result.mapError g }

theorem bind_eq (x : Traced τ ε α) (f : α → Traced τ ε β) : (x >>= f) = x.bind f := rfl

@[simp] theorem result_lift (x : Except ε α) : (lift x : Traced τ ε α).result = x := rfl

@[simp] theorem result_bind (x : Traced τ ε α) (f : α → Traced τ ε β) :
    (x >>= f).result = x.result >>= fun a => (f a).result := by
  rw [bind_eq, bind]
  cases x.result <;> rfl

theorem mem_events_bind {x : Traced τ ε α} {f : α → Traced τ ε β} {t : τ} :
    t ∈ (x >>= f).events ↔ t ∈ x.events ∨ ∃ a, x.result = .ok a ∧ t ∈ (f a).events := by
  rw [bind_eq, bind]
  cases x.result with
  | error e => simp
  | ok a => simp

/-! ## What a computation touches -/

/-- Everything touched is in `P`. -/
structure Only (P : τ → Prop) (x : Traced τ ε α) : Prop where
  mem : ∀ t ∈ x.events, P t

namespace Only

variable {P Q : τ → Prop}

theorem lift (x : Except ε α) : Only P (Traced.lift x : Traced τ ε α) where
  mem t ht := by cases ht

theorem pure (a : α) : Only P (Pure.pure a : Traced τ ε α) := lift (.ok a)

theorem fail (e : ε) : Only P (Traced.fail e : Traced τ ε α) := lift (.error e)

theorem touch {t : τ} (h : P t) : Only P (Traced.touch t : Traced τ ε Unit) where
  mem t' ht' := by
    obtain rfl := List.mem_singleton.mp ht'
    exact h

/-- A chain touches what its steps do, each from where the one before succeeded. -/
theorem bind {x : Traced τ ε α} {f : α → Traced τ ε β} (hx : Only P x)
    (hf : ∀ a, x.result = .ok a → Only P (f a)) : Only P (x >>= f) where
  mem t ht := by
    rcases mem_events_bind.mp ht with ht | ⟨a, ha, ht⟩
    · exact hx.mem t ht
    · exact (hf a ha).mem t ht

theorem mono {x : Traced τ ε α} (h : Only P x) (hPQ : ∀ t, P t → Q t) : Only Q x where
  mem t ht := hPQ t (h.mem t ht)

theorem relabel {τ' ε' : Type} {f : τ → τ'} {g : ε → ε'} {R : τ' → Prop} {x : Traced τ ε α}
    (h : Only (fun t => R (f t)) x) : Only R (x.relabel f g) where
  mem t' ht' := by
    obtain ⟨t, ht, rfl⟩ := List.mem_map.mp ht'
    exact h.mem t ht

theorem foldlM {ι : Type} {step : β → ι → Traced τ ε β} {items : List ι}
    (h : ∀ b, ∀ i ∈ items, Only P (step b i)) (b : β) : Only P (items.foldlM step b) := by
  induction items generalizing b with
  | nil => exact pure b
  | cons i items ih =>
    rw [List.foldlM_cons]
    apply bind (h b i List.mem_cons_self)
    intro b' _
    exact ih (fun b j hj => h b j (List.mem_cons_of_mem i hj)) b'

end Only

end Traced

end TedgeDot
