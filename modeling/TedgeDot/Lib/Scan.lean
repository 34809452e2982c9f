import Mathlib.Data.List.Flatten

/-!
# Looking at one place after another

A `Scan` is a computation over a world of places that other parties change while it runs: it
looks at one place, goes on from what it sees there, and ends with an answer. `run` is the answer
in a world that stands still, and `Follows` is the computation as it goes on in one that does not,
look by look.

- `run_of_follows`: where everything that was seen is still there, the answer is the answer of the
  world as it is now.
- `agrees_of_follows`: it is enough to know that for the places that `run` visits.
- `follows_bind`, `follows_each`: the looks of a compound scan are those of its parts, in order.
-/

namespace TedgeDot

universe u v

/-- A computation that looks at one place after another. -/
inductive Scan (π σ α : Type u) : Type u
  /-- It ends with an answer. -/
  | done (answer : α)
  /-- It looks at a place and goes on from what is seen there. -/
  | look (place : π) (next : σ → Scan π σ α)

namespace Scan

variable {π σ α β ι : Type u} {τ : Type v}

/-! ## Building scans -/

def bind (m : Scan π σ α) (f : α → Scan π σ β) : Scan π σ β :=
  match m with
  | .done a => f a
  | .look p next => .look p fun seen => (next seen).bind f

instance : Monad (Scan π σ) where
  pure := .done
  bind := bind

def place? : Scan π σ α → Option π
  | .done _ => none
  | .look p _ => some p

/-- What is left once that place has been seen. -/
def seen (there : σ) : Scan π σ α → Scan π σ α
  | .done a => .done a
  | .look _ next => next there

/-- A scan for every element of a list, the answers one after another. -/
def each (g : ι → Scan π σ (List β)) : List ι → Scan π σ (List β)
  | [] => .done []
  | i :: is => (g i).bind fun bs => (each g is).bind fun cs => .done (bs ++ cs)

@[simp] theorem look_bind (p : π) (next : σ → Scan π σ α) (f : α → Scan π σ β) :
    (look p next).bind f = .look p fun seen => (next seen).bind f := rfl

/-! ## In a world that stands still -/

/-- The answer where `see` is what every place shows. -/
def run (see : π → σ) : Scan π σ α → α
  | .done a => a
  | .look p next => (next (see p)).run see

/-- The places that are looked at on the way there. -/
def visits (see : π → σ) : Scan π σ α → List π
  | .done _ => []
  | .look p next => p :: (next (see p)).visits see

variable {see : π → σ}

@[simp] theorem run_done (a : α) : (done a : Scan π σ α).run see = a := rfl

@[simp] theorem run_look (p : π) (next : σ → Scan π σ α) :
    (look p next).run see = (next (see p)).run see := rfl

@[simp] theorem visits_done (a : α) : (done a : Scan π σ α).visits see = [] := rfl

@[simp] theorem visits_look (p : π) (next : σ → Scan π σ α) :
    (look p next).visits see = p :: (next (see p)).visits see := rfl

@[simp] theorem run_bind (m : Scan π σ α) (f : α → Scan π σ β) :
    (m.bind f).run see = (f (m.run see)).run see := by
  induction m with
  | done a => rfl
  | look p next ih => exact ih (see p)

@[simp] theorem visits_bind (m : Scan π σ α) (f : α → Scan π σ β) :
    (m.bind f).visits see = m.visits see ++ (f (m.run see)).visits see := by
  induction m with
  | done a => rfl
  | look p next ih => simp [ih (see p)]

@[simp] theorem run_each (g : ι → Scan π σ (List β)) (is : List ι) :
    (each g is).run see = is.flatMap fun i => (g i).run see := by
  induction is with
  | nil => rfl
  | cons i is ih => simp [each, ih]

@[simp] theorem visits_each (g : ι → Scan π σ (List β)) (is : List ι) :
    (each g is).visits see = is.flatMap fun i => (g i).visits see := by
  induction is with
  | nil => rfl
  | cons i is ih => simp [each, ih]

/-! ## In a world that changes

A look is a place and what was found there, of which the scan itself sees only `view`. -/

/-- `m` has made the looks `ls` and has come to `m'`. -/
def Follows (view : τ → σ) : Scan π σ α → List (π × τ) → Scan π σ α → Prop
  | m, [], m' => m = m'
  | .look p next, l :: ls, m' => l.1 = p ∧ Follows view (next (view l.2)) ls m'
  | .done _, _ :: _, _ => False

variable {view : τ → σ} {ls ls' : List (π × τ)}

@[simp] theorem follows_nil {m m' : Scan π σ α} : Follows view m [] m' ↔ m = m' := by
  cases m <;> simp [Follows]

@[simp] theorem follows_look {p : π} {next : σ → Scan π σ α} {l : π × τ} {m' : Scan π σ α} :
    Follows view (.look p next) (l :: ls) m' ↔
      l.1 = p ∧ Follows view (next (view l.2)) ls m' := by
  simp [Follows]

@[simp] theorem follows_done {a : α} {m' : Scan π σ α} :
    Follows view (.done a) ls m' ↔ ls = [] ∧ m' = .done a := by
  cases ls with
  | nil => simp [eq_comm]
  | cons l ls => simp [Follows]

theorem follows_append {m m' m'' : Scan π σ α} (h : Follows view m ls m')
    (h' : Follows view m' ls' m'') : Follows view m (ls ++ ls') m'' := by
  induction ls generalizing m with
  | nil =>
    simp only [follows_nil] at h
    simpa [h] using h'
  | cons l ls ih =>
    cases m with
    | done a => simp at h
    | look p next =>
      simp only [follows_look] at h
      simp only [List.cons_append, follows_look]
      exact ⟨h.1, ih h.2⟩

theorem follows_seen {m m' : Scan π σ α} {p : π} (h : Follows view m ls m')
    (hp : m'.place? = some p) (c : τ) : Follows view m (ls ++ [(p, c)]) (m'.seen (view c)) := by
  apply follows_append h
  cases m' with
  | done a => simp [place?] at hp
  | look q next =>
    simp only [place?, Option.some.injEq] at hp
    simp [hp, seen]

theorem follows_bind {m : Scan π σ α} {f : α → Scan π σ β} {b : β}
    (h : Follows view (m.bind f) ls (.done b)) :
    ∃ ls₁ ls₂ a, ls = ls₁ ++ ls₂ ∧ Follows view m ls₁ (.done a) ∧
      Follows view (f a) ls₂ (.done b) := by
  induction m generalizing ls with
  | done a => exact ⟨[], ls, a, rfl, by simp, h⟩
  | look p next ih =>
    cases ls with
    | nil => simp at h
    | cons l ls =>
      simp only [look_bind, follows_look] at h
      obtain ⟨ls₁, ls₂, a, rfl, h₁, h₂⟩ := ih _ h.2
      exact ⟨l :: ls₁, ls₂, a, rfl, by simpa using ⟨h.1, h₁⟩, h₂⟩

theorem follows_each {g : ι → Scan π σ (List β)} {is : List ι} {bs : List β}
    (h : Follows view (each g is) ls (.done bs)) {i : ι} (hi : i ∈ is) :
    ∃ ls' bs', ls' ⊆ ls ∧ bs' ⊆ bs ∧ Follows view (g i) ls' (.done bs') := by
  induction is generalizing ls bs with
  | nil => simp at hi
  | cons j is ih =>
    obtain ⟨ls₁, lsr, bs₁, rfl, h₁, hr⟩ := follows_bind h
    obtain ⟨ls₂, ls₃, bs₂, rfl, h₂, h₃⟩ := follows_bind hr
    simp only [follows_done, Scan.done.injEq] at h₃
    obtain ⟨rfl, rfl⟩ := h₃
    cases List.mem_cons.1 hi with
    | inl hij =>
      subst hij
      exact ⟨ls₁, bs₁, by simp, by simp, h₁⟩
    | inr hi =>
      obtain ⟨ls', bs', hls, hbs, hg⟩ := ih h₂ hi
      refine ⟨ls', bs', fun l hl => ?_, fun b hb => ?_, hg⟩
      · simp [hls hl]
      · simp [hbs hb]

/-- Where all that was seen is still there, the scan goes on to the answer of the world as it is. -/
theorem run_of_follows {m m' : Scan π σ α} (h : Follows view m ls m')
    (hls : ∀ l ∈ ls, view l.2 = see l.1) : m'.run see = m.run see := by
  induction ls generalizing m with
  | nil =>
    simp only [follows_nil] at h
    rw [h]
  | cons l ls ih =>
    cases m with
    | done a => simp at h
    | look p next =>
      simp only [follows_look] at h
      have hseen : view l.2 = see p := h.1 ▸ hls l List.mem_cons_self
      rw [hseen] at h
      have hrest := ih h.2 fun l' hl' => hls l' (List.mem_cons_of_mem l hl')
      simpa using hrest

/-- Looks that agree with the world at the places it would visit agree with it altogether. -/
theorem agrees_of_follows {m m' : Scan π σ α} (h : Follows view m ls m')
    (hls : ∀ l ∈ ls, l.1 ∈ m.visits see → view l.2 = see l.1) :
    ∀ l ∈ ls, view l.2 = see l.1 := by
  induction ls generalizing m with
  | nil => simp
  | cons l ls ih =>
    cases m with
    | done a => simp at h
    | look p next =>
      simp only [follows_look] at h
      have hseen : view l.2 = see p := by
        have := hls l List.mem_cons_self (by simp [h.1])
        rwa [h.1] at this
      rw [hseen] at h
      have hrest := ih h.2 fun l' hl' hv => hls l' (List.mem_cons_of_mem l hl') (by simp [hv])
      simp only [List.mem_cons, forall_eq_or_imp]
      exact ⟨by rw [hseen, h.1], hrest⟩

end Scan

end TedgeDot
