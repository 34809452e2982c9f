import Mathlib.Algebra.Order.BigOperators.Group.List
import Mathlib.Algebra.Order.Ring.Nat
import Mathlib.Data.List.Induction
import TedgeDot.Runtime.Concurrency

/-!
# Requests in flight

The budgets are safe and live. `Inv` holds of every reachable pool: a budget's `inUse` is what the
reads hold or have reserved on it, within its configured value, and a read that sleeps on a budget
finds it exhausted or is about to be woken. From it: nothing is leaked, and the reads that wait
never wait for each other only (`budgets_safe`).
-/

namespace TedgeDot.Concurrency

open Pool

/-! ## What reads hold -/

namespace Phase

/-- The endpoint's requests that a read holds or has reserved. -/
def onEndpoint : Phase → Nat
  | taking .endpoint _ => 0
  | taking .total _ => 1
  | extra held => held
  | extraTotal held => held + 1
  | returning held => held + 1
  | holding held => held
  | dropping _ => 0
  | waking _ next => next.onEndpoint
  | dropped => 0

/-- The total's requests that a read holds. -/
def onTotal : Phase → Nat
  | taking _ _ => 0
  | extra held => held
  | extraTotal held => held
  | returning held => held
  | holding held => held
  | dropping held => held
  | waking _ next => next.onTotal
  | dropped => 0

def Waiting (phase : Phase) : Prop := ∃ stage await, phase = taking stage await

/-- A read past its waits holds a request, and wakes others only after giving back or reporting. -/
def Sound : Phase → Prop
  | taking _ _ => True
  | extra held => 1 ≤ held
  | extraTotal held => 1 ≤ held
  | returning held => 1 ≤ held
  | holding held => 1 ≤ held
  | dropping held => 1 ≤ held
  | waking _ (holding held) => 1 ≤ held
  | waking _ (dropping held) => 1 ≤ held
  | waking _ dropped => True
  | waking _ _ => False
  | dropped => True

end Phase

/-- The requests of the budget `c` that a read holds or has reserved. -/
def Read.held (c : Counter) (r : Read) : Nat :=
  match c with
  | .endpoint e => if r.endpoint = e then r.phase.onEndpoint else 0
  | .total => r.phase.onTotal

theorem Read.held_endpoint {r : Read} {phase : Phase} (h : r.phase.onTotal = phase.onTotal)
    (c : Counter) (hc : c ≠ .endpoint r.endpoint) :
    r.held c = ({ r with phase := phase } : Read).held c := by
  cases c with
  | endpoint e =>
    have hne : r.endpoint ≠ e := fun heq => hc (by rw [← heq])
    simp [Read.held, hne]
  | total => exact h

theorem Read.held_total {r : Read} {phase : Phase} (h : r.phase.onEndpoint = phase.onEndpoint)
    (c : Counter) (hc : c ≠ .total) : r.held c = ({ r with phase := phase } : Read).held c := by
  cases c with
  | endpoint e => simp only [Read.held, h]
  | total => exact absurd rfl hc

theorem Read.held_congr {r : Read} {phase : Phase} (h : r.phase.onEndpoint = phase.onEndpoint)
    (h' : r.phase.onTotal = phase.onTotal) (c : Counter) :
    r.held c = ({ r with phase := phase } : Read).held c := by
  cases c with
  | endpoint e => simp only [Read.held, h]
  | total => exact h'

/-- A read is about to wake those that wait for the budget `c`. -/
def Read.Waking (c : Counter) (r : Read) : Prop :=
  ∃ stage next, r.phase = .waking stage next ∧ r.counter stage = c

/-- The requests of the budget `c` that the reads hold or have reserved. -/
def Pool.held (pool : Pool) (c : Counter) : Nat := (pool.reads.map (Read.held c)).sum

/-! ## The invariant -/

/-- What holds of every reachable pool. `limits` are the configured budgets. -/
structure Inv (limits : Counter → Nat) (pool : Pool) : Prop where
  configured : ∀ c, (pool.budget c).configured = limits c
  limit_pos : ∀ c, 1 ≤ (pool.budget c).limit
  limit_le : ∀ c, (pool.budget c).limit ≤ (pool.budget c).configured
  inUse_le : ∀ c, (pool.budget c).inUse ≤ (pool.budget c).configured
  inUse_eq : ∀ c, (pool.budget c).inUse = pool.held c
  sound : ∀ r ∈ pool.reads, r.phase.Sound
  /-- No wake-up is lost: a read sleeps on an exhausted budget, or one is on its way. -/
  parked : ∀ r ∈ pool.reads, ∀ stage, r.phase = .taking stage (.parked false) →
    (pool.budget (r.counter stage)).limit ≤ (pool.budget (r.counter stage)).inUse ∨
      ∃ r' ∈ pool.reads, r'.Waking (r.counter stage)

/-! ## One read changes -/

theorem sum_map_set {α : Type*} (f : α → Nat) {l : List α} {i : Nat} {a : α} (h : l[i]? = some a)
    (b : α) : ((l.set i b).map f).sum + f a = (l.map f).sum + f b := by
  induction l generalizing i with
  | nil => simp at h
  | cons x l ih =>
    cases i with
    | zero =>
      obtain rfl : x = a := by simpa using h
      simp only [List.set_cons_zero, List.map_cons, List.sum_cons]
      omega
    | succ i =>
      have hrest := ih (i := i) (by simpa using h)
      simp only [List.set_cons_succ, List.map_cons, List.sum_cons]
      omega

section Change

variable {limits : Counter → Nat} {pool : Pool} {i : Nat} {r : Read} {phase : Phase}
  {c : Counter} {b : Budget}

theorem mem_set {l : List Read} {r'' : Read} (h : l[i]? = some r) (hmem : r'' ∈ l) (r' : Read) :
    r'' ∈ l.set i r' ∨ r'' = r := by
  obtain ⟨j, hj⟩ := List.getElem?_of_mem hmem
  by_cases hij : i = j
  · subst hij
    exact Or.inr (Option.some.inj (hj.symm.trans h))
  · left
    apply List.mem_of_getElem? (i := j)
    rw [List.getElem?_set_ne hij, hj]

/-- **A read changes a budget**, and wakes the others if that freed something. -/
theorem Inv.changed (h : Inv limits pool) (hr : pool.reads[i]? = some r)
    (hnot : ∀ stage next, r.phase ≠ .waking stage next)
    (hconfigured : b.configured = (pool.budget c).configured) (hpos : 1 ≤ b.limit) (hle :
      b.limit ≤ b.configured) (huse : b.inUse ≤ b.configured)
    (hheld : b.inUse + r.held c =
      (pool.budget c).inUse + ({ r with phase := phase } : Read).held c)
    (hother : ∀ c', c' ≠ c → r.held c' = ({ r with phase := phase } : Read).held c')
    (hsound : phase.Sound)
    (hparked : ∀ stage, phase = .taking stage (.parked false) →
      (pool.budget (r.counter stage)).limit ≤ (pool.budget (r.counter stage)).inUse)
    (hwake : (b.limit ≤ (pool.budget c).limit ∧ (pool.budget c).inUse ≤ b.inUse) ∨
      ({ r with phase := phase } : Read).Waking c) :
    Inv limits ((pool.setBudget c b).move i r phase) := by
  have hlt := (List.getElem?_eq_some_iff.mp hr).1
  have hnew : ({ r with phase := phase } : Read) ∈
      pool.reads.set i { r with phase := phase } := List.mem_set hlt _
  -- a budget that was exhausted stays so, unless the read wakes those that wait for it
  have hexhausted : ∀ c', (pool.budget c').limit ≤ (pool.budget c').inUse →
      ((pool.setBudget c b).budget c').limit ≤ ((pool.setBudget c b).budget c').inUse ∨
        ({ r with phase := phase } : Read).Waking c' := by
    intro c' hc'
    by_cases hcc : c' = c
    · subst hcc
      rcases hwake with ⟨hlimit, hinUse⟩ | hwaking
      · left
        simp only [setBudget, Function.update_self]
        omega
      · exact Or.inr hwaking
    · left
      simpa only [setBudget, Function.update_of_ne hcc] using hc'
  refine ⟨fun c' => ?_, fun c' => ?_, fun c' => ?_, fun c' => ?_, fun c' => ?_, fun r' hr' => ?_,
    fun r' hr' stage hphase => ?_⟩
  · by_cases hcc : c' = c
    · subst hcc
      simpa only [move, setBudget, Function.update_self] using
        hconfigured.trans (h.configured c')
    · simpa only [move, setBudget, Function.update_of_ne hcc] using h.configured c'
  · by_cases hcc : c' = c
    · subst hcc
      simpa only [move, setBudget, Function.update_self] using hpos
    · simpa only [move, setBudget, Function.update_of_ne hcc] using h.limit_pos c'
  · by_cases hcc : c' = c
    · subst hcc
      simpa only [move, setBudget, Function.update_self] using hle
    · simpa only [move, setBudget, Function.update_of_ne hcc] using h.limit_le c'
  · by_cases hcc : c' = c
    · subst hcc
      simpa only [move, setBudget, Function.update_self] using huse
    · simpa only [move, setBudget, Function.update_of_ne hcc] using h.inUse_le c'
  · have hsum := sum_map_set (Read.held c') hr { r with phase := phase }
    have hbefore := h.inUse_eq c'
    simp only [held] at hbefore ⊢
    by_cases hcc : c' = c
    · subst hcc
      simp only [move, setBudget, Function.update_self]
      omega
    · have hsame := hother c' hcc
      simp only [move, setBudget, Function.update_of_ne hcc]
      omega
  · rcases List.mem_or_eq_of_mem_set hr' with hmem | rfl
    · exact h.sound r' hmem
    · exact hsound
  · rcases List.mem_or_eq_of_mem_set hr' with hmem | rfl
    · rcases h.parked r' hmem stage hphase with hlimit | ⟨r'', hmem'', hwaking⟩
      · rcases hexhausted _ hlimit with hstill | hwakes
        · exact Or.inl hstill
        · exact Or.inr ⟨_, hnew, hwakes⟩
      · -- the one about to wake is not the read that changed
        right
        rcases mem_set hr hmem'' { r with phase := phase } with hmem' | rfl
        · exact ⟨r'', hmem', hwaking⟩
        · obtain ⟨stage', next, hw, -⟩ := hwaking
          exact absurd hw (hnot stage' next)
    · rcases hexhausted _ (hparked stage hphase) with hstill | hwakes
      · exact Or.inl hstill
      · exact Or.inr ⟨_, hnew, hwakes⟩

theorem Inv.moved (h : Inv limits pool) (hr : pool.reads[i]? = some r)
    (hnot : ∀ stage next, r.phase ≠ .waking stage next)
    (hheld : ∀ c, r.held c = ({ r with phase := phase } : Read).held c) (hsound : phase.Sound)
    (hparked : ∀ stage, phase = .taking stage (.parked false) →
      (pool.budget (r.counter stage)).limit ≤ (pool.budget (r.counter stage)).inUse) :
    Inv limits (pool.move i r phase) := by
  have hchanged := h.changed (c := .total) (b := pool.budget .total) hr hnot rfl (h.limit_pos _)
    (h.limit_le _) (h.inUse_le _) (by rw [hheld]) (fun c' _ => hheld c') hsound hparked
    (Or.inl ⟨Nat.le_refl _, Nat.le_refl _⟩)
  rwa [setBudget, Function.update_eq_self] at hchanged

/-! ### Waking -/

theorem notify_held (c c' : Counter) (r : Read) : (r.notify c').held c = r.held c := by
  obtain ⟨endpoint, wanted, phase⟩ := r
  unfold Read.notify
  dsimp only
  split <;> cases c <;> rename_i stage _ _ <;> first | rfl | (cases stage <;> rfl)

theorem notify_sound (c : Counter) {r : Read} (h : r.phase.Sound) : (r.notify c).phase.Sound := by
  unfold Read.notify
  split
  · trivial
  · trivial
  · exact h

theorem notify_waking {c : Counter} {r : Read} (h : r.Waking c) (c' : Counter) :
    r.notify c' = r := by
  obtain ⟨stage, next, hphase, -⟩ := h
  unfold Read.notify
  rw [hphase]

theorem notify_parked {c : Counter} {r : Read} {stage : Stage}
    (h : (r.notify c).phase = .taking stage (.parked false)) :
    r.phase = .taking stage (.parked false) ∧ r.counter stage ≠ c ∧
      (r.notify c).counter stage = r.counter stage := by
  unfold Read.notify at h ⊢
  split at h
  · simp at h
  · rename_i stage' n hphase
    simp only [Phase.taking.injEq, Await.parked.injEq, Bool.or_eq_false_iff, beq_eq_false_iff_ne]
      at h
    obtain ⟨rfl, rfl, hne⟩ := h
    simp only [hphase]
    exact ⟨trivial, hne, by cases stage' <;> rfl⟩
  · rename_i hnot
    exact absurd h (hnot stage false)

/-- Waking the waiters changes no budget. -/
theorem Inv.woken (h : Inv limits pool) (hr : pool.reads[i]? = some r) {stage : Stage} {next : Phase}
    (hphase : r.phase = .waking stage next) :
    Inv limits ((pool.move i r next).notifyWaiters (r.counter stage)) := by
  have hmem := List.mem_of_getElem? hr
  have hsound := h.sound r hmem
  rw [hphase] at hsound
  have hnext : next.Sound ∧ ¬ next.Waiting := by
    cases next <;> simp_all [Phase.Sound, Phase.Waiting]
  refine ⟨h.configured, h.limit_pos, h.limit_le, h.inUse_le, fun c => ?_, fun r' hr' => ?_,
    fun r' hr' stage' hparked => ?_⟩
  · have hsum := sum_map_set (Read.held c) hr { r with phase := next }
    -- a reader that wakes holds what it held
    have hsame : ({ r with phase := next } : Read).held c = r.held c := by
      cases c <;> simp [Read.held, hphase, Phase.onEndpoint, Phase.onTotal]
    rw [hsame] at hsum
    have hbefore := h.inUse_eq c
    simp only [held] at hbefore ⊢
    have hsame : Read.held c ∘ Read.notify (r.counter stage) = Read.held c :=
      funext (notify_held c _)
    simp only [notifyWaiters, move, List.map_map, hsame]
    omega
  · obtain ⟨r₀, hr₀, rfl⟩ := List.mem_map.mp hr'
    apply notify_sound
    rcases List.mem_or_eq_of_mem_set hr₀ with hmem₀ | rfl
    · exact h.sound r₀ hmem₀
    · exact hnext.1
  · obtain ⟨r₀, hr₀, rfl⟩ := List.mem_map.mp hr'
    obtain ⟨hsleeps, hne, hcounter⟩ := notify_parked hparked
    rw [hcounter]
    rcases List.mem_or_eq_of_mem_set hr₀ with hmem₀ | rfl
    · rcases h.parked r₀ hmem₀ stage' hsleeps with hlimit | ⟨r'', hmem'', hwaking⟩
      · exact Or.inl hlimit
      · right
        rcases mem_set hr hmem'' { r with phase := next } with hmem' | rfl
        · refine ⟨r'', ?_, hwaking⟩
          rw [← notify_waking hwaking (r.counter stage)]
          exact List.mem_map_of_mem hmem'
        · -- this read wakes another budget
          obtain ⟨stage'', next'', hphase'', hcounter''⟩ := hwaking
          rw [hphase] at hphase''
          obtain ⟨rfl, rfl⟩ := Phase.waking.inj hphase''
          exact absurd hcounter''.symm hne
    · exact absurd ⟨_, _, hsleeps⟩ hnext.2

end Change

/-! ## What the operations on a budget do -/

namespace Budget

variable {b b' : Budget}

theorem tryTake_some (h : b.tryTake = some b') :
    b.inUse < b.limit ∧ b' = { b with inUse := b.inUse + 1 } := by
  unfold tryTake at h
  split at h
  · rename_i hfree
    exact ⟨hfree, (Option.some.inj h).symm⟩
  · cases h

theorem tryTake_none (h : b.tryTake = none) : b.limit ≤ b.inUse := by
  unfold tryTake at h
  split at h
  · cases h
  · omega

/-- What a module's report may do to a budget: it moves the limit only, and raises it only when
it wakes those that wait. -/
structure Reports (b b' : Budget) (wakes : Bool) : Prop where
  configured : b'.configured = b.configured
  inUse : b'.inUse = b.inUse
  limit_pos : 1 ≤ b.limit → 1 ≤ b'.limit
  limit_le : 1 ≤ b.limit → b.limit ≤ b.configured → b'.limit ≤ b'.configured
  lowers : wakes = false → 1 ≤ b.limit → b'.limit ≤ b.limit

theorem reports_refl (b : Budget) : Reports b b false :=
  ⟨rfl, rfl, id, fun _ => id, fun _ _ => Nat.le_refl _⟩

theorem backOff_reports (b : Budget) : Reports b b.backOff false := by
  unfold backOff
  split
  · exact reports_refl b
  · refine ⟨rfl, rfl, fun _ => ?_, fun hpos hle => ?_, fun _ hpos => ?_⟩ <;> dsimp only <;> omega

theorem success_reports (b : Budget) : Reports b b.success.1 b.success.2 := by
  unfold success
  split
  · exact reports_refl b
  · rename_i hlow
    split
    · exact ⟨rfl, rfl, fun _ => by dsimp only; omega, fun _ _ => by dsimp only; omega, by simp⟩
    · exact ⟨rfl, rfl, id, fun _ => id, fun _ _ => Nat.le_refl _⟩

end Budget

/-! ## Every step keeps the invariant -/

section Steps

variable {limits : Counter → Nat} {pool pool' : Pool} {i : Nat} {r : Read}

theorem Inv.took (h : Inv limits pool) (hr : pool.reads[i]? = some r) {c : Counter} {b : Budget}
    (hb : (pool.budget c).tryTake = some b) (hnot : ∀ stage next, r.phase ≠ .waking stage next)
    {phase : Phase} (hheld : ({ r with phase := phase } : Read).held c = r.held c + 1)
    (hother : ∀ c', c' ≠ c → r.held c' = ({ r with phase := phase } : Read).held c')
    (hsound : phase.Sound) (hphase : ∀ stage n, phase ≠ .taking stage (.parked n)) :
    Inv limits ((pool.setBudget c b).move i r phase) := by
  obtain ⟨hfree, rfl⟩ := Budget.tryTake_some hb
  have hle := h.limit_le c
  refine h.changed hr hnot rfl (h.limit_pos c) hle (by dsimp only; omega) (by dsimp only; omega) hother
    hsound (fun stage heq => absurd heq (hphase stage false)) (Or.inl ⟨Nat.le_refl _, ?_⟩)
  exact Nat.le_succ _

theorem Inv.held_le (h : Inv limits pool) (hr : pool.reads[i]? = some r) (c : Counter) :
    r.held c ≤ (pool.budget c).inUse := by
  rw [h.inUse_eq c]
  exact List.single_le_sum (by simp) _ (List.mem_map_of_mem (List.mem_of_getElem? hr))

/-- What a read gives back is free again. -/
theorem Inv.gave (h : Inv limits pool) (hr : pool.reads[i]? = some r) (stage : Stage) {n : Nat}
    (hn : 1 ≤ n) (hnot : ∀ stage next, r.phase ≠ .waking stage next) {next : Phase}
    (hheld : ({ r with phase := next } : Read).held (r.counter stage) + n =
      r.held (r.counter stage))
    (hother : ∀ c', c' ≠ r.counter stage → r.held c' = ({ r with phase := next } : Read).held c')
    (hsound : (Phase.waking stage next).Sound) :
    Inv limits ((pool.setBudget (r.counter stage) ((pool.budget (r.counter stage)).giveBack n)).move
      i r
      (afterGiveBack stage n next)) := by
  have hle := h.held_le hr (r.counter stage)
  have huse := h.inUse_le (r.counter stage)
  have hwaking : afterGiveBack stage n next = .waking stage next := if_neg (by omega)
  have hnext : ∀ c, ({ r with phase := .waking stage next } : Read).held c =
      ({ r with phase := next } : Read).held c := by
    intro c
    cases c <;> rfl
  rw [hwaking]
  refine h.changed hr hnot rfl (h.limit_pos _) (h.limit_le _) ?_ ?_ (fun c' hc' => ?_) hsound
    (fun stage' heq => by cases heq) (Or.inr ⟨stage, next, rfl, by cases stage <;> rfl⟩)
  · dsimp only [Budget.giveBack]
    omega
  · rw [hnext]
    dsimp only [Budget.giveBack]
    omega
  · rw [hnext]
    exact hother c' hc'

/-- A report of success or failure changes a limit at most. -/
theorem Inv.reported (h : Inv limits pool) {f : Budget → Budget × Bool}
    (hf : ∀ b, Budget.Reports b (f b).1 (f b).2) (hstep : pool.report i f = some pool') :
    Inv limits pool' := by
  unfold report at hstep
  split at hstep
  · rename_i r hr
    split at hstep
    · rename_i held hphase
      obtain rfl := Option.some.inj hstep
      have hreports := hf (pool.budget (.endpoint r.endpoint))
      generalize f (pool.budget (.endpoint r.endpoint)) = fb at hreports ⊢
      obtain ⟨b, wakes⟩ := fb
      have hsound := h.sound r (List.mem_of_getElem? hr)
      rw [hphase] at hsound
      have hsame : ∀ c, ({ r with phase := (if wakes then .waking .endpoint (.holding held)
          else .holding held) } : Read).held c = r.held c := by
        intro c
        cases wakes <;> cases c <;> simp [Read.held, hphase, Phase.onEndpoint, Phase.onTotal]
      refine h.changed hr (by simp [hphase]) hreports.configured (hreports.limit_pos (h.limit_pos _))
        (hreports.limit_le (h.limit_pos _) (h.limit_le _)) ?_ ?_ (fun c' _ => (hsame c').symm) ?_ ?_ ?_
      · rw [hreports.inUse, hreports.configured]
        exact h.inUse_le _
      · rw [hsame, hreports.inUse]
      · cases wakes <;> exact hsound
      · cases wakes <;> simp
      · cases wakes with
        | false =>
          exact Or.inl ⟨hreports.lowers rfl (h.limit_pos _), Nat.le_of_eq hreports.inUse.symm⟩
        | true => exact Or.inr ⟨.endpoint, .holding held, rfl, rfl⟩
    · cases hstep
  · cases hstep

theorem Inv.drops (h : Inv limits pool) (hstep : pool.drop i = some pool') : Inv limits pool' := by
  unfold drop at hstep
  split at hstep
  · rename_i r hr
    split at hstep
    · rename_i held hphase
      obtain rfl := Option.some.inj hstep
      have hsound := h.sound r (List.mem_of_getElem? hr)
      rw [hphase] at hsound
      refine h.gave hr .endpoint hsound (by simp [hphase]) ?_ (Read.held_endpoint ?_) hsound
      · simp [Read.held, Read.counter, hphase, Phase.onEndpoint]
      · rw [hphase]; rfl
    · cases hstep
  · cases hstep

/-- A read's own step keeps the account. -/
theorem Inv.advanced (h : Inv limits pool) (hr : pool.reads[i]? = some r)
    (hstep : pool.advance i r = some pool') : Inv limits pool' := by
  have hsound := h.sound r (List.mem_of_getElem? hr)
  unfold advance at hstep
  split at hstep
  case h_1 stage hphase =>
    obtain rfl := Option.some.inj hstep
    refine h.moved hr (by simp [hphase]) (Read.held_congr ?_ ?_) trivial (by simp)
    · rw [hphase]; cases stage <;> rfl
    · rw [hphase]; cases stage <;> rfl
  case h_2 stage notified hphase =>
    split at hstep
    · -- the wait is over
      rename_i b hb
      obtain rfl := Option.some.inj hstep
      cases stage with
      | endpoint =>
        refine h.took hr hb (by simp [hphase]) ?_ (Read.held_endpoint ?_) trivial (by simp)
        · simp [Read.held, Read.counter, hphase, Phase.onEndpoint]
        · rw [hphase]; rfl
      | total =>
        refine h.took hr hb (by simp [hphase]) ?_ (Read.held_total ?_) (Nat.le_refl 1) (by simp)
        · simp [Read.held, Read.counter, hphase, Phase.onTotal]
        · rw [hphase]; rfl
    · -- there is none: the read sleeps until it is notified
      rename_i hb
      obtain rfl := Option.some.inj hstep
      refine h.moved hr (by simp [hphase]) (Read.held_congr ?_ ?_) trivial fun stage' heq => ?_
      · rw [hphase]; cases stage <;> rfl
      · rw [hphase]; cases stage <;> rfl
      · obtain ⟨rfl, -⟩ := Phase.taking.inj heq
        exact Budget.tryTake_none hb
  case h_3 stage notified hphase =>
    split at hstep
    · obtain rfl := Option.some.inj hstep
      refine h.moved hr (by simp [hphase]) (Read.held_congr ?_ ?_) trivial (by simp)
      · rw [hphase]; cases stage <;> rfl
      · rw [hphase]; cases stage <;> rfl
    · cases hstep
  case h_4 held hphase =>
    rw [hphase] at hsound
    -- the read goes on with what it has
    have hdone : Inv limits (pool.move i r (.holding held)) :=
      h.moved hr (by simp [hphase]) (Read.held_congr (by rw [hphase]; rfl) (by rw [hphase]; rfl))
        hsound (by simp)
    split at hstep
    · split at hstep
      · rename_i b hb
        obtain rfl := Option.some.inj hstep
        refine h.took hr hb (by simp [hphase]) ?_ (Read.held_endpoint ?_) hsound (by simp)
        · simp [Read.held, hphase, Phase.onEndpoint]
        · rw [hphase]; rfl
      · obtain rfl := Option.some.inj hstep
        exact hdone
    · obtain rfl := Option.some.inj hstep
      exact hdone
  case h_5 held hphase =>
    rw [hphase] at hsound
    split at hstep
    · rename_i b hb
      obtain rfl := Option.some.inj hstep
      refine h.took hr hb (by simp [hphase]) ?_ (Read.held_total ?_) (Nat.le_add_left 1 held)
        (by simp)
      · simp [Read.held, hphase, Phase.onTotal]
      · rw [hphase]; rfl
    · obtain rfl := Option.some.inj hstep
      refine h.moved hr (by simp [hphase]) (Read.held_congr ?_ ?_) hsound (by simp)
      · rw [hphase]; rfl
      · rw [hphase]; rfl
  case h_6 held hphase =>
    rw [hphase] at hsound
    obtain rfl := Option.some.inj hstep
    refine h.gave hr .endpoint (Nat.le_refl 1) (by simp [hphase]) ?_ (Read.held_endpoint ?_) hsound
    · simp [Read.held, Read.counter, hphase, Phase.onEndpoint]
    · rw [hphase]; rfl
  case h_7 held hphase => cases hstep
  case h_8 held hphase =>
    rw [hphase] at hsound
    obtain rfl := Option.some.inj hstep
    refine h.gave hr .total hsound (by simp [hphase]) ?_ (Read.held_total ?_) trivial
    · simp [Read.held, Read.counter, hphase, Phase.onTotal]
    · rw [hphase]; rfl
  case h_9 stage next hphase =>
    obtain rfl := Option.some.inj hstep
    exact h.woken hr hphase
  case h_10 hphase => cases hstep

theorem Inv.started (h : Inv limits pool) (e wanted : Nat) :
    Inv limits { pool with reads := pool.reads ++
      [{ endpoint := e, wanted := wanted, phase := .taking .endpoint .loop }] } := by
  refine ⟨h.configured, h.limit_pos, h.limit_le, h.inUse_le, fun c => ?_, fun r hr => ?_,
    fun r hr stage hphase => ?_⟩
  · have hbefore := h.inUse_eq c
    simp only [held] at hbefore ⊢
    rw [List.map_append, List.sum_append, hbefore]
    cases c <;> simp [Read.held, Phase.onEndpoint, Phase.onTotal]
  · rcases List.mem_append.mp hr with hr | hr
    · exact h.sound r hr
    · rw [List.mem_singleton.mp hr]
      trivial
  · rcases List.mem_append.mp hr with hr | hr
    · rcases h.parked r hr stage hphase with hlimit | ⟨r', hr', hwaking⟩
      · exact Or.inl hlimit
      · exact Or.inr ⟨r', List.mem_append_left _ hr', hwaking⟩
    · rw [List.mem_singleton.mp hr] at hphase
      cases hphase

/-- So does every step of the pool. -/
theorem Inv.act (h : Inv limits pool) {a : Act} (hstep : pool.act a = some pool') :
    Inv limits pool' := by
  cases a with
  | start index wanted =>
    obtain ⟨e, -, rfl⟩ := Option.map_eq_some_iff.mp hstep
    exact h.started e wanted
  | advance i =>
    obtain ⟨r, hr, hadvance⟩ := Option.bind_eq_some_iff.mp hstep
    exact h.advanced hr hadvance
  | ok i => exact h.reported Budget.success_reports hstep
  | busy i =>
    have hstep : pool.report i (fun b => (b.backOff, false)) = some pool' := hstep
    exact h.reported Budget.backOff_reports hstep
  | timedOut i othersInFlight =>
    have hstep : pool.report i (fun b => (if othersInFlight then b.backOff else b, false)) =
      some pool' := hstep
    refine h.reported (fun b => ?_) hstep
    cases othersInFlight with
    | true => exact Budget.backOff_reports b
    | false => exact Budget.reports_refl b
  | drop i => exact h.drops hstep

end Steps

/-! ## Nobody waits for nothing -/

/-- A read that does not wait and holds requests, which it can give back, or has just given some
back and is about to wake those that wait. -/
def Read.GivesBack (r : Read) : Prop := ¬ r.phase.Waiting ∧ ∃ c, 0 < r.held c ∨ r.Waking c

section Live

variable {limits : Counter → Nat} {pool : Pool} {i : Nat} {r : Read}

theorem parked_of_stuck (hr : pool.reads[i]? = some r) {stage : Stage} {await : Await}
    (hphase : r.phase = .taking stage await) (hstuck : pool.act (.advance i) = none) :
    await = .parked false := by
  simp only [act, hr, Option.bind_some, advance, hphase] at hstuck
  cases await with
  | loop => cases hstuck
  | armed notified =>
    dsimp only at hstuck
    split at hstuck <;> cases hstuck
  | parked notified =>
    cases notified with
    | false => rfl
    | true => cases hstuck

theorem Inv.exists_held (h : Inv limits pool) {c : Counter}
    (hlimit : (pool.budget c).limit ≤ (pool.budget c).inUse) : ∃ r ∈ pool.reads, 0 < r.held c := by
  by_contra hnone
  have hzero : pool.held c = 0 := by
    apply List.sum_eq_zero
    intro n hn
    obtain ⟨r, hr, rfl⟩ := List.mem_map.mp hn
    by_contra hne
    exact hnone ⟨r, hr, Nat.pos_of_ne_zero hne⟩
  have hpos := h.limit_pos c
  have huse := h.inUse_eq c
  omega

theorem Read.Waking.givesBack {c : Counter} (h : r.Waking c) : r.GivesBack := by
  obtain ⟨stage, next, hphase, hcounter⟩ := h
  refine ⟨?_, c, Or.inr ⟨stage, next, hphase, hcounter⟩⟩
  rintro ⟨stage', await, hwaiting⟩
  rw [hphase] at hwaiting
  cases hwaiting

theorem Inv.live_total (h : Inv limits pool) (hmem : r ∈ pool.reads)
    (hphase : r.phase = .taking .total (.parked false)) : ∃ r' ∈ pool.reads, r'.GivesBack := by
  rcases h.parked r hmem .total hphase with hlimit | ⟨r', hmem', hwaking⟩
  · obtain ⟨r', hmem', hheld⟩ := h.exists_held hlimit
    refine ⟨r', hmem', ?_, .total, Or.inl hheld⟩
    rintro ⟨stage, await, hwaiting⟩
    simp [Read.held, Read.counter, hwaiting, Phase.onTotal] at hheld
  · exact ⟨r', hmem', hwaking.givesBack⟩

/-- **No deadlock**: when reads wait, one of them can take a step, or another can give back. -/
theorem Inv.live (h : Inv limits pool) (hmem : r ∈ pool.reads) (hwaiting : r.phase.Waiting) :
    (∃ i r', pool.reads[i]? = some r' ∧ r'.phase.Waiting ∧
      (pool.act (.advance i)).isSome) ∨ ∃ r' ∈ pool.reads, r'.GivesBack := by
  by_contra hnot
  rw [not_or] at hnot
  obtain ⟨hstuck, hnone⟩ := hnot
  -- every read that waits sleeps
  have hsleeps : ∀ r' ∈ pool.reads, ∀ stage await, r'.phase = .taking stage await →
      await = .parked false := by
    intro r' hmem' stage await hphase
    obtain ⟨j, hj⟩ := List.getElem?_of_mem hmem'
    refine parked_of_stuck hj hphase (Option.not_isSome_iff_eq_none.mp fun hsome => ?_)
    exact hstuck ⟨j, r', hj, ⟨stage, await, hphase⟩, hsome⟩
  obtain ⟨stage, await, hphase⟩ := hwaiting
  obtain rfl := hsleeps r hmem stage await hphase
  cases stage with
  | total => exact hnone (h.live_total hmem hphase)
  | endpoint =>
    rcases h.parked r hmem .endpoint hphase with hlimit | ⟨r', hmem', hwaking⟩
    · obtain ⟨r', hmem', hheld⟩ := h.exists_held hlimit
      by_cases hwaiting' : r'.phase.Waiting
      · -- a request of the endpoint is reserved by a read that waits for the total
        obtain ⟨stage', await', hphase'⟩ := hwaiting'
        obtain rfl := hsleeps r' hmem' stage' await' hphase'
        cases stage' with
        | total => exact hnone (h.live_total hmem' hphase')
        | endpoint => simp [Read.held, Read.counter, hphase', Phase.onEndpoint] at hheld
      · exact hnone ⟨r', hmem', hwaiting', _, Or.inl hheld⟩
    · exact hnone ⟨r', hmem', hwaking.givesBack⟩

end Live

/-! ## From any configuration -/

theorem configured_pos {value : Option Int} {n : Nat} (h : configured value = some n) : 1 ≤ n := by
  obtain ⟨m, -, hm⟩ := Option.bind_eq_some_iff.mp h
  split at hm
  · obtain rfl := Option.some.inj hm
    omega
  · cases hm

theorem getD_configured_pos (value : Option Int) {default : Nat} (h : 1 ≤ default) :
    1 ≤ (configured value).getD default := by
  cases hvalue : configured value with
  | none => exact h
  | some n => exact configured_pos hvalue

theorem addDevice_pos (endpointOf : String → Option (String × Option Nat)) {default : Nat}
    (hdefault : 1 ≤ default) {table : List EndpointEntry} (h : ∀ e ∈ table, 1 ≤ e.wanted)
    (device : DeviceSettings) : ∀ e ∈ addDevice endpointOf default table device, 1 ≤ e.wanted := by
  have hwanted := getD_configured_pos device.maxInflight hdefault
  intro e he
  unfold addDevice at he
  dsimp only at he
  split at he
  · obtain ⟨e', he', rfl⟩ := List.mem_map.mp he
    have hpos := h e' he'
    split
    · dsimp only
      omega
    · exact hpos
  · rcases List.mem_append.mp he with he | he
    · exact h e he
    · rw [List.mem_singleton.mp he]
      exact hwanted

/-- A budget as `Budget::new` makes it. -/
structure Budget.Fresh (b : Budget) : Prop where
  pos : 1 ≤ b.configured
  limit : b.limit = b.configured
  inUse : b.inUse = 0

theorem EndpointEntry.budget_fresh {e : EndpointEntry} (h : 1 ≤ e.wanted) : e.budget.Fresh := by
  refine ⟨?_, rfl, rfl⟩
  unfold EndpointEntry.budget Budget.new
  dsimp only
  cases e.cap with
  | none => exact h
  | some c =>
    dsimp only
    omega

/-- New budgets have nothing in use. -/
theorem start_fresh (config : Settings) (endpointOf : String → Option (String × Option Nat))
    (c : Counter) : ((start (Budgets.new config endpointOf)).budget c).Fresh := by
  cases c with
  | total => exact ⟨getD_configured_pos _ (by decide), rfl, rfl⟩
  | endpoint e =>
    have hdefault : 1 ≤ (configured config.maxInflight).getD DEFAULT_MAX_INFLIGHT :=
      getD_configured_pos _ (by decide)
    have htable : ∀ devices : List DeviceSettings, ∀ e ∈ devices.foldl
        (addDevice endpointOf ((configured config.maxInflight).getD DEFAULT_MAX_INFLIGHT)) [],
        1 ≤ e.wanted := by
      intro devices
      induction devices using List.reverseRecOn with
      | nil => simp
      | append_singleton devices device ih =>
        rw [List.foldl_append]
        exact addDevice_pos endpointOf hdefault ih device
    have hall : ∀ b ∈ (Budgets.new config endpointOf).endpoints, b.Fresh := by
      intro b hb
      obtain ⟨entry, hentry, rfl⟩ := List.mem_map.mp hb
      exact EndpointEntry.budget_fresh (htable _ entry hentry)
    simp only [start, List.getD_eq_getElem?_getD]
    cases hget : (Budgets.new config endpointOf).endpoints[e]? with
    | none => exact ⟨Nat.le_refl 1, rfl, rfl⟩
    | some b => exact hall b (List.mem_of_getElem? hget)

def configuredBudget (b : Budgets) (c : Counter) : Nat := ((start b).budget c).configured

theorem inv_start {b : Budgets} (h : ∀ c, ((start b).budget c).Fresh) :
    Inv (configuredBudget b) (start b) := by
  refine ⟨fun _ => rfl, fun c => ?_, fun c => ?_, fun c => ?_, fun c => ?_, by simp [start],
    by simp [start]⟩
  · rw [(h c).limit]; exact (h c).pos
  · rw [(h c).limit]
  · rw [(h c).inUse]; exact Nat.zero_le _
  · rw [(h c).inUse]; rfl

theorem inv_reachable {b : Budgets} (hb : ∀ c, ((start b).budget c).Fresh) {pool : Pool}
    (h : Reachable b pool) : Inv (configuredBudget b) pool := by
  induction h with
  | start => exact inv_start hb
  | act a _ hstep ih => exact ih.act hstep

/-- What a read gives back next, and of which budget. -/
def Read.returns (r : Read) : Option (Counter × Nat) :=
  match r.phase with
  | .returning _ => some (.endpoint r.endpoint, 1)
  | .holding held => some (.endpoint r.endpoint, held)
  | .dropping held => some (.total, held)
  | _ => none

theorem Read.returns_le {r : Read} {c : Counter} {n : Nat} (h : r.returns = some (c, n)) :
    n ≤ r.held c := by
  unfold Read.returns at h
  split at h
  · rename_i held hphase
    obtain ⟨rfl, rfl⟩ := Prod.mk.inj (Option.some.inj h)
    simp [Read.held, hphase, Phase.onEndpoint]
  · rename_i held hphase
    obtain ⟨rfl, rfl⟩ := Prod.mk.inj (Option.some.inj h)
    simp [Read.held, hphase, Phase.onEndpoint]
  · rename_i held hphase
    obtain ⟨rfl, rfl⟩ := Prod.mk.inj (Option.some.inj h)
    simp [Read.held, hphase, Phase.onTotal]
  · cases h

/-- **What the budgets promise** of a pool. -/
structure SafeAndLive (b : Budgets) (pool : Pool) : Prop where
  limit : ∀ c, 1 ≤ (pool.budget c).limit ∧ (pool.budget c).limit ≤ configuredBudget b c
  inUse : ∀ c, (pool.budget c).inUse = pool.held c ∧ (pool.budget c).inUse ≤ configuredBudget b c
  /-- Giving back never saturates. -/
  returns : ∀ r ∈ pool.reads, ∀ c n, r.returns = some (c, n) → n ≤ (pool.budget c).inUse
  /-- Nothing is leaked. -/
  dropped : (∀ r ∈ pool.reads, r.phase = .dropped) → ∀ c, (pool.budget c).inUse = 0
  /-- When reads wait, one of them can take a step, or another can give back. -/
  live : ∀ r ∈ pool.reads, r.phase.Waiting →
    (∃ i r', pool.reads[i]? = some r' ∧ r'.phase.Waiting ∧ (pool.act (.advance i)).isSome) ∨
      ∃ r' ∈ pool.reads, r'.GivesBack

/-- **The budgets are safe and live**, in every interleaving of the reads of any configuration. -/
theorem budgets_safe (config : Settings) (endpointOf : String → Option (String × Option Nat))
    {pool : Pool} (h : Reachable (Budgets.new config endpointOf) pool) :
    SafeAndLive (Budgets.new config endpointOf) pool := by
  have hinv := inv_reachable (start_fresh config endpointOf) h
  refine ⟨fun c => ⟨hinv.limit_pos c, ?_⟩, fun c => ⟨hinv.inUse_eq c, ?_⟩,
    fun r hr c n hreturns => ?_, fun hdropped c => ?_, fun r hr hwaiting => hinv.live hr hwaiting⟩
  · rw [← hinv.configured c]
    exact hinv.limit_le c
  · rw [← hinv.configured c]
    exact hinv.inUse_le c
  · obtain ⟨i, hi⟩ := List.getElem?_of_mem hr
    exact (Read.returns_le hreturns).trans (hinv.held_le hi c)
  · rw [hinv.inUse_eq c]
    apply List.sum_eq_zero
    intro n hn
    obtain ⟨r, hr, rfl⟩ := List.mem_map.mp hn
    cases c <;> simp [Read.held, hdropped r hr, Phase.onEndpoint, Phase.onTotal]

theorem reachable_foldlM {b : Budgets} {pool pool' : Pool} (h : Reachable b pool) {acts : List Act}
    (hrun : acts.foldlM act pool = some pool') : Reachable b pool' := by
  induction acts generalizing pool with
  | nil =>
    obtain rfl := Option.some.inj hrun
    exact h
  | cons a acts ih =>
    rw [List.foldlM_cons] at hrun
    obtain ⟨mid, hstep, hrest⟩ := Option.bind_eq_some_iff.mp hrun
    exact ih (h.act a hstep) hrest

/-- One device, whose endpoint allows one request. -/
def oneDevice : Settings :=
  { maxInflight := some 1
    maxInflightTotal := none
    devices := [{ name := "plc", maxInflight := none }] }

/-- A read that holds the only request, and a second one that sleeps. -/
def twoReads : List Act :=
  [.start 0 1, .advance 0, .advance 0, .advance 0, .advance 0, .advance 0, .start 0 1, .advance 1,
    .advance 1]

/-- A read that waits while another is served. -/
theorem budgets_safe_sleeping :
    ∃ pool, twoReads.foldlM act (start (Budgets.new oneDevice fun _ => none)) =
        some pool ∧
      pool.reads.map Read.phase = [.holding 1, .taking .endpoint (.parked false)] ∧
      SafeAndLive (Budgets.new oneDevice fun _ => none) pool :=
  ⟨_, rfl, by decide, budgets_safe oneDevice (fun _ => none)
    (reachable_foldlM .start (show twoReads.foldlM act _ = some _ from rfl))⟩

end TedgeDot.Concurrency
