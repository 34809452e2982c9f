import Mathlib.Data.List.Chain
import TedgeDot.Report.Order

/-!
# Live runs and the rate limit

A live run has `offer` and `due` calls only, so the point stays on the runtime clock. Under an
effective policy with a `min_interval`, two consecutive publications of one quality are at least
that interval apart, whichever of the four publishing paths each came from (`rate_limit`).
-/

namespace TedgeDot.Report

open Machine ReportState

universe u

variable {α : Type u}

/-! ## Live runs -/

inductive LiveOp (α : Type u) where
  | offer (r : Reading α) (now : Nat)
  | due (now : Nat) (pushed : Bool)

namespace LiveOp

def toOp : LiveOp α → Op α
  | .offer r now => .offer r now
  | .due now pushed => .due now pushed

def time : LiveOp α → Nat
  | .offer _ now => now
  | .due now _ => now

end LiveOp

def liveStep (st : ReportState (Reading α)) (op : LiveOp α) : ReportState (Reading α) × Out α :=
  step st op.toOp

/-- The readings a live run published, each with the time of the call that published it. -/
def publications (es : List (LiveOp α × Out α)) : List (Nat × Reading α) :=
  es.flatMap fun e => e.2.published.map fun r => (e.1.time, r)

@[simp] theorem publications_nil : publications ([] : List (LiveOp α × Out α)) = [] := rfl

@[simp] theorem publications_cons (e : LiveOp α × Out α) (es : List (LiveOp α × Out α)) :
    publications (e :: es) = e.2.published.map (fun r => (e.1.time, r)) ++ publications es := rfl

namespace ReportState

variable {T : Type u}

theorem offer_of_runtime {st : ReportState T} (h : st.clock = .runtime) (item : T) (obs : Obs)
    (q : Quality) (now : Nat) : st.offer item obs q now = st.offerAt item obs q now := by
  simp [offer, h]

theorem due_of_runtime {st : ReportState T} (h : st.clock = .runtime) (now : Nat)
    (pushed : Bool) : st.due now pushed = st.dueLive now pushed := by
  simp [due, h]

theorem offerAt_frame (st : ReportState T) (item : T) (obs : Obs) (q : Quality) (now : Nat) :
    (st.offerAt item obs q now).1.policy = st.policy ∧
      (st.offerAt item obs q now).1.clock = st.clock ∧
      (st.offerAt item obs q now).1.origin = st.origin := by
  have hspec := st.offerAt_spec item obs q now
  generalize st.offerAt item obs q now = r at hspec
  cases hspec with
  | published | dropped | held | debouncing => exact ⟨rfl, rfl, rfl⟩

theorem release_frame (st : ReportState T) (now : Nat) :
    (st.release now).1.policy = st.policy ∧ (st.release now).1.clock = st.clock ∧
      (st.release now).1.origin = st.origin := by
  have hspec := st.release_spec now
  generalize st.release now = r at hspec
  cases hspec with
  | idle | pending | stale | candidate | held | dropped => exact ⟨rfl, rfl, rfl⟩

end ReportState

theorem liveStep_frame {st : ReportState (Reading α)} (h : st.clock = .runtime)
    (op : LiveOp α) :
    (liveStep st op).1.policy = st.policy ∧ (liveStep st op).1.clock = .runtime := by
  cases op with
  | offer r now =>
    obtain ⟨hp, hc, -⟩ := st.offerAt_frame r r.obs r.quality now
    simp only [liveStep, LiveOp.toOp, step, offer_of_runtime h]
    exact ⟨hp, hc.trans h⟩
  | due now pushed =>
    obtain ⟨hp, hc, -⟩ := st.release_frame now
    obtain ⟨lr, hr⟩ := (st.release now).1.heartbeatRead_fst now pushed
    simp only [liveStep, LiveOp.toOp, step, due_of_runtime h, dueLive, hr]
    exact ⟨hp, hc.trans h⟩

/-! ## The rate limit -/

/-- Two publications in a row: at least `m` apart, or of different qualities. -/
def Apart (m : Nat) (a b : Nat × Reading α) : Prop :=
  a.2.quality = b.2.quality → a.1 + m ≤ b.1

/-- What a state knows of the last publication `p`, if there was one. -/
structure Follows (p : Option (Nat × Reading α)) (st : ReportState (Reading α)) : Prop where
  clock : st.clock = .runtime
  remembers : Remembers (p.map Prod.snd).toList st
  published : ∀ x, p = some x →
    st.lastPublished = some x.1 ∧ st.lastQuality = some x.2.quality

theorem follows_new (policy : ReportPolicy) (origin : Nat) :
    Follows none (new policy origin : ReportState (Reading α)) where
  clock := rfl
  remembers := remembers_new policy origin
  published x hx := by cases hx

/-- What a call's output says of the rate limit, `p` being the last publication before it. -/
structure Spaced (m now : Nat) (p : Option (Nat × Reading α)) (out : List (Reading α))
    (st' : ReportState (Reading α)) : Prop where
  apart : (p.toList ++ out.map fun r => (now, r)).IsChain (Apart m)
  follows : Follows ((out.map fun r => (now, r)).getLast?.or p) st'

section RateLimit

variable {m now : Nat} {p : Option (Nat × Reading α)} {st st' : ReportState (Reading α)}

/-- A publication that `since_published` allows comes `m` after the last one. -/
private theorem apart_of_le {x : Nat × Reading α} {r : Reading α} (hm : 0 < m)
    (htime : st.lastPublished = some x.1) (h : m ≤ st.sincePublished now) :
    Apart m x (now, r) := by
  intro _
  simp only [sincePublished, htime, Option.getD_some] at h
  omega

private theorem le_of_not_limited (hmin : st.policy.minInterval = some m)
    (h : st.rateLimited now = false) : m ≤ st.sincePublished now := by
  simpa [rateLimited, hmin] using h

private theorem le_of_heartbeatDue (hmax : ∀ x, st.policy.maxInterval = some x → m < x)
    (h : st.heartbeatDue now = true) : m ≤ st.sincePublished now := by
  unfold heartbeatDue at h
  cases hx : st.policy.maxInterval with
  | none => simp [hx] at h
  | some x =>
    have hle : x ≤ st.sincePublished now := by simpa [hx] using h
    have := hmax x hx
    omega

private theorem spaced_none (h : Follows p st) (hclock : st'.clock = .runtime)
    (hremembers : Remembers ((p.map Prod.snd).toList ++ []) st') (hlast : st'.last = st.last)
    (htime : st'.lastPublished = st.lastPublished) : Spaced m now p [] st' where
  apart := by cases p <;> simp
  follows :=
    { clock := hclock
      remembers := by simpa using hremembers
      published := fun x hx => by
        obtain ⟨ht, hq⟩ := h.published x (by simpa using hx)
        exact ⟨htime.trans ht, by rw [lastQuality, hlast]; exact hq⟩ }

private theorem spaced_publish {r : Reading α} {obs : Obs} {q : Quality} (h : Follows p st)
    (hq : q = r.quality) (hapart : ∀ x, p = some x → Apart m x (now, r)) :
    Spaced m now p [r] (st.publish r obs q now).1 where
  apart := by
    cases p with
    | none => simp
    | some x => simpa using hapart x rfl
  follows :=
    { clock := h.clock
      remembers := by
        subst hq
        exact remembers_publish [] st r obs now
      published := fun x hx => by
        obtain rfl : (now, r) = x := by simpa using hx
        exact ⟨rfl, by simp [lastQuality, hq]⟩ }

private theorem offerAt_spaced (hm : 0 < m) (hmin : st.policy.minInterval = some m)
    (hmax : ∀ x, st.policy.maxInterval = some x → m < x) (h : Follows p st) (r : Reading α) :
    Spaced m now p (st.offerAt r r.obs r.quality now).2.toList
      (st.offerAt r r.obs r.quality now).1 := by
  have hkeep := remembers_offerAt h.remembers r now
  have hspec := st.offerAt_spec r r.obs r.quality now
  generalize st.offerAt r r.obs r.quality now = s at hspec hkeep
  cases hspec with
  | published hwhy =>
    refine spaced_publish h rfl fun x hx hquality => ?_
    obtain ⟨htime, hlastq⟩ := h.published x hx
    obtain ⟨⟨lo, q⟩, hlast, hq⟩ := Option.map_eq_some_iff.mp hlastq
    have hlast' : st.last = some (lo, r.quality) := by
      rw [hlast, ← hquality, ← hq]
    rcases hwhy lo hlast' with hbeat | ⟨hlim, -⟩
    · exact apart_of_le hm htime (le_of_heartbeatDue hmax hbeat) hquality
    · exact apart_of_le hm htime (le_of_not_limited hmin hlim) hquality
  | dropped => exact spaced_none h h.clock hkeep rfl rfl
  | held => exact spaced_none h h.clock hkeep rfl rfl
  | debouncing => exact spaced_none h h.clock hkeep rfl rfl

/-- A reading that is released keeps the interval to the last one. -/
private theorem release_spaced (hm : 0 < m) (hmin : st.policy.minInterval = some m)
    (h : Follows p st) (now : Nat) :
    Spaced m now p (st.release now).2.toList (st.release now).1 := by
  have hkeep := remembers_release h.remembers now
  have hspec := st.release_spec now
  generalize st.release now = s at hspec hkeep
  -- the reading was held, so it has the last published quality
  have hpub : ∀ {r : Reading α} {obs lo : Obs} {q : Quality}, r ∈ st.held →
      st.last = some (lo, q) → m ≤ st.sincePublished now →
      Spaced m now p [r] (st.publish r obs q now).1 := by
    intro r obs lo q hr hlast hle
    have hq := h.remembers.held r hr
    simp only [lastQuality, hlast, Option.map_some, Option.some.injEq] at hq
    exact spaced_publish h hq fun x hx => apart_of_le hm (h.published x hx).1 hle
  cases hspec with
  | pending m' item obs lo q hmin' hp hle hlast =>
    obtain rfl : m = m' := by simpa [hmin] using hmin'
    exact hpub (by simp [held, hp]) hlast hle
  | candidate d c lo q hd hc _ hlim hlast =>
    exact hpub (by simp [held, settling, hd, hc]) hlast
      (le_of_not_limited hmin hlim)
  | idle => exact spaced_none h h.clock hkeep rfl rfl
  | stale => exact spaced_none h h.clock hkeep rfl rfl
  | held => exact spaced_none h h.clock hkeep rfl rfl
  | dropped => exact spaced_none h h.clock hkeep rfl rfl

theorem liveStep_spaced (hm : 0 < m) (hmin : st.policy.minInterval = some m)
    (hmax : ∀ x, st.policy.maxInterval = some x → m < x) (h : Follows p st) (op : LiveOp α) :
    Spaced m op.time p (liveStep st op).2.published (liveStep st op).1 := by
  cases op with
  | offer r now =>
    simp only [liveStep, LiveOp.toOp, LiveOp.time, step, offer_of_runtime h.clock]
    exact offerAt_spaced hm hmin hmax h r
  | due now pushed =>
    simp only [liveStep, LiveOp.toOp, LiveOp.time, step, due_of_runtime h.clock,
      dueLive]
    obtain ⟨hapart, hfollows⟩ := release_spaced hm hmin h now
    obtain ⟨lr, hr⟩ := (st.release now).1.heartbeatRead_fst now pushed
    refine ⟨hapart, ?_⟩
    rw [hr]
    exact ⟨hfollows.clock, hfollows.remembers.of_held rfl (fun _ hx => hx), hfollows.published⟩

theorem publications_isChain (hm : 0 < m) (hmin : st.policy.minInterval = some m)
    (hmax : ∀ x, st.policy.maxInterval = some x → m < x) (h : Follows p st)
    (ops : List (LiveOp α)) :
    (p.toList ++ publications (log liveStep st ops)).IsChain (Apart m) := by
  induction ops generalizing p st with
  | nil => cases p <;> simp
  | cons op ops ih =>
    obtain ⟨hapart, hfollows⟩ := liveStep_spaced hm hmin hmax h op
    have hpolicy := (liveStep_frame h.clock op).1
    have hrest := ih (hpolicy ▸ hmin) (hpolicy ▸ hmax) hfollows
    generalize hnew : ((liveStep st op).2.published.map fun r => (op.time, r)) = new at *
    simp only [log_cons, publications_cons, hnew]
    rcases List.eq_nil_or_concat new with rfl | ⟨front, x, rfl⟩
    · simpa using hrest
    · -- the two chains overlap in `x`, the call's last publication
      simp only [List.concat_eq_append, List.getLast?_append, List.getLast?_singleton,
        Option.some_or, Option.toList_some, ← List.append_assoc] at hapart hrest ⊢
      exact hapart.append_overlap hrest (List.cons_ne_nil x [])

end RateLimit

/-- **Rate limit.** Under an effective policy with `min_interval = m`, two consecutive
publications of a live run that have the same quality are at least `m` apart. -/
theorem rate_limit {table : JsonMap} {m : Nat}
    (hmin : (effective table).1.minInterval = some m) (origin : Nat) (ops : List (LiveOp α)) :
    (publications (log liveStep (new (effective table).1 origin) ops)).IsChain
      (Apart m) := by
  have hm : 0 < m := effective_minInterval_pos hmin
  have hmax : ∀ x, (effective table).1.maxInterval = some x → m < x := fun x hx =>
    effective_minInterval_lt_maxInterval hmin hx
  simpa using publications_isChain hm hmin hmax (follows_new _ origin) ops

/-- A run under a 10 s rate limit: the second reading is held, and released by the last call. -/
theorem rate_limit_held :
    let policy := (effective [("min_interval", .string "10s")]).1
    let ops : List (LiveOp Nat) :=
      [.offer ⟨0, .number 1.0, .good⟩ 0, .offer ⟨1, .number 2.0, .good⟩ (Duration.fromSecs 1),
        .due (Duration.fromSecs 9) false, .due (Duration.fromSecs 10) false]
    let pubs := publications (log liveStep (new policy 0) ops)
    pubs.map Prod.fst = [0, Duration.fromSecs 10] ∧ pubs.IsChain (Apart (Duration.fromSecs 10)) :=
  ⟨by decide, rate_limit (by decide) 0 _⟩

end TedgeDot.Report
