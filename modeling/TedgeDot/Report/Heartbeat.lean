import TedgeDot.Report.Rate

/-!
# The heartbeat

A point with a `max_interval` is published, or read, when nothing was published of it for so long.
The interval is measured from `last_published`, which is the last publication as long as the point
is on the runtime clock and the end of the replay after one. `Past` is what a run has done since
its last reset, told by its calls and outputs alone, and `heartbeat` says in its terms what the
next call does. A replay puts the heartbeat off by more than `max_interval` after the last
publication (`heartbeat_after_replay`).
-/

namespace TedgeDot.Report

open Machine

universe u

variable {α : Type u}

/-! ## The past of a run -/

def Op.time : Op α → Option Nat
  | .offer _ now => some now
  | .offerReplayed _ _ now => some now
  | .due now _ => some now
  | .noData => none
  | .reset now => some now

/-- The runtime clock does not go back. -/
def Ticks (start : Nat) (ops : List (Op α)) : Prop :=
  (start :: ops.filterMap Op.time).Pairwise (· ≤ ·)

instance (start : Nat) (ops : List (Op α)) : Decidable (Ticks start ops) :=
  inferInstanceAs (Decidable (List.Pairwise _ _))

/-- What a run has done since the last reset, on the runtime clock. -/
structure Past where
  /-- When the state was created or reset. -/
  since : Nat
  /-- When it last published. -/
  published : Option Nat := none
  /-- When it asked for reads, the last first. -/
  reads : List Nat := []
  /-- A read returned nothing. -/
  unreadable : Bool := false
  /-- The last reading of a replay that has not ended. -/
  replay : Option Nat := none
  /-- When a replay last ended. -/
  replayEnd : Option Nat := none

namespace Past

/-- A replay ends with the first live reading. -/
def endReplay (p : Past) (now : Nat) : Past :=
  match p.replay with
  | none => p
  | some _ => { p with replay := none, replayEnd := some now }

/-- A replay goes on for `REPLAY_IDLE` after its last reading. -/
def replaying (p : Past) (now : Nat) : Bool := p.replay.any fun last => now - last < REPLAY_IDLE

def note (p : Past) (now : Nat) (out : Out α) : Past :=
  { p with
    published := if out.published.isEmpty then p.published else some now
    reads := if out.read then now :: p.reads else p.reads }

def next (p : Past) : Op α × Out α → Past
  | (.offer _ now, out) => (p.endReplay now).note now out
  | (.offerReplayed _ _ now, out) => { p with replay := some now }.note now out
  | (.due now _, out) => (if p.replaying now then p else p.endReplay now).note now out
  | (.noData, _) => { p with unreadable := true }
  | (.reset now, _) => { since := now }

def of (start : Nat) (run : List (Op α × Out α)) : Past := run.foldl next { since := start }

/-- Nothing is in the future. -/
structure Dated (p : Past) (now : Nat) : Prop where
  since : p.since ≤ now
  published : ∀ t ∈ p.published, p.since ≤ t ∧ t ≤ now
  reads : (now :: p.reads).Pairwise (· ≥ ·)

theorem Dated.mono {p : Past} {now now' : Nat} (h : p.Dated now) (hle : now ≤ now') :
    p.Dated now' where
  since := h.since.trans hle
  published t ht := (h.published t ht).imp_right fun htnow => htnow.trans hle
  reads := by
    obtain ⟨hall, hreads⟩ := List.pairwise_cons.mp h.reads
    exact List.pairwise_cons.mpr ⟨fun t ht => (hall t ht).trans hle, hreads⟩

theorem Dated.note {p : Past} {now : Nat} (h : p.Dated now) (out : Out α) :
    (p.note now out).Dated now where
  since := h.since
  published t ht := by
    simp only [Past.note] at ht ⊢
    split at ht
    · exact h.published t ht
    · obtain rfl := Option.some.inj ht
      exact ⟨h.since, Nat.le_refl _⟩
  reads := by
    simp only [Past.note]
    split
    · obtain ⟨hall, -⟩ := List.pairwise_cons.mp h.reads
      refine List.pairwise_cons.mpr ⟨fun t ht => ?_, h.reads⟩
      exact (List.mem_cons.mp ht).elim Nat.le_of_eq (hall t)
    · exact h.reads

theorem Dated.endReplay {p : Past} {now : Nat} (h : p.Dated now) (at' : Nat) :
    (p.endReplay at').Dated now := by
  unfold Past.endReplay
  split
  · exact h
  · exact ⟨h.since, h.published, h.reads⟩

/-- What is recorded of the past lies in it. -/
theorem Dated.next {p : Past} {now : Nat} (h : p.Dated now) (op : Op α) (out : Out α)
    (htime : ∀ t ∈ op.time, t = now) : (p.next (op, out)).Dated now := by
  cases op with
  | offer r t =>
    obtain rfl := htime t rfl
    exact (h.endReplay t).note out
  | offerReplayed r src t =>
    obtain rfl := htime t rfl
    exact Dated.note (p := { p with replay := some t }) ⟨h.since, h.published, h.reads⟩ out
  | due t pushed =>
    obtain rfl := htime t rfl
    apply Dated.note
    split
    · exact h
    · exact h.endReplay t
  | noData => exact ⟨h.since, h.published, h.reads⟩
  | reset t =>
    obtain rfl := htime t rfl
    exact ⟨Nat.le_refl _, (fun _ ht' => nomatch ht'), by simp [Past.next]⟩

theorem Dated.run {st : ReportState (Reading α)} {ops : List (Op α)} {p : Past} {start now : Nat}
    (h : p.Dated start) (hticks : (start :: (ops.filterMap Op.time ++ [now])).Pairwise (· ≤ ·)) :
    ((log step st ops).foldl Past.next p).Dated now := by
  induction ops generalizing st p start with
  | nil =>
    have hle : start ≤ now := by simpa using hticks
    exact h.mono hle
  | cons op ops ih =>
    rw [log_cons, List.foldl_cons]
    cases ht : op.time with
    | none =>
      rw [List.filterMap_cons_none ht] at hticks
      exact ih (h.next op _ (by simp [ht])) hticks
    | some t =>
      rw [List.filterMap_cons_some ht, List.cons_append] at hticks
      obtain ⟨hall, hrest⟩ := List.pairwise_cons.mp hticks
      refine ih ((h.mono (hall t List.mem_cons_self)).next op _ ?_) hrest
      intro t' ht'
      exact (Option.some.inj (ht.symm.trans ht')).symm

end Past

/-! ## What a state keeps of its past -/

/-- A part of a call that may publish. -/
structure Publishes {T : Type u} (st : ReportState T) (now : Nat) (r : ReportState T × Option T) :
    Prop where
  policy : r.1.policy = st.policy
  origin : r.1.origin = st.origin
  unreadable : r.1.unreadable = st.unreadable
  clock : r.1.clock = st.clock
  lastRead : r.1.lastRead = st.lastRead
  kept : r.2 = none → r.1.last = st.last ∧ r.1.lastPublished = st.lastPublished
  published : r.2.isSome → r.1.lastPublished = some now

namespace ReportState

variable {T : Type u}

theorem offerAt_publishes (st : ReportState T) (item : T) (obs : Obs) (q : Quality) (now : Nat) :
    Publishes st now (st.offerAt item obs q now) := by
  have hspec := st.offerAt_spec item obs q now
  generalize st.offerAt item obs q now = r at hspec
  cases hspec with
  | published => exact ⟨rfl, rfl, rfl, rfl, rfl, by simp, fun _ => rfl⟩
  | dropped | held | debouncing => exact ⟨rfl, rfl, rfl, rfl, rfl, fun _ => ⟨rfl, rfl⟩, by simp⟩

theorem release_publishes (st : ReportState T) (now : Nat) :
    Publishes st now (st.release now) := by
  have hspec := st.release_spec now
  generalize st.release now = r at hspec
  cases hspec with
  | pending | candidate => exact ⟨rfl, rfl, rfl, rfl, rfl, by simp, fun _ => rfl⟩
  | idle | stale | held | dropped =>
    exact ⟨rfl, rfl, rfl, rfl, rfl, fun _ => ⟨rfl, rfl⟩, by simp⟩

theorem heartbeatRead_eq (st : ReportState T) (now : Nat) (pushed : Bool) :
    st.heartbeatRead now pushed =
      if (st.heartbeatRead now pushed).2 then ({ st with lastRead := some now }, true)
      else (st, false) := by
  unfold heartbeatRead
  split
  · rfl
  · dsimp only
    split <;> rfl

theorem heartbeatRead_snd {st : ReportState T} {M : Nat} (hmax : st.policy.maxInterval = some M)
    (now : Nat) (pushed : Bool) :
    (st.heartbeatRead now pushed).2 = true ↔ pushed = true ∧ st.unreadable = false ∧
      M ≤ now - st.lastPublished.getD st.origin ∧ M ≤ now - st.lastRead.getD st.origin := by
  have hreference : ∀ a b : Nat, M ≤ now - Nat.max a b ↔ M ≤ now - a ∧ M ≤ now - b := by
    intro a b
    show M ≤ now - max a b ↔ _
    omega
  unfold heartbeatRead
  simp only [hmax]
  split
  · rename_i hdue
    simp only [Bool.and_eq_true, Bool.not_eq_true', decide_eq_true_eq, hreference] at hdue
    simpa [and_assoc] using hdue
  · rename_i hdue
    simp only [Bool.and_eq_true, Bool.not_eq_true', decide_eq_true_eq, hreference] at hdue
    simpa [and_assoc] using hdue

end ReportState

/-- The state and the past of a run. -/
structure Recalls (policy : ReportPolicy) (p : Past) (st : ReportState (Reading α)) : Prop where
  policy : st.policy = policy
  origin : st.origin = p.since
  unreadable : st.unreadable = p.unreadable
  clock : st.clock = (p.replay.map Clock.replay).getD .runtime
  lastRead : st.lastRead = p.reads.head?
  /-- On the runtime clock, the intervals count from the last publication, or from the end of a
  replay after it. -/
  lastPublished : p.replay = none →
    ∀ t ∈ st.lastPublished, p.published = some t ∨ p.replayEnd = some t
  last : st.last ≠ none → p.published ≠ none

namespace Recalls

variable {policy : ReportPolicy} {p : Past} {st : ReportState (Reading α)}

theorem new (policy : ReportPolicy) (start : Nat) :
    Recalls policy { since := start } (ReportState.new policy start : ReportState (Reading α)) where
  policy := rfl
  origin := rfl
  unreadable := rfl
  clock := rfl
  lastRead := rfl
  lastPublished _ t ht := by cases ht
  last h := absurd rfl h

theorem publishes {now : Nat} {r : ReportState (Reading α) × Option (Reading α)}
    (h : Recalls policy p st) (hr : Publishes st now r) :
    Recalls policy (p.note now { published := r.2.toList }) r.1 := by
  obtain ⟨st', out⟩ := r
  cases out with
  | none =>
    obtain ⟨hlast, htime⟩ := hr.kept rfl
    exact ⟨hr.policy.trans h.policy, hr.origin.trans h.origin, hr.unreadable.trans h.unreadable,
      hr.clock.trans h.clock, hr.lastRead.trans h.lastRead,
      fun hreplay => htime ▸ h.lastPublished hreplay,
      hlast ▸ h.last⟩
  | some item =>
    refine ⟨hr.policy.trans h.policy, hr.origin.trans h.origin, hr.unreadable.trans h.unreadable,
      hr.clock.trans h.clock, hr.lastRead.trans h.lastRead, fun _ t ht => .inl ?_,
      fun _ => by simp [Past.note]⟩
    rw [hr.published rfl] at ht
    simpa [Past.note] using ht

theorem handOver (h : Recalls policy p st) {last : Nat} (hreplay : p.replay = some last)
    (now : Nat) :
    Recalls policy (p.endReplay now) (st.handOver now) := by
  have hend : p.endReplay now = { p with replay := none, replayEnd := some now } := by
    rw [Past.endReplay, hreplay]
  rw [hend]
  refine ⟨h.policy, h.origin, h.unreadable, rfl, h.lastRead, fun _ t ht => .inr ?_, h.last⟩
  simp only [ReportState.handOver] at ht
  split at ht
  · exact ht
  · cases ht

theorem endReplay_of_none {p : Past} (h : p.replay = none) (now : Nat) : p.endReplay now = p := by
  rw [Past.endReplay, h]

theorem offer (h : Recalls policy p st) (r : Reading α) (now : Nat) :
    Recalls policy (p.next (.offer r now, (step st (.offer r now)).2))
      (step st (.offer r now)).1 := by
  have hclock := h.clock
  simp only [step, Past.next]
  cases hreplay : p.replay with
  | none =>
    rw [hreplay] at hclock
    rw [ReportState.offer_of_runtime hclock, endReplay_of_none hreplay]
    exact h.publishes (st.offerAt_publishes r r.obs r.quality now)
  | some last =>
    rw [hreplay] at hclock
    have hoffer : st.offer r r.obs r.quality now =
        (st.handOver now).offerAt r r.obs r.quality now := by
      simp only [ReportState.offer, hclock, Option.map_some, Option.getD_some]
    rw [hoffer]
    exact (h.handOver hreplay now).publishes ((st.handOver now).offerAt_publishes ..)

/-- A replayed reading counts from the moment it is replayed. -/
theorem offerReplayed (h : Recalls policy p st) (r : Reading α) (src now : Nat) :
    Recalls policy (p.next (.offerReplayed r src now, (step st (.offerReplayed r src now)).2))
      (step st (.offerReplayed r src now)).1 := by
  have hstart : Recalls policy { p with replay := some now } (st.startReplay src now) := by
    unfold ReportState.startReplay
    split
    · exact ⟨h.policy, h.origin, h.unreadable, rfl, h.lastRead,
        fun hnone => absurd hnone (Option.some_ne_none now), h.last⟩
    · exact ⟨h.policy, h.origin, h.unreadable, rfl, h.lastRead,
        fun hnone => absurd hnone (Option.some_ne_none now), h.last⟩
  -- what the replay releases comes before the reading itself
  have hrelease := (st.startReplay src now).release_publishes src
  have hoffer := ((st.startReplay src now).release src).1.offerAt_publishes r r.obs r.quality src
  simp only [step, Past.next, ReportState.offerReplayed]
  generalize (st.startReplay src now).release src = released at hrelease hoffer
  obtain ⟨st₁, out₁⟩ := released
  dsimp only at hoffer
  generalize st₁.offerAt r r.obs r.quality src = offered at hoffer
  obtain ⟨st₂, out₂⟩ := offered
  refine ⟨?_, ?_, ?_, ?_, ?_, fun hnone => absurd hnone (Option.some_ne_none now), fun hlast => ?_⟩
  · exact hoffer.policy.trans (hrelease.policy.trans hstart.policy)
  · exact hoffer.origin.trans (hrelease.origin.trans hstart.origin)
  · exact hoffer.unreadable.trans (hrelease.unreadable.trans hstart.unreadable)
  · exact hoffer.clock.trans (hrelease.clock.trans hstart.clock)
  · exact hoffer.lastRead.trans (hrelease.lastRead.trans hstart.lastRead)
  · -- something was published before, or it is now
    cases out₁ with
    | some item => simp [Past.note]
    | none =>
      cases out₂ with
      | some item => simp [Past.note]
      | none =>
        have hsame := (hoffer.kept rfl).1.trans (hrelease.kept rfl).1
        have hlast' : st₂.last ≠ none := hlast
        rw [hsame] at hlast'
        simpa [Past.note] using hstart.last hlast'

theorem dueLive (h : Recalls policy p st) (now : Nat) (pushed : Bool) :
    Recalls policy (p.note now {
      published := (st.dueLive now pushed).2.publish.toList
      read := (st.dueLive now pushed).2.read }) (st.dueLive now pushed).1 := by
  have hrelease := h.publishes (st.release_publishes now)
  simp only [ReportState.dueLive]
  generalize st.release now = released at hrelease
  obtain ⟨st', out⟩ := released
  dsimp only at hrelease ⊢
  rw [st'.heartbeatRead_eq now pushed]
  cases (st'.heartbeatRead now pushed).2 with
  | false => exact hrelease
  | true =>
    exact ⟨hrelease.policy, hrelease.origin, hrelease.unreadable, hrelease.clock, rfl,
      hrelease.lastPublished, hrelease.last⟩

theorem due_eq (h : Recalls policy p st) (now : Nat) (pushed : Bool) :
    (p.replaying now = true ∧ st.due now pushed = (st, { publish := none, read := false })) ∨
      p.replaying now = false ∧ ∃ st', Recalls policy (p.endReplay now) st' ∧
        st.due now pushed = st'.dueLive now pushed := by
  have hclock := h.clock
  unfold Past.replaying ReportState.due
  cases hreplay : p.replay with
  | none =>
    rw [hreplay] at hclock
    simp only [hclock, Option.map_none, Option.getD_none]
    refine .inr ⟨rfl, st, ?_, rfl⟩
    rwa [endReplay_of_none hreplay]
  | some last =>
    rw [hreplay] at hclock
    simp only [hclock, Option.map_some, Option.getD_some]
    by_cases hidle : now - last < REPLAY_IDLE
    · exact .inl ⟨by simpa using hidle, if_pos hidle⟩
    · refine .inr ⟨by simpa using hidle, _, h.handOver hreplay now, if_neg hidle⟩

theorem due (h : Recalls policy p st) (now : Nat) (pushed : Bool) :
    Recalls policy (p.next (.due now pushed, (step st (.due now pushed)).2))
      (step st (.due now pushed)).1 := by
  simp only [step, Past.next]
  rcases h.due_eq now pushed with ⟨hreplaying, heq⟩ | ⟨hreplaying, st', h', heq⟩
  · rw [heq, hreplaying, if_pos rfl]
    exact h
  · rw [heq, hreplaying, if_neg Bool.false_ne_true]
    exact h'.dueLive now pushed

theorem step (h : Recalls policy p st) (op : Op α) :
    Recalls policy (p.next (op, (Report.step st op).2)) (Report.step st op).1 := by
  cases op with
  | offer r now => exact h.offer r now
  | offerReplayed r src now => exact h.offerReplayed r src now
  | due now pushed => exact h.due now pushed
  | noData => exact ⟨h.policy, h.origin, rfl, h.clock, h.lastRead, h.lastPublished, h.last⟩
  | reset now => exact h.policy ▸ new st.policy now

theorem run (h : Recalls policy p st) (ops : List (Op α)) :
    Recalls policy ((log Report.step st ops).foldl Past.next p) (final Report.step st ops) := by
  induction ops generalizing p st with
  | nil => exact h
  | cons op ops ih => exact ih (h.step op)

theorem le_since (h : Recalls policy p st) {now M : Nat} (hdated : p.Dated now)
    (hreplay : p.replay = none) (hpublished : ∀ t ∈ p.published, t + M ≤ now)
    (hend : ∀ t ∈ p.replayEnd, t + M ≤ now) (hsince : p.published = none → p.since + M ≤ now) :
    M ≤ now - st.lastPublished.getD st.origin := by
  cases htime : st.lastPublished with
  | some t =>
    rw [Option.getD_some]
    rcases h.lastPublished hreplay t htime with hp | he
    · exact Nat.le_sub_of_add_le' (hpublished t hp)
    · exact Nat.le_sub_of_add_le' (hend t he)
  | none =>
    rw [Option.getD_none, h.origin]
    cases hp : p.published with
    | none => exact Nat.le_sub_of_add_le' (hsince hp)
    | some t =>
      -- a replay that published nothing has left the interval to count from the reset
      have hle := (hdated.published t hp).1
      have ht := hpublished t hp
      omega

theorem offer_published (h : Recalls policy p st) {M now : Nat}
    (hmax : policy.maxInterval = some M) (hdated : p.Dated now) (r : Reading α)
    (hreplay : p.replay = none) (hpublished : ∀ t ∈ p.published, t + M ≤ now)
    (hend : ∀ t ∈ p.replayEnd, t + M ≤ now) :
    (Report.step st (.offer r now)).2.published = [r] := by
  have hclock : st.clock = .runtime := by rw [h.clock, hreplay]; rfl
  have hbeat : st.last ≠ none → st.heartbeatDue now = true := by
    intro hlast
    have hle := h.le_since hdated hreplay hpublished hend fun hnone => absurd hnone (h.last hlast)
    rw [ReportState.heartbeatDue, h.policy, hmax]
    exact decide_eq_true hle
  have hspec := st.offerAt_spec r r.obs r.quality now
  simp only [Report.step, ReportState.offer_of_runtime hclock]
  generalize st.offerAt r r.obs r.quality now = s at hspec
  cases hspec with
  | published => rfl
  | dropped _ hlast _ _ hnot => simp [hbeat (by simp [hlast])] at hnot
  | held _ hlast _ hnot => simp [hbeat (by simp [hlast])] at hnot
  | debouncing _ hlast _ _ _ hnot => simp [hbeat (by simp [hlast])] at hnot

/-- A heartbeat reads only what the interval since the last reading calls for. -/
theorem due_read (h : Recalls policy p st) {M now : Nat} (hmax : policy.maxInterval = some M)
    (hdated : p.Dated now) {pushed : Bool}
    (hread : (Report.step st (.due now pushed)).2.read = true) :
    pushed = true ∧ p.unreadable = false ∧ p.replaying now = false ∧
      ∀ t ∈ p.reads, t + M ≤ now := by
  simp only [Report.step] at hread
  rcases h.due_eq now pushed with ⟨-, heq⟩ | ⟨hreplaying, st', h', heq⟩
  · simp [heq] at hread
  · have hrelease := st'.release_publishes now
    have hpast : (p.endReplay now).reads = p.reads ∧
        (p.endReplay now).unreadable = p.unreadable := by
      unfold Past.endReplay
      split <;> exact ⟨rfl, rfl⟩
    simp only [heq, ReportState.dueLive] at hread
    rw [ReportState.heartbeatRead_snd (by rw [hrelease.policy, h'.policy, hmax]),
      hrelease.unreadable, hrelease.lastRead, h'.unreadable, h'.lastRead, hpast.1, hpast.2]
      at hread
    obtain ⟨hpushed, hunreadable, -, hsince⟩ := hread
    refine ⟨hpushed, hunreadable, hreplaying, fun t ht => ?_⟩
    -- the last read is the latest
    cases hreads : p.reads with
    | nil => simp [hreads] at ht
    | cons latest earlier =>
      have hsorted := hdated.reads
      rw [hreads] at hsorted ht hsince
      obtain ⟨hall, hrest⟩ := List.pairwise_cons.mp hsorted
      have hnow := hall latest List.mem_cons_self
      have hle : t ≤ latest := by
        rcases List.mem_cons.mp ht with rfl | ht
        · exact Nat.le_refl _
        · exact (List.pairwise_cons.mp hrest).1 t ht
      simp only [List.head?_cons, Option.getD_some] at hsince
      omega

theorem due_reads (h : Recalls policy p st) {M now : Nat} (hmax : policy.maxInterval = some M)
    (hdated : p.Dated now) (hunreadable : p.unreadable = false) (hreplay : p.replay = none)
    (hsince : p.since + M ≤ now) (hpublished : ∀ t ∈ p.published, t + M ≤ now)
    (hend : ∀ t ∈ p.replayEnd, t + M ≤ now) (hreads : ∀ t ∈ p.reads, t + M ≤ now)
    (hnone : (Report.step st (.due now true)).2.published = []) :
    (Report.step st (.due now true)).2.read = true := by
  have hclock : st.clock = .runtime := by rw [h.clock, hreplay]; rfl
  simp only [Report.step, ReportState.due_of_runtime hclock, ReportState.dueLive] at hnone ⊢
  have hrelease := st.release_publishes now
  obtain ⟨-, htime⟩ := hrelease.kept (by simpa using hnone)
  rw [ReportState.heartbeatRead_snd (by rw [hrelease.policy, h.policy, hmax]), htime,
    hrelease.unreadable, hrelease.origin, hrelease.lastRead, h.unreadable]
  refine ⟨rfl, hunreadable, h.le_since hdated hreplay hpublished hend fun _ => hsince, ?_⟩
  rw [h.lastRead, h.origin]
  cases hhead : p.reads with
  | nil => exact Nat.le_sub_of_add_le' hsince
  | cons latest earlier => exact Nat.le_sub_of_add_le' (hreads latest (by simp [hhead]))

end Recalls

/-! ## The next call -/

/-- **Heartbeat.** Under a policy with `max_interval = M`, at every call of every run:
1. A live reading of a point that does not replay, `M` after the last publication and the end of
   the last replay, is published.
2. A pass asks for a read of a pushed point only, not while it replays, not after a read returned
   nothing, and `M` after every read since the last reset.
3. A pass over a pushed, readable point that does not replay asks for a read when nothing was
   published or read, and no replay ended, for `M` since the last reset, unless it publishes a
   reading itself. -/
theorem heartbeat (policy : ReportPolicy) {M : Nat} (hmax : policy.maxInterval = some M)
    (start : Nat) (ops : List (Op α)) (op : Op α) (hticks : Ticks start (ops ++ [op])) :
    let st : ReportState (Reading α) := ReportState.new policy start
    let past := Past.of start (log step st ops)
    let out := (step (final step st ops) op).2
    (∀ r now, op = .offer r now → past.replay = none → (∀ t ∈ past.published, t + M ≤ now) →
      (∀ t ∈ past.replayEnd, t + M ≤ now) → out.published = [r]) ∧
    (out.read = true → ∃ now, op = .due now true ∧ past.replaying now = false ∧
      past.unreadable = false ∧ ∀ t ∈ past.reads, t + M ≤ now) ∧
    (∀ now, op = .due now true → past.unreadable = false → past.replay = none →
      past.since + M ≤ now → (∀ t ∈ past.published, t + M ≤ now) →
      (∀ t ∈ past.replayEnd, t + M ≤ now) → (∀ t ∈ past.reads, t + M ≤ now) →
      out.published = [] → out.read = true) := by
  intro st past out
  have hrecalls : Recalls policy past (final step st ops) := (Recalls.new policy start).run ops
  have hdated : ∀ now ∈ op.time, past.Dated now := by
    intro now hnow
    have hstart : Past.Dated { since := start } start := ⟨Nat.le_refl _, by simp, by simp⟩
    refine hstart.run ?_
    rw [Ticks, List.filterMap_append, List.filterMap_cons_some hnow] at hticks
    exact hticks
  refine ⟨fun r now hop hreplay hpublished hend => ?_, fun hread => ?_, fun now hop => ?_⟩
  · subst hop
    exact hrecalls.offer_published hmax (hdated now rfl) r hreplay hpublished hend
  · cases op with
    | due now pushed =>
      obtain ⟨rfl, hunreadable, hreplaying, hreads⟩ :=
        hrecalls.due_read hmax (hdated now rfl) hread
      exact ⟨now, rfl, hreplaying, hunreadable, hreads⟩
    | offer | offerReplayed | noData | reset => cases hread
  · subst hop
    exact hrecalls.due_reads hmax (hdated now rfl)

/-- A pushed point is read ten seconds after it was published, and its next reading is published. -/
theorem heartbeat_read :
    let policy : ReportPolicy := { onChange := true, maxInterval := some (Duration.fromSecs 10) }
    let ops : List (Op Nat) := [.offer ⟨0, .number 1.0, .good⟩ 0, .due (Duration.fromSecs 5) true]
    (step (final step (ReportState.new policy 0) ops) (.due (Duration.fromSecs 10) true)).2.read =
      true := by
  intro policy ops
  have hnext := (heartbeat policy rfl 0 ops (.due (Duration.fromSecs 10) true) (by decide)).2.2
  exact hnext _ rfl (by decide) (by decide) (by decide) (by decide) (by decide) (by decide)
    (by decide)

/-- **A replay puts the heartbeat off.** The point was last published one second after the start,
by a replay that ended at three seconds. At twelve seconds a live reading is not published, and a
pass asks for no read. Nor does a pass that publishes a reading the rate limit held. -/
theorem heartbeat_after_replay :
    (let policy : ReportPolicy := { onChange := true, maxInterval := some (Duration.fromSecs 10) }
    let ops : List (Op Nat) := [.offer ⟨0, .number 1.0, .good⟩ 0,
      .offerReplayed ⟨1, .number 2.0, .good⟩ (Duration.fromSecs 1000) (Duration.fromSecs 1),
      .due (Duration.fromSecs 3) true]
    let st := final step (ReportState.new policy 0) ops
    let past := Past.of 0 (log step (ReportState.new policy 0) ops)
    past.replay = none ∧ past.unreadable = false ∧ past.reads = [] ∧
      past.published = some (Duration.fromSecs 1) ∧
      (step st (.offer ⟨2, .number 2.0, .good⟩ (Duration.fromSecs 12))).2.published = [] ∧
      (step st (.due (Duration.fromSecs 12) true)).2 = { published := [], read := false }) ∧
    (let policy : ReportPolicy :=
      { minInterval := some (Duration.fromSecs 5), maxInterval := some (Duration.fromSecs 10) }
    let ops : List (Op Nat) := [.offer ⟨0, .number 1.0, .good⟩ 0,
      .offer ⟨1, .number 2.0, .good⟩ (Duration.fromSecs 1)]
    let st := final step (ReportState.new policy 0) ops
    let past := Past.of 0 (log step (ReportState.new policy 0) ops)
    past.replay = none ∧ past.unreadable = false ∧ past.reads = [] ∧ past.published = some 0 ∧
      (step st (.due (Duration.fromSecs 10) true)).2 =
        { published := [⟨1, .number 2.0, .good⟩], read := false }) := by
  decide

end TedgeDot.Report
