import TedgeDot.Report.Rate

/-!
# A replay reduces like the live stream

`offer_replayed` reduces a burst of history the way the live stream would have been reduced. The
live run it is compared with has source time as its clock: for each reading a `due` at its source
time, then the `offer`. The two states differ only in what the reduction does not look at once
something was published (`Aside`), so they publish the same at every reading (`replay_eq_live`).
-/

namespace TedgeDot.Report

open Machine ReportState

universe u

/-! ## What the reduction looks at -/

/-- What the reduction of readings does not look at, once something was published. -/
structure Aside where
  origin : Nat
  lastRead : Option Nat
  unreadable : Bool
  clock : Clock
  lastPublishedSrc : Option Nat

namespace ReportState

variable {T : Type u}

@[reducible] def withAside (st : ReportState T) (a : Aside) : ReportState T :=
  { st with
    origin := a.origin
    lastRead := a.lastRead
    unreadable := a.unreadable
    clock := a.clock
    lastPublishedSrc := a.lastPublishedSrc }

/-- Until the first publication nothing is remembered or held. -/
def Started (st : ReportState T) : Prop :=
  st.lastPublished = none → st.last = none ∧ st.pending = none ∧ st.candidate = none

theorem Started.isSome {st : ReportState T} (hst : st.Started)
    (h : st.last ≠ none ∨ st.pending ≠ none ∨ st.candidate ≠ none) :
    st.lastPublished.isSome := by
  rw [Option.isSome_iff_ne_none]
  intro hnone
  obtain ⟨hl, hp, hc⟩ := hst hnone
  rcases h with h | h | h
  · exact h hl
  · exact h hp
  · exact h hc

section Aside

variable (st : ReportState T) (a : Aside) (now : Nat)

theorem sincePublished_withAside (h : st.lastPublished.isSome) :
    (st.withAside a).sincePublished now = st.sincePublished now := by
  obtain ⟨t, ht⟩ := Option.isSome_iff_exists.mp h
  simp [sincePublished, ht]

theorem rateLimited_withAside (h : st.lastPublished.isSome) :
    (st.withAside a).rateLimited now = st.rateLimited now := by
  simp only [rateLimited, sincePublished_withAside st a now h]

theorem heartbeatDue_withAside (h : st.lastPublished.isSome) :
    (st.withAside a).heartbeatDue now = st.heartbeatDue now := by
  simp only [heartbeatDue, sincePublished_withAside st a now h]

theorem settle_withAside (item : T) (obs : Obs) (ch : Bool) :
    (st.withAside a).settle item obs now ch =
      ((st.settle item obs now ch).1.withAside a, (st.settle item obs now ch).2) := by
  unfold settle
  cases st.policy.debounce with
  | none => rfl
  | some d =>
    cases ch with
    | false => rfl
    | true =>
      cases st.candidate with
      | none => rfl
      | some c =>
        by_cases hch : st.policy.changed obs c.first = true
        · simp [hch]
        · by_cases hlt : now - c.since < d
          · simp [hch, hlt]
          · simp [hch, hlt]

theorem settle_lastPublished (item : T) (obs : Obs) (ch : Bool) :
    (st.settle item obs now ch).1.lastPublished = st.lastPublished := by
  have hspec := st.settle_spec item obs now ch
  generalize st.settle item obs now ch = r at hspec
  cases hspec with
  | passed | back | debouncing => rfl

theorem publishIfChanged_withAside (item : T) (obs : Obs) :
    (st.withAside a).publishIfChanged item obs now =
      ((st.publishIfChanged item obs now).1.withAside a,
        (st.publishIfChanged item obs now).2) := by
  unfold publishIfChanged
  cases st.last with
  | none => rfl
  | some l =>
    dsimp only
    split <;> rfl

/-- What is set aside for a replay takes no part in an offer. -/
theorem offerAt_withAside (hst : st.Started) (item : T) (obs : Obs) (q : Quality) :
    (st.withAside a).offerAt item obs q now =
      ((st.offerAt item obs q now).1.withAside a, (st.offerAt item obs q now).2) := by
  unfold offerAt
  cases hlast : st.last with
  | none => rfl
  | some l =>
    obtain ⟨lastObs, lastQuality⟩ := l
    have hpub : st.lastPublished.isSome := hst.isSome (.inl (by simp [hlast]))
    dsimp only
    rw [heartbeatDue_withAside st a now hpub, settle_withAside]
    split
    · rfl
    · split
      · rfl
      · have hpub' := settle_lastPublished st now item obs (st.policy.changed obs lastObs) ▸ hpub
        generalize st.settle item obs now (st.policy.changed obs lastObs) = r at hpub'
        obtain ⟨st', _ | ⟨item', obs'⟩⟩ := r
        · rfl
        · dsimp only
          rw [rateLimited_withAside st' a now hpub']
          split
          · rfl
          · split <;> rfl

theorem releasePending_withAside (hst : st.Started) :
    (st.withAside a).releasePending now =
      ((st.releasePending now).1.withAside a, (st.releasePending now).2) := by
  unfold releasePending
  cases st.policy.minInterval with
  | none => rfl
  | some m =>
    cases hp : st.pending with
    | none => rfl
    | some p =>
      dsimp only
      rw [sincePublished_withAside st a now (hst.isSome (.inr (.inl (by simp [hp]))))]
      split
      · exact publishIfChanged_withAside { st with pending := none } a now p.1 p.2
      · rfl

theorem releaseCandidate_withAside (hst : st.Started) :
    (st.withAside a).releaseCandidate now =
      ((st.releaseCandidate now).1.withAside a, (st.releaseCandidate now).2) := by
  unfold releaseCandidate
  cases st.policy.debounce with
  | none => rfl
  | some d =>
    cases hc : st.candidate with
    | none => rfl
    | some c =>
      have hpub : st.lastPublished.isSome := hst.isSome (.inr (.inr (by simp [hc])))
      dsimp only
      split
      · rw [rateLimited_withAside { st with candidate := none } a now hpub]
        split
        · rfl
        · exact publishIfChanged_withAside { st with candidate := none } a now c.latest c.latestObs
      · rfl

end Aside

/-! ### Started states stay started -/

theorem started_new (policy : ReportPolicy) (origin : Nat) :
    (new policy origin : ReportState T).Started := fun _ => ⟨rfl, rfl, rfl⟩

theorem started_publish (st : ReportState T) (item : T) (obs : Obs) (q : Quality) (now : Nat) :
    (st.publish item obs q now).1.Started := by
  intro h
  cases h

theorem started_offerAt {st : ReportState T} (hst : st.Started) (item : T) (obs : Obs)
    (q : Quality) (now : Nat) : (st.offerAt item obs q now).1.Started := by
  have hspec := st.offerAt_spec item obs q now
  generalize st.offerAt item obs q now = r at hspec
  cases hspec with
  | published => exact started_publish st item obs q now
  | dropped lo hlast => exact fun h => by simp [(hst h).1] at hlast
  | held lo hlast => exact fun h => by simp [(hst h).1] at hlast
  | debouncing lo hlast => exact fun h => by simp [(hst h).1] at hlast

theorem started_releasePending {st : ReportState T} (hst : st.Started) (now : Nat) :
    (st.releasePending now).1.Started := by
  rcases releasePending_spec st now with ⟨heq, -⟩ | ⟨m, item, obs, -, -, -, heq⟩
  · rwa [heq]
  · rw [heq]
    rcases publishIfChanged_spec { st with pending := none } item obs now with
      ⟨heq', -⟩ | ⟨lo, q, -, -, heq'⟩
    · rw [heq']
      exact fun h => ⟨(hst h).1, rfl, (hst h).2.2⟩
    · rw [heq']
      exact started_publish _ _ _ _ _

theorem started_release {st : ReportState T} (hst : st.Started) (now : Nat) :
    (st.release now).1.Started := by
  have hspec := st.release_spec now
  generalize st.release now = r at hspec
  cases hspec with
  | idle => exact hst
  | pending | candidate => exact started_publish _ _ _ _ _
  | stale => exact fun h => ⟨(hst h).1, rfl, (hst h).2.2⟩
  | held d c _ hc => exact fun h => by simp [(hst h).2.2] at hc
  | dropped d c p _ hc => exact fun h => by simp [(hst h).2.2] at hc

theorem release_withAside {st : ReportState T} (hst : st.Started) (a : Aside) (now : Nat) :
    (st.withAside a).release now = ((st.release now).1.withAside a, (st.release now).2) := by
  have hstarted := started_releasePending hst now
  unfold release
  rw [releasePending_withAside st a now hst]
  generalize st.releasePending now = r at hstarted
  obtain ⟨st', _ | item⟩ := r
  · exact releaseCandidate_withAside st' a now hstarted
  · rfl

end ReportState

/-! ## The two runs -/

/-- A reading of a source's history: with its source time, and the runtime time it is offered
at. -/
structure Replayed (α : Type u) where
  reading : Reading α
  src : Nat
  now : Nat

namespace Replayed

variable {α : Type u}

def toOp (e : Replayed α) : Op α := .offerReplayed e.reading e.src e.now

/-- How the live run on source time takes it. -/
def toLive (e : Replayed α) : List (Op α) := [.due e.src false, .offer e.reading e.src]

end Replayed

variable {α : Type u}

/-- The replaying state `rep` and the live state `live` after the same readings: once the next
replayed reading has put `rep` on source time, it differs from `live` aside only. -/
structure InStep (live rep : ReportState (Reading α)) : Prop where
  clock : live.clock = .runtime
  started : live.Started
  aside : ∀ src now, ∃ a : Aside, a.clock = .replay now ∧
    rep.startReplay src now = live.withAside a

theorem inStep_new (policy : ReportPolicy) (origin origin' : Nat) :
    InStep (new policy origin') (new policy origin :
      ReportState (Reading α)) where
  clock := rfl
  started := started_new policy origin'
  aside _ now := ⟨⟨origin, none, false, .replay now, none⟩, rfl, rfl⟩

private theorem due_of_polled {st : ReportState (Reading α)} (h : st.clock = .runtime)
    (now : Nat) :
    (st.due now false).1 = (st.release now).1 ∧ (st.due now false).2.publish = (st.release now).2 := by
  rw [due_of_runtime h]
  refine ⟨?_, rfl⟩
  simp only [dueLive, heartbeatRead]
  split <;> rfl

/-- **One reading keeps the runs in step**, and both publish the same at it. -/
theorem inStep_reading {live rep : ReportState (Reading α)} (h : InStep live rep)
    (e : Replayed α) :
    InStep (final step live e.toLive) (step rep e.toOp).1 ∧
      published (log step live e.toLive) = (step rep e.toOp).2.published := by
  obtain ⟨a, hclock, hrep⟩ := h.aside e.src e.now
  obtain ⟨hdue, hout⟩ := due_of_polled h.clock e.src
  have hruntime : (live.release e.src).1.clock = .runtime :=
    (live.release_frame e.src).2.1.trans h.clock
  have hstarted := started_release h.started e.src
  -- the replaying state releases and offers as the live one does, its aside carried along
  have hreplayed : rep.offerReplayed e.reading e.reading.obs e.reading.quality e.src e.now =
      ((((live.release e.src).1.offerAt e.reading e.reading.obs e.reading.quality
          e.src).1.withAside a).noteSrc,
        (live.release e.src).2.toList ++ ((live.release e.src).1.offerAt e.reading
          e.reading.obs e.reading.quality e.src).2.toList) := by
    simp only [offerReplayed, hrep, release_withAside h.started,
      offerAt_withAside _ _ _ hstarted]
  simp only [Replayed.toLive, Replayed.toOp, step, final_cons, final_nil, log_cons, log_nil,
    published_cons, published_nil, List.append_nil, hreplayed, hdue, hout,
    offer_of_runtime hruntime]
  refine ⟨⟨?_, started_offerAt hstarted _ _ _ _, fun src now => ?_⟩, trivial⟩
  · exact (offerAt_frame ..).2.1.trans hruntime
  · refine ⟨{ a with
      clock := .replay now
      lastPublishedSrc := ((((live.release e.src).1.offerAt e.reading e.reading.obs
        e.reading.quality e.src).1.withAside a).noteSrc).lastPublishedSrc }, rfl, ?_⟩
    simp only [startReplay, noteSrc, hclock]

/-- **A replay reduces like the live stream.** Whatever the policy, the history and the times the
runtime gets it at, the replay publishes the readings the live run on source time publishes, in
the same order. -/
theorem replay_eq_live (policy : ReportPolicy) (origin origin' : Nat)
    (es : List (Replayed α)) :
    published (log step (new policy origin) (es.map Replayed.toOp)) =
      published (log step (new policy origin') (es.flatMap Replayed.toLive)) := by
  suffices h : ∀ live rep : ReportState (Reading α), InStep live rep →
      published (log step rep (es.map Replayed.toOp)) =
        published (log step live (es.flatMap Replayed.toLive)) from
    h _ _ (inStep_new policy origin origin')
  induction es with
  | nil => exact fun _ _ _ => rfl
  | cons e es ih =>
    intro live rep h
    obtain ⟨hnext, hpub⟩ := inStep_reading h e
    rw [List.map_cons, log_cons, published_cons, List.flatMap_cons, log_append,
      published_append, hpub, ih _ _ hnext]

end TedgeDot.Report
