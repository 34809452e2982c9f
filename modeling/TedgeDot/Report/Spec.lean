import TedgeDot.Report.State

/-!
# What one call can do

One inversion lemma for each operation of `ReportState`: every result `offerAt`, `releasePending`
and `releaseCandidate` can have, with the guards that lead to it. The invariants and the run
lemmas of the other files are case analyses of these, and unfold no operation again.
-/

namespace TedgeDot.Report

universe u

namespace ReportState

variable {T : Type u}

/-! ## Projections -/

section Projections

variable (st : ReportState T) (item : T) (obs : Obs) (q : Quality) (now src : Nat)

@[simp] theorem publish_out : (st.publish item obs q now).2 = some item := rfl
@[simp] theorem publish_policy : (st.publish item obs q now).1.policy = st.policy := rfl
@[simp] theorem publish_last : (st.publish item obs q now).1.last = some (obs, q) := rfl
@[simp] theorem publish_lastPublished :
    (st.publish item obs q now).1.lastPublished = some now := rfl
@[simp] theorem publish_pending : (st.publish item obs q now).1.pending = none := rfl
@[simp] theorem publish_candidate : (st.publish item obs q now).1.candidate = none := rfl

@[simp] theorem handOver_policy : (st.handOver now).policy = st.policy := rfl
@[simp] theorem handOver_last : (st.handOver now).last = st.last := rfl
@[simp] theorem handOver_pending : (st.handOver now).pending = st.pending := rfl
@[simp] theorem handOver_candidate :
    (st.handOver now).candidate = st.candidate.map (fun c => { c with since := now }) := rfl

@[simp] theorem noteSrc_policy : st.noteSrc.policy = st.policy := rfl
@[simp] theorem noteSrc_last : st.noteSrc.last = st.last := rfl
@[simp] theorem noteSrc_pending : st.noteSrc.pending = st.pending := rfl
@[simp] theorem noteSrc_candidate : st.noteSrc.candidate = st.candidate := rfl

@[simp] theorem startReplay_policy : (st.startReplay src now).policy = st.policy := by
  unfold startReplay; split <;> rfl

@[simp] theorem startReplay_last : (st.startReplay src now).last = st.last := by
  unfold startReplay; split <;> rfl

@[simp] theorem startReplay_pending : (st.startReplay src now).pending = st.pending := by
  unfold startReplay; split <;> rfl

end Projections

/-! ## `offer_at` -/

/-- Everything `offer_at` can do with a reading of quality `q`. -/
inductive Offered (st : ReportState T) (item : T) (obs : Obs) (q : Quality) (now : Nat) :
    ReportState T × Option T → Prop where
  /-- Published: nothing of this quality was published last, or the heartbeat is due, or it is a
  change outside the rate limit. -/
  | published
      (hwhy : ∀ lo, st.last = some (lo, q) → st.heartbeatDue now = true ∨
        (st.rateLimited now = false ∧
          (st.policy.filtersChanges = true → st.policy.changed obs lo = true))) :
      Offered st item obs q now (st.publish item obs q now)
  /-- Dropped as no change, with anything held. -/
  | dropped (lo : Obs) (hlast : st.last = some (lo, q))
      (hfilter : st.policy.filtersChanges = true) (hsame : st.policy.changed obs lo = false)
      (hbeat : st.heartbeatDue now = false)
      (c : Option (Candidate T)) (hc : c = none ∨ st.policy.debounce = none ∧ c = st.candidate) :
      Offered st item obs q now ({ st with pending := none, candidate := c }, none)
  /-- Held by the rate limit, superseding anything held. -/
  | held (lo : Obs) (hlast : st.last = some (lo, q)) (hlimit : st.rateLimited now = true)
      (hbeat : st.heartbeatDue now = false)
      (hchanged : st.policy.debounce.isSome = true → st.policy.changed obs lo = true)
      (c : Option (Candidate T)) (hc : c = none ∨ st.policy.debounce = none ∧ c = st.candidate) :
      Offered st item obs q now ({ st with pending := some (item, obs), candidate := c }, none)
  /-- Debouncing: it starts a run of its own, or goes on with the one that was settling. -/
  | debouncing (lo : Obs) (hlast : st.last = some (lo, q)) (d : Nat)
      (hdebounce : st.policy.debounce = some d) (hchanged : st.policy.changed obs lo = true)
      (hbeat : st.heartbeatDue now = false)
      (c : Candidate T) (hitem : c.latest = item) (hobs : c.latestObs = obs)
      (hsince : c.since = now ∨ ∃ c₀, st.candidate = some c₀ ∧ c.since = c₀.since) :
      Offered st item obs q now ({ st with candidate := some c }, none)

/-- Everything the debounce block can do: go on, forget the slots, or debounce. -/
inductive Settled (st : ReportState T) (item : T) (obs : Obs) (now : Nat) (ch : Bool) :
    ReportState T × Option (T × Obs) → Prop where
  | passed (c : Option (Candidate T))
      (hc : c = none ∧ ch = true ∨ st.policy.debounce = none ∧ c = st.candidate) :
      Settled st item obs now ch ({ st with candidate := c }, some (item, obs))
  | back (d : Nat) (hdebounce : st.policy.debounce = some d) (hsame : ch = false) :
      Settled st item obs now ch ({ st with candidate := none, pending := none }, none)
  | debouncing (d : Nat) (hdebounce : st.policy.debounce = some d) (hchanged : ch = true)
      (c : Candidate T) (hitem : c.latest = item) (hobs : c.latestObs = obs)
      (hsince : c.since = now ∨ ∃ c₀, st.candidate = some c₀ ∧ c.since = c₀.since) :
      Settled st item obs now ch ({ st with candidate := some c }, none)

theorem settle_spec (st : ReportState T) (item : T) (obs : Obs) (now : Nat) (ch : Bool) :
    st.Settled item obs now ch (st.settle item obs now ch) := by
  unfold settle
  split
  next hd => exact .passed st.candidate (.inr ⟨hd, rfl⟩)
  next d hd =>
    split
    next hch => exact .back d hd (by simpa using hch)
    next hch =>
      have hch : ch = true := by simpa using hch
      split
      next c hcand =>
        split
        · split
          · exact .debouncing d hd hch _ rfl rfl (.inr ⟨c, hcand, rfl⟩)
          · exact .passed none (.inl ⟨rfl, hch⟩)
        · exact .debouncing d hd hch _ rfl rfl (.inl rfl)
      next => exact .debouncing d hd hch _ rfl rfl (.inl rfl)

/-- What an offer does, by cases. -/
theorem offerAt_spec (st : ReportState T) (item : T) (obs : Obs) (q : Quality) (now : Nat) :
    st.Offered item obs q now (st.offerAt item obs q now) := by
  unfold offerAt
  split
  next hlast => exact .published (by simp [hlast])
  -- in the order of `offer_at`: quality, deadband, debounce, rate limit
  next lo lq hlast =>
    split
    next hq =>
      refine .published fun lo' hlast' => absurd ?_ hq
      rw [hlast'] at hlast
      cases hlast
      rfl
    next hq =>
      obtain rfl : lq = q := not_not.mp hq
      split
      next hbeat => exact .published fun _ _ => .inl hbeat
      next hbeat =>
        have hbeat : st.heartbeatDue now = false := by simpa using hbeat
        have hset := st.settle_spec item obs now (st.policy.changed obs lo)
        generalize st.settle item obs now (st.policy.changed obs lo) = r at hset
        cases hset with
        | back d hd hsame =>
          exact .dropped lo hlast (ReportPolicy.filtersChanges_of_debounce hd) hsame hbeat none
            (.inl rfl)
        | debouncing d hd hch c hitem hobs hsince =>
          exact .debouncing lo hlast d hd hch hbeat c hitem hobs hsince
        | passed c hc =>
          have hc' : c = none ∨ st.policy.debounce = none ∧ c = st.candidate :=
            hc.imp_left And.left
          split
          next heq => cases heq
          next heq =>
            cases heq
            split
            next hlim =>
              refine .held lo hlast hlim hbeat (fun hd => ?_) c hc'
              rcases hc with ⟨-, hch⟩ | ⟨hnone, -⟩
              · exact hch
              · simp [hnone] at hd
            next hlim =>
              dsimp only
              split
              next hdrop =>
                simp only [Bool.and_eq_true, Bool.not_eq_true'] at hdrop
                exact .dropped lo hlast hdrop.1 hdrop.2 hbeat c hc'
              next hpub =>
                refine .published fun lo' hlast' => .inr ⟨Bool.eq_false_iff.mpr hlim, fun hf => ?_⟩
                rw [hlast'] at hlast
                cases hlast
                simp only [Bool.and_eq_true, Bool.not_eq_true', not_and] at hpub
                simpa using hpub hf

/-! ## `release` -/

theorem publishIfChanged_spec (st : ReportState T) (item : T) (obs : Obs) (now : Nat) :
    (st.publishIfChanged item obs now = (st, none) ∧
      ∀ lo q, st.last = some (lo, q) →
        st.policy.filtersChanges = true ∧ st.policy.changed obs lo = false) ∨
    ∃ lo q, st.last = some (lo, q) ∧
      (st.policy.filtersChanges = true → st.policy.changed obs lo = true) ∧
      st.publishIfChanged item obs now = st.publish item obs q now := by
  unfold publishIfChanged
  split
  next hlast => exact .inl ⟨rfl, by simp [hlast]⟩
  next lo q hlast =>
    split
    next hdrop =>
      simp only [Bool.and_eq_true, Bool.not_eq_true'] at hdrop
      refine .inl ⟨rfl, fun lo' q' hlast' => ?_⟩
      rw [hlast'] at hlast
      cases hlast
      exact hdrop
    next hpub =>
      refine .inr ⟨lo, q, hlast, fun hf => ?_, rfl⟩
      simp only [Bool.and_eq_true, Bool.not_eq_true', not_and] at hpub
      simpa using hpub hf

theorem releasePending_spec (st : ReportState T) (now : Nat) :
    (st.releasePending now = (st, none) ∧
      ∀ m p, st.policy.minInterval = some m → st.pending = some p → st.sincePublished now < m) ∨
    ∃ m item obs, st.policy.minInterval = some m ∧ st.pending = some (item, obs) ∧
      m ≤ st.sincePublished now ∧
      st.releasePending now = { st with pending := none }.publishIfChanged item obs now := by
  unfold releasePending
  split
  next m item obs hm hp =>
    split
    next hle => exact .inr ⟨m, item, obs, hm, hp, hle, rfl⟩
    next hle =>
      refine .inl ⟨rfl, fun m' p hm' _ => ?_⟩
      rw [hm] at hm'
      cases hm'
      omega
  next hnone =>
    refine .inl ⟨rfl, fun m p hm hp => ?_⟩
    obtain ⟨item, obs⟩ := p
    exact (hnone m item obs hm hp).elim

/-- A candidate is released once it has settled: to wait for the rate limit, or at once. -/
theorem releaseCandidate_spec (st : ReportState T) (now : Nat) :
    (st.releaseCandidate now = (st, none) ∧
      ∀ d c, st.policy.debounce = some d → st.candidate = some c → now - c.since < d) ∨
    ∃ d c, st.policy.debounce = some d ∧ st.candidate = some c ∧ d ≤ now - c.since ∧
      (st.rateLimited now = true ∧
          st.releaseCandidate now =
            ({ st with candidate := none, pending := some (c.latest, c.latestObs) }, none) ∨
        st.rateLimited now = false ∧
          st.releaseCandidate now =
            { st with candidate := none }.publishIfChanged c.latest c.latestObs now) := by
  unfold releaseCandidate
  split
  next d c hd hc =>
    split
    next hle =>
      refine .inr ⟨d, c, hd, hc, hle, ?_⟩
      dsimp only
      split
      next hlim => exact .inl ⟨hlim, rfl⟩
      next hlim => exact .inr ⟨Bool.eq_false_iff.mpr hlim, rfl⟩
    next hle =>
      refine .inl ⟨rfl, fun d' c' hd' hc' => ?_⟩
      rw [hd] at hd'
      rw [hc] at hc'
      cases hd'
      cases hc'
      omega
  next hnone => exact .inl ⟨rfl, fun d c hd hc => (hnone d c hd hc).elim⟩

/-- Everything `release` can do. -/
inductive Released (st : ReportState T) (now : Nat) : ReportState T × Option T → Prop where
  /-- Nothing is due. -/
  | idle
      (hpending : ∀ m p, st.policy.minInterval = some m → st.pending = some p →
        st.sincePublished now < m)
      (hcandidate : ∀ d c, st.policy.debounce = some d → st.candidate = some c →
        now - c.since < d) :
      Released st now (st, none)
  /-- The held reading is published, and a debouncing one forgotten. -/
  | pending (m : Nat) (item : T) (obs lo : Obs) (q : Quality)
      (hmin : st.policy.minInterval = some m) (hpending : st.pending = some (item, obs))
      (hle : m ≤ st.sincePublished now) (hlast : st.last = some (lo, q))
      (hchanged : st.policy.filtersChanges = true → st.policy.changed obs lo = true) :
      Released st now (st.publish item obs q now)
  /-- The held reading, no longer a change, is dropped; the candidate has not settled. -/
  | stale (m : Nat) (item : T) (obs : Obs)
      (hmin : st.policy.minInterval = some m) (hpending : st.pending = some (item, obs))
      (hle : m ≤ st.sincePublished now)
      (hsame : ∀ lo q, st.last = some (lo, q) →
        st.policy.filtersChanges = true ∧ st.policy.changed obs lo = false)
      (hcandidate : ∀ d c, st.policy.debounce = some d → st.candidate = some c →
        now - c.since < d) :
      Released st now ({ st with pending := none }, none)
  /-- The settled reading is published. -/
  | candidate (d : Nat) (c : Candidate T) (lo : Obs) (q : Quality)
      (hdebounce : st.policy.debounce = some d) (hcandidate : st.candidate = some c)
      (hle : d ≤ now - c.since) (hlimit : st.rateLimited now = false)
      (hlast : st.last = some (lo, q))
      (hchanged : st.policy.filtersChanges = true → st.policy.changed c.latestObs lo = true) :
      Released st now (st.publish c.latest c.latestObs q now)
  /-- The settled reading waits for the rate limit, superseding anything held. -/
  | held (d : Nat) (c : Candidate T) (hdebounce : st.policy.debounce = some d)
      (hcandidate : st.candidate = some c) (hle : d ≤ now - c.since)
      (hlimit : st.rateLimited now = true) :
      Released st now
        ({ st with candidate := none, pending := some (c.latest, c.latestObs) }, none)
  /-- The settled reading is no longer a change. -/
  | dropped (d : Nat) (c : Candidate T) (p : Option (T × Obs))
      (hdebounce : st.policy.debounce = some d) (hcandidate : st.candidate = some c)
      (hle : d ≤ now - c.since) (hlimit : st.rateLimited now = false)
      (hp : p = none ∨ p = st.pending)
      (hsame : ∀ lo q, st.last = some (lo, q) →
        st.policy.filtersChanges = true ∧ st.policy.changed c.latestObs lo = false) :
      Released st now ({ st with candidate := none, pending := p }, none)

private theorem released_of_candidate {st : ReportState T} {now : Nat} {p : Option (T × Obs)}
    (hp : p = none ∨ p = st.pending)
    (hidle : (∀ d c, st.policy.debounce = some d → st.candidate = some c → now - c.since < d) →
      st.Released now ({ st with pending := p }, none)) :
    st.Released now ({ st with pending := p }.releaseCandidate now) := by
  rcases releaseCandidate_spec { st with pending := p } now with
    ⟨heq, hnot⟩ | ⟨d, c, hd, hc, hle, hdone⟩
  · rw [heq]
    exact hidle hnot
  · rcases hdone with ⟨hlim, heq⟩ | ⟨hlim, heq⟩
    · rw [heq]
      exact .held d c hd hc hle hlim
    · rw [heq]
      rcases publishIfChanged_spec { st with pending := p, candidate := none } c.latest
        c.latestObs now with ⟨heq', hsame⟩ | ⟨lo, q, hlast, hch, heq'⟩
      · rw [heq']
        exact .dropped d c p hd hc hle hlim hp hsame
      · rw [heq']
        exact .candidate d c lo q hd hc hle hlim hlast hch

theorem release_spec (st : ReportState T) (now : Nat) : st.Released now (st.release now) := by
  unfold release
  rcases releasePending_spec st now with ⟨heq, hnot⟩ | ⟨m, item, obs, hm, hp, hle, heq⟩
  · rw [heq]
    exact released_of_candidate (p := st.pending) (.inr rfl) fun hcand => .idle hnot hcand
  · rw [heq]
    rcases publishIfChanged_spec { st with pending := none } item obs now with
      ⟨heq', hsame⟩ | ⟨lo, q, hlast, hch, heq'⟩
    · rw [heq']
      exact released_of_candidate (p := none) (.inl rfl)
        fun hcand => .stale m item obs hm hp hle hsame hcand
    · rw [heq']
      exact .pending m item obs lo q hm hp hle hlast hch

theorem heartbeatRead_fst (st : ReportState T) (now : Nat) (pushed : Bool) :
    ∃ r, (st.heartbeatRead now pushed).1 = { st with lastRead := r } := by
  unfold heartbeatRead
  split
  · exact ⟨st.lastRead, rfl⟩
  · dsimp only
    split
    · exact ⟨some now, rfl⟩
    · exact ⟨st.lastRead, rfl⟩

end ReportState

end TedgeDot.Report
