import TedgeDot.Report.Rate

/-!
# What becomes of the last reading

The readings of a point stop, and the passes of the runtime loop go on. Without a heartbeat the
last reading is then published, or is no change from the last published one
(`final_reading_iff`), except after one event: a pass releases an older reading that the rate
limit held while the last one is still debouncing (`Drops`). `publish` clears both slots, so the
newer reading is gone.

After the last offer a point is in one of three phases (`Safe`): nothing is left to publish, the
last reading waits for the rate limit, or it debounces. A pass moves it forward, a pass late
enough ends it, and a pass that drops the reading is the only way out.
-/

namespace TedgeDot.Report

open Machine ReportState

universe u

variable {α : Type u}

/-! ## Statement -/

/-- A pass of the runtime loop: its time, and whether the point is pushed. -/
def duePass (pass : Nat × Bool) : LiveOp α := .due pass.1 pass.2

/-- The last reading offered, `r`, against the readings published: the last published one has its
observation, or `r` is no change from it; under a policy that compares nothing it is `r`. -/
def KeepsFinal (policy : ReportPolicy) (r : Reading α) (pubs : List (Reading α)) : Prop :=
  ∃ p, pubs.getLast? = some p ∧
    (r.obs = p.obs ∨ policy.changed r.obs p.obs = false) ∧
    (policy.filtersChanges = false → p = r)

/-- A pass at `now` releases a held reading, a change from the last published one, while a newer
reading still debounces that is a change from the held one. -/
def Drops {T : Type u} (st : ReportState T) (now : Nat) : Prop :=
  ∃ min item obs c lo q,
    st.policy.debounce.isSome ∧ st.policy.minInterval = some min ∧
    st.pending = some (item, obs) ∧ st.candidate = some c ∧ st.last = some (lo, q) ∧
    min ≤ st.sincePublished now ∧ st.policy.changed obs lo = true ∧
    c.latestObs ≠ obs ∧ st.policy.changed c.latestObs obs = true

/-! ## Before the last offer -/

/-- A live run of good readings so far: `pubs` is what it published, at times up to `t`. -/
structure Running (policy : ReportPolicy) (t : Nat) (pubs : List (Reading α))
    (st : ReportState (Reading α)) : Prop where
  clock : st.clock = .runtime
  policy : st.policy = policy
  last : st.last = pubs.getLast?.map fun p => (p.obs, .good)
  time : st.last ≠ none → ∃ x ≤ t, st.lastPublished = some x
  pending : ∀ p, st.pending = some p → p.2 = p.1.obs
  candidate : ∀ c, st.candidate = some c → c.since ≤ t ∧ c.latestObs = c.latest.obs
  news : ∀ c lo q, st.candidate = some c → st.last = some (lo, q) →
    st.policy.changed c.latestObs lo = true

section Running

variable {policy : ReportPolicy} {t now : Nat} {pubs : List (Reading α)}
  {st st' : ReportState (Reading α)}

theorem running_new (policy : ReportPolicy) (t origin : Nat) :
    Running policy t ([] : List (Reading α)) (new policy origin) where
  clock := rfl
  policy := rfl
  last := rfl
  time h := absurd rfl h
  pending p hp := by cases hp
  candidate c hc := by cases hc
  news c _ _ hc := by cases hc

private theorem Running.publish (h : Running policy t pubs st) (hnow : now ≤ t)
    (r : Reading α) : Running policy t (pubs ++ [r]) (st.publish r r.obs .good now).1 where
  clock := h.clock
  policy := h.policy
  last := by simp
  time _ := ⟨now, hnow, rfl⟩
  pending p hp := by cases hp
  candidate c hc := by cases hc
  news c _ _ hc := by cases hc

private theorem Running.slots (h : Running policy t pubs st) {p : Option (Reading α × Obs)}
    {c : Option (Candidate (Reading α))} (hp : ∀ x, p = some x → x.2 = x.1.obs)
    (hc : ∀ x, c = some x → (x.since ≤ t ∧ x.latestObs = x.latest.obs) ∧
      ∀ lo q, st.last = some (lo, q) → st.policy.changed x.latestObs lo = true) :
    Running policy t pubs { st with pending := p, candidate := c } where
  clock := h.clock
  policy := h.policy
  last := h.last
  time := h.time
  pending := hp
  candidate x hx := (hc x hx).1
  news x lo q hx := (hc x hx).2 lo q

private theorem Running.candidateKept (h : Running policy t pubs st) :
    ∀ x, st.candidate = some x → (x.since ≤ t ∧ x.latestObs = x.latest.obs) ∧
      ∀ lo q, st.last = some (lo, q) → st.policy.changed x.latestObs lo = true :=
  fun x hx => ⟨h.candidate x hx, fun lo q => h.news x lo q hx⟩

/-- An offer of a good reading keeps the account of the debounce and the rate limit. -/
private theorem Running.offerAt (h : Running policy t pubs st) (hnow : now ≤ t) (r : Reading α)
    (hgood : r.quality = .good) :
    Running policy t (pubs ++ (st.offerAt r r.obs r.quality now).2.toList)
      (st.offerAt r r.obs r.quality now).1 := by
  have hspec := st.offerAt_spec r r.obs r.quality now
  generalize st.offerAt r r.obs r.quality now = s at hspec
  rw [hgood] at hspec
  have hkept : ∀ {c : Option (Candidate (Reading α))},
      c = none ∨ st.policy.debounce = none ∧ c = st.candidate →
      ∀ x, c = some x → (x.since ≤ t ∧ x.latestObs = x.latest.obs) ∧
        ∀ lo q, st.last = some (lo, q) → st.policy.changed x.latestObs lo = true := by
    rintro c (rfl | ⟨-, rfl⟩) x hx
    · cases hx
    · exact h.candidateKept x hx
  cases hspec with
  | published => exact h.publish hnow r
  | dropped lo _ _ _ _ c hc =>
    simpa using h.slots (fun _ hx => by cases hx) (hkept hc)
  | held lo _ _ _ _ c hc =>
    simpa using h.slots (p := some (r, r.obs)) (fun x hx => by cases hx; rfl) (hkept hc)
  -- it counts from now, or from the candidate there was
  | debouncing lo hlast d _ hchanged _ c hitem hobs hsince =>
    simp only [Option.toList_none, List.append_nil]
    refine h.slots h.pending fun x hx => ?_
    cases hx
    refine ⟨⟨?_, by rw [hobs, hitem]⟩, fun lo' q hlast' => ?_⟩
    rotate_left
    · rw [hlast] at hlast'
      cases hlast'
      rw [hobs]
      exact hchanged
    rcases hsince with hsince | ⟨c₀, hc₀, hsince⟩
    · omega
    · have := (h.candidate c₀ hc₀).1
      omega

/-- So does a release. -/
private theorem Running.release (h : Running policy t pubs st) (hnow : now ≤ t) :
    Running policy t (pubs ++ (st.release now).2.toList) (st.release now).1 := by
  have hspec := st.release_spec now
  generalize st.release now = s at hspec
  have hpub : ∀ {r : Reading α} {obs lo : Obs} {q : Quality}, obs = r.obs →
      st.last = some (lo, q) → Running policy t (pubs ++ [r]) (st.publish r obs q now).1 := by
    rintro r obs lo q rfl hlast
    have hq : q = .good := by
      have hl := h.last
      rw [hlast] at hl
      obtain ⟨p, -, hp⟩ := Option.map_eq_some_iff.mp hl.symm
      exact (congrArg Prod.snd hp).symm
    subst hq
    exact h.publish hnow r
  cases hspec with
  | idle => simpa using h
  | pending m item obs lo q _ hp _ hlast => exact hpub (h.pending _ hp) hlast
  | candidate d c lo q _ hc _ _ hlast => exact hpub (h.candidate c hc).2 hlast
  | stale => simpa using h.slots (fun _ hx => by cases hx) h.candidateKept
  | held d c _ hc =>
    simpa using h.slots (p := some (c.latest, c.latestObs))
      (fun x hx => by cases hx; exact (h.candidate c hc).2) (fun _ hx => by cases hx)
  | dropped d c p _ hc _ _ hp =>
    simp only [Option.toList_none, List.append_nil]
    refine h.slots (fun x hx => ?_) (fun _ hx => by cases hx)
    rcases hp with rfl | rfl
    · cases hx
    · exact h.pending x hx

end Running

/-! ## After the last offer -/

/-- Nothing is left to publish, and what was published meets `P`. -/
structure Ended (P : List (Reading α) → Prop)
    (s : List (Reading α) × ReportState (Reading α)) : Prop where
  clock : s.2.clock = .runtime
  held : s.2.held = []
  pubs : P s.1

/-- Where the last reading `r`, offered at `t`, is while it is not lost. -/
inductive Safe (policy : ReportPolicy) (r : Reading α) (t : Nat) :
    List (Reading α) × ReportState (Reading α) → Prop where
  | kept (s) (h : Ended (KeepsFinal policy r) s) : Safe policy r t s
  /-- The rate limit holds it. -/
  | waiting (pubs st m) (h : Running policy t pubs st) (hlast : st.last ≠ none)
      (hmin : policy.minInterval = some m) (hpending : st.pending = some (r, r.obs))
      (hsettling : st.settling = none) : Safe policy r t (pubs, st)
  /-- It debounces, with or without an older reading held. -/
  | debouncing (pubs st d c) (h : Running policy t pubs st) (hlast : st.last ≠ none)
      (hdebounce : policy.debounce = some d) (hcandidate : st.candidate = some c)
      (hlatest : c.latest = r) : Safe policy r t (pubs, st)

section Passes

variable {policy : ReportPolicy} {r : Reading α} {t now : Nat} {pubs : List (Reading α)}
  {st : ReportState (Reading α)}

theorem keepsFinal_append (policy : ReportPolicy) (r : Reading α) (pubs : List (Reading α)) :
    KeepsFinal policy r (pubs ++ [r]) := ⟨r, by simp, .inl rfl, fun _ => rfl⟩

private theorem Running.keepsFinal (h : Running policy t pubs st) (hlast : st.last ≠ none)
    (hsame : ∀ lo q, st.last = some (lo, q) →
      st.policy.filtersChanges = true ∧ st.policy.changed r.obs lo = false) :
    KeepsFinal policy r pubs := by
  have hl := h.last
  cases hp : pubs.getLast? with
  | none => exact absurd (by simpa [hp] using hl) hlast
  | some p =>
    obtain ⟨hf, hch⟩ := hsame p.obs .good (by simpa [hp] using hl)
    rw [h.policy] at hf hch
    exact ⟨p, hp, .inr hch, fun hnot => absurd hf (by simp [hnot])⟩

private theorem ended_publish {P : List (Reading α) → Prop} (h : Running policy t pubs st)
    (item : Reading α) (obs : Obs) (q : Quality) (now : Nat) (hP : P (pubs ++ [item])) :
    Ended P (pubs ++ [item], (st.publish item obs q now).1) where
  clock := h.clock
  held := held_publish st item obs q now
  pubs := hP

private theorem held_cleared {st : ReportState (Reading α)} {c : Option (Candidate (Reading α))}
    (hc : c = none ∨ st.policy.debounce = none ∧ c = st.candidate) :
    held { st with pending := none, candidate := c } = [] := by
  rcases hc with rfl | ⟨hnone, -⟩
  · simp [held, settling]
  · simp [held, settling, hnone]

/-- An offered reading is published, or kept so that it will be. -/
theorem safe_offerAt (h : Running policy t pubs st) (hgood : r.quality = .good) :
    Safe policy r t (pubs ++ (st.offerAt r r.obs r.quality t).2.toList,
      (st.offerAt r r.obs r.quality t).1) := by
  have hrun := h.offerAt (le_refl t) r hgood
  have hspec := st.offerAt_spec r r.obs r.quality t
  generalize st.offerAt r r.obs r.quality t = s at hspec hrun
  cases hspec with
  | published => exact .kept _ (ended_publish h r r.obs _ t (keepsFinal_append policy r pubs))
  | dropped lo hlast hfilter hsame _ c hc =>
    refine .kept _ ⟨h.clock, held_cleared hc, ?_⟩
    simp only [Option.toList_none, List.append_nil]
    refine h.keepsFinal (by simp [hlast]) fun lo' q hlast' => ?_
    rw [hlast] at hlast'
    cases hlast'
    exact ⟨hfilter, hsame⟩
  | held lo hlast hlimit _ _ c hc =>
    cases hmin : policy.minInterval with
    | none => simp [rateLimited, h.policy, hmin] at hlimit
    | some m =>
      refine .waiting _ _ m hrun (by simp [hlast]) hmin rfl ?_
      rcases hc with rfl | ⟨hnone, -⟩
      · simp [settling]
      · simp [settling, hnone]
  | debouncing lo hlast d hd _ _ c hitem =>
    exact .debouncing _ _ d c hrun (by simp [hlast]) (h.policy ▸ hd) rfl hitem

theorem release_of_pending {m : Nat} {item : Reading α} {obs lo : Obs} {q : Quality}
    (hmin : st.policy.minInterval = some m) (hpending : st.pending = some (item, obs))
    (hle : m ≤ st.sincePublished now) (hlast : st.last = some (lo, q))
    (hnews : st.policy.changed obs lo = true) :
    st.release now = st.publish item obs q now := by
  simp only [release, releasePending, hmin, hpending, hle, if_true,
    publishIfChanged, hlast, hnews, Bool.not_true, Bool.and_false,
    Bool.false_eq_true, if_false]
  rfl

/-- **A pass that drops the last reading** publishes an older one the last differs from. -/
theorem lost_release (h : Safe policy r t (pubs, st)) (hdrops : Drops st now) :
    Ended (fun pubs => ¬ KeepsFinal policy r pubs)
      (pubs ++ (st.release now).2.toList, (st.release now).1) := by
  obtain ⟨m, item, obs, c, lo, q, hd, hmin, hp, hc, hlast, hle, hnews, hne, hch⟩ := hdrops
  cases h with
  | kept _ h =>
    have hheld := h.held
    simp [held, hp] at hheld
  | waiting _ _ _ h _ _ _ hsettling =>
    obtain ⟨d, hd⟩ := Option.isSome_iff_exists.mp hd
    simp [settling, hd, hc] at hsettling
  | debouncing _ _ d c' h _ _ hc' hlatest =>
    obtain rfl : c = c' := by simpa [hc] using hc'
    rw [release_of_pending hmin hp hle hlast hnews]
    refine ended_publish h item obs q now ?_
    rintro ⟨p, hp', hsame, -⟩
    obtain rfl : item = p := by simpa using hp'
    have hobs : obs = item.obs := h.pending _ hp
    have hlatest' : c.latestObs = r.obs := by rw [(h.candidate c hc).2, hlatest]
    rw [hlatest', hobs] at hne
    rw [hlatest', hobs, h.policy] at hch
    rcases hsame with heq | hsame
    · exact hne heq
    · simp [hsame] at hch

private theorem Running.le_sincePublished (h : Running policy t pubs st) (hlast : st.last ≠ none)
    {m : Nat} (hlate : t + m ≤ now) : m ≤ st.sincePublished now := by
  obtain ⟨x, hx, hpub⟩ := h.time hlast
  simp only [sincePublished, hpub, Option.getD_some]
  omega

private theorem Running.not_rateLimited (h : Running policy t pubs st) (hlast : st.last ≠ none)
    (hlate : t + policy.minInterval.getD 0 ≤ now) : st.rateLimited now = false := by
  unfold rateLimited
  rw [h.policy]
  cases hmin : policy.minInterval with
  | none => rfl
  | some m =>
    have := h.le_sincePublished hlast (m := m) (by simpa [hmin] using hlate)
    simpa using this

private theorem release_of_held_nil (hheld : st.held = []) (now : Nat) :
    (st.release now).2 = none ∧ (st.release now).1.held = [] := by
  have hsub := st.release_held now
  rw [hheld, List.sublist_nil, List.append_eq_nil_iff] at hsub
  exact ⟨by simpa using hsub.1, hsub.2⟩

theorem ended_release {P : List (Reading α) → Prop} (h : Ended P (pubs, st)) :
    Ended P (pubs ++ (st.release now).2.toList, (st.release now).1) := by
  obtain ⟨hout, hheld⟩ := release_of_held_nil h.held now
  refine ⟨(st.release_frame now).2.1.trans h.clock, hheld, ?_⟩
  simpa [hout] using h.pubs

/-- A pending reading is published once the interval has passed. -/
private theorem waiting_release {m : Nat} (h : Running policy t pubs st) (hlast : st.last ≠ none)
    (hmin : policy.minInterval = some m) (hpending : st.pending = some (r, r.obs))
    (hsettling : st.settling = none) (now : Nat) :
    (st.release now = (st, none) ∧ st.sincePublished now < m) ∨
      Ended (KeepsFinal policy r) (pubs ++ (st.release now).2.toList, (st.release now).1) := by
  have hnot : ∀ {d : Nat} {c : Candidate (Reading α)}, st.policy.debounce = some d →
      st.candidate = some c → False := by
    intro d c hd hc
    simp [settling, hd, hc] at hsettling
  have hspec := st.release_spec now
  generalize st.release now = s at hspec
  cases hspec with
  | idle hwait => exact .inl ⟨rfl, hwait m _ (h.policy ▸ hmin) hpending⟩
  | pending m' item obs lo q _ hp =>
    obtain ⟨rfl, rfl⟩ : r = item ∧ r.obs = obs := by simpa [hpending] using hp
    exact .inr (ended_publish h r r.obs q now (keepsFinal_append policy r pubs))
  | stale m' item obs _ hp _ hsame =>
    obtain ⟨rfl, rfl⟩ : r = item ∧ r.obs = obs := by simpa [hpending] using hp
    refine .inr ⟨h.clock, ?_, by simpa using h.keepsFinal hlast hsame⟩
    show [] ++ st.settling.toList = []
    rw [hsettling]
    rfl
  | candidate d c _ _ hd hc => exact (hnot hd hc).elim
  | held d c hd hc => exact (hnot hd hc).elim
  | dropped d c _ hd hc => exact (hnot hd hc).elim

/-- **A pass that drops nothing** keeps the last reading safe, and a late one ends the wait. -/
theorem safe_release (h : Safe policy r t (pubs, st)) (hkeeps : ¬ Drops st now) :
    Safe policy r t (pubs ++ (st.release now).2.toList, (st.release now).1) ∧
      (t + policy.debounce.getD 0 + policy.minInterval.getD 0 ≤ now →
        Ended (KeepsFinal policy r) (pubs ++ (st.release now).2.toList, (st.release now).1)) := by
  cases h with
  | kept _ h => exact ⟨.kept _ (ended_release h), fun _ => ended_release h⟩
  | waiting _ _ m h hlast hmin hpending hsettling =>
    rcases waiting_release h hlast hmin hpending hsettling now with ⟨heq, hwait⟩ | hend
    · rw [heq]
      simp only [Option.toList_none, List.append_nil]
      refine ⟨.waiting pubs st m h hlast hmin hpending hsettling, fun hlate => ?_⟩
      rw [hmin, Option.getD_some] at hlate
      have := h.le_sincePublished hlast (show t + m ≤ now by omega)
      omega
    · exact ⟨.kept _ hend, fun _ => hend⟩
  | debouncing _ _ d c h hlast hd hc hlatest =>
    have hpol := h.policy
    have hobs : c.latestObs = r.obs := by rw [(h.candidate c hc).2, hlatest]
    have hlimit : t + policy.debounce.getD 0 + policy.minInterval.getD 0 ≤ now →
        st.rateLimited now = false := fun hlate => h.not_rateLimited hlast (by omega)
    have hsettled : t + policy.debounce.getD 0 + policy.minInterval.getD 0 ≤ now →
        ¬ now - c.since < d := by
      intro hlate
      have hsince := (h.candidate c hc).1
      simp only [hd, Option.getD_some] at hlate
      omega
    have hspec := st.release_spec now
    generalize st.release now = s at hspec
    cases hspec with
    | idle _ hwait =>
      simp only [Option.toList_none, List.append_nil]
      exact ⟨.debouncing pubs st d c h hlast hd hc hlatest,
        fun hlate => absurd (hwait d c (hpol ▸ hd) hc) (hsettled hlate)⟩
    | pending m item obs lo q hmin hp hle hl hchanged =>
      -- an older reading is released; since nothing is dropped, the last is no change from it
      have hsame : r.obs = item.obs ∨ policy.changed r.obs item.obs = false := by
        rw [← h.pending _ hp, ← hobs, ← hpol, ← Bool.not_eq_true]
        by_contra hnot
        rw [not_or, not_not] at hnot
        exact hkeeps ⟨m, item, obs, c, lo, q, by simp [hpol, hd], hmin, hp, hc, hl, hle,
          hchanged (ReportPolicy.filtersChanges_of_debounce (hpol ▸ hd)), hnot⟩
      have hend : Ended (KeepsFinal policy r) (pubs ++ [item], (st.publish item obs q now).1) :=
        ended_publish h item obs q now ⟨item, by simp, hsame, fun hnot => by
          simp [ReportPolicy.filtersChanges_of_debounce hd] at hnot⟩
      exact ⟨.kept _ hend, fun _ => hend⟩
    | stale m item obs hmin hp hle hsame hwait =>
      simp only [Option.toList_none, List.append_nil]
      exact ⟨.debouncing _ _ d c (h.slots (fun _ hx => by cases hx) h.candidateKept) hlast hd hc
        hlatest,
        fun hlate => absurd (hwait d c (hpol ▸ hd) hc) (hsettled hlate)⟩
    | candidate d' c' lo q _ hc' =>
      obtain rfl : c = c' := by simpa [hc] using hc'
      have hend := ended_publish h r c.latestObs q now (keepsFinal_append policy r pubs)
      rw [hlatest]
      exact ⟨.kept _ hend, fun _ => hend⟩
    | held d' c' _ hc' _ hlim =>
      obtain rfl : c = c' := by simpa [hc] using hc'
      rw [hlatest, hobs]
      simp only [Option.toList_none, List.append_nil]
      cases hmin : policy.minInterval with
      | none => simp [rateLimited, hpol, hmin] at hlim
      | some m =>
        refine ⟨.waiting _ _ m (h.slots (p := some (r, r.obs)) (fun x hx => by cases hx; rfl)
          (fun _ hx => by cases hx)) hlast hmin rfl (by simp [settling]), fun hlate => ?_⟩
        rw [hmin] at hlimit
        rw [hlimit hlate] at hlim
        cases hlim
    | dropped d' c' p _ hc' _ _ _ hsame =>
      -- a debouncing reading is a change from the last published one
      obtain rfl : c = c' := by simpa [hc] using hc'
      obtain ⟨⟨lo, q⟩, hl⟩ := Option.ne_none_iff_exists'.mp hlast
      have hnews := h.news c lo q hc hl
      rw [(hsame lo q hl).2] at hnews
      cases hnews

end Passes

/-! ## Whole runs -/

/-- A live run with what it has published so far. -/
def history : List (Reading α) × ReportState (Reading α) → LiveOp α →
    (List (Reading α) × ReportState (Reading α)) × Out α :=
  recorded liveStep Out.published

/-- The offered reading, if any, is good. -/
def LiveOp.Good : LiveOp α → Prop
  | .offer r _ => r.quality = .good
  | .due _ _ => True

section Runs

variable {policy : ReportPolicy} {r : Reading α} {t : Nat} {pubs : List (Reading α)}
  {st : ReportState (Reading α)}

private theorem history_due (pubs : List (Reading α)) (h : st.clock = .runtime) (pass : Nat × Bool) :
    ∃ lr, (history (pubs, st) (duePass pass)).1 =
      (pubs ++ (st.release pass.1).2.toList, { (st.release pass.1).1 with lastRead := lr }) := by
  obtain ⟨lr, hr⟩ := (st.release pass.1).1.heartbeatRead_fst pass.1 pass.2
  refine ⟨lr, ?_⟩
  simp only [history, recorded, duePass, liveStep, LiveOp.toOp, step,
    due_of_runtime h, dueLive, hr]

private theorem Running.lastRead (h : Running policy t pubs st) (lr : Option Nat) :
    Running policy t pubs { st with lastRead := lr } :=
  ⟨h.clock, h.policy, h.last, h.time, h.pending, h.candidate, h.news⟩

private theorem Ended.lastRead {P : List (Reading α) → Prop} (h : Ended P (pubs, st))
    (lr : Option Nat) : Ended P (pubs, { st with lastRead := lr }) :=
  ⟨h.clock, h.held, h.pubs⟩

private theorem Safe.lastRead (h : Safe policy r t (pubs, st)) (lr : Option Nat) :
    Safe policy r t (pubs, { st with lastRead := lr }) := by
  cases h with
  | kept _ h => exact .kept _ (h.lastRead lr)
  | waiting _ _ m h hlast hmin hpending hsettling =>
    exact .waiting _ _ m (h.lastRead lr) hlast hmin hpending hsettling
  | debouncing _ _ d c h hlast hd hc hlatest =>
    exact .debouncing _ _ d c (h.lastRead lr) hlast hd hc hlatest

private theorem Safe.runtime {s : List (Reading α) × ReportState (Reading α)}
    (h : Safe policy r t s) : s.2.clock = .runtime := by
  cases h with
  | kept _ h => exact h.clock
  | waiting _ _ _ h => exact h.clock
  | debouncing _ _ _ _ h => exact h.clock

theorem running_step (h : Running policy t pubs st) {op : LiveOp α} (htime : op.time ≤ t)
    (hgood : op.Good) :
    Running policy t (history (pubs, st) op).1.1 (history (pubs, st) op).1.2 := by
  cases op with
  | offer r now =>
    simp only [history, recorded, liveStep, LiveOp.toOp, step,
      offer_of_runtime h.clock]
    exact h.offerAt htime r hgood
  | due now pushed =>
    obtain ⟨lr, hr⟩ := history_due pubs h.clock (now, pushed)
    rw [show LiveOp.due now pushed = duePass (now, pushed) from rfl, hr]
    exact (h.release htime).lastRead lr

theorem running_final (h : Running policy t pubs st) (ops : List (LiveOp α))
    (htime : ∀ op ∈ ops, op.time ≤ t) (hgood : ∀ op ∈ ops, op.Good) :
    Running policy t (final history (pubs, st) ops).1 (final history (pubs, st) ops).2 := by
  induction ops generalizing pubs st with
  | nil => exact h
  | cons op ops ih =>
    have hstep := running_step h (htime op List.mem_cons_self) (hgood op List.mem_cons_self)
    exact ih hstep (fun op' h' => htime op' (List.mem_cons_of_mem op h'))
      (fun op' h' => hgood op' (List.mem_cons_of_mem op h'))

end Runs

/-- One pass, with what was published so far. -/
private def passStep (s : List (Reading α) × ReportState (Reading α)) (pass : Nat × Bool) :
    (List (Reading α) × ReportState (Reading α)) × Out α :=
  history s (duePass pass)

variable {policy : ReportPolicy} {r : Reading α} {t : Nat}

private theorem safe_pass (s : List (Reading α) × ReportState (Reading α)) (pass : Nat × Bool)
    (hkeeps : ¬ Drops s.2 pass.1) (h : Safe policy r t s) :
    Safe policy r t (passStep s pass).1 ∧
      (t + policy.debounce.getD 0 + policy.minInterval.getD 0 ≤ pass.1 →
        Ended (KeepsFinal policy r) (passStep s pass).1) := by
  obtain ⟨pubs, st⟩ := s
  obtain ⟨lr, hr⟩ := history_due pubs h.runtime pass
  obtain ⟨hsafe, hland⟩ := safe_release h hkeeps
  rw [passStep, hr]
  exact ⟨hsafe.lastRead lr, fun hlate => (hland hlate).lastRead lr⟩

private theorem lost_pass (s : List (Reading α) × ReportState (Reading α)) (pass : Nat × Bool)
    (hdrops : ¬ ¬ Drops s.2 pass.1) (h : Safe policy r t s) :
    Ended (fun pubs => ¬ KeepsFinal policy r pubs) (passStep s pass).1 := by
  obtain ⟨pubs, st⟩ := s
  obtain ⟨lr, hr⟩ := history_due pubs h.runtime pass
  rw [passStep, hr]
  exact (lost_release h (not_not.mp hdrops)).lastRead lr

private theorem ended_pass {P : List (Reading α) → Prop}
    (s : List (Reading α) × ReportState (Reading α)) (pass : Nat × Bool) (h : Ended P s) :
    Ended P (passStep s pass).1 := by
  obtain ⟨pubs, st⟩ := s
  obtain ⟨lr, hr⟩ := history_due pubs h.clock pass
  rw [passStep, hr]
  exact (ended_release h).lastRead lr

/-- **The passes after the last offer** keep its reading exactly when none of them drops it. -/
theorem keepsFinal_iff_of_safe {s : List (Reading α) × ReportState (Reading α)}
    (h : Safe policy r t s) {passes : List (Nat × Bool)}
    (hlate : ∃ pass ∈ passes, t + policy.debounce.getD 0 + policy.minInterval.getD 0 ≤ pass.1) :
    KeepsFinal policy r (final passStep s passes).1 ↔
      AllSteps passStep (fun s pass => ¬ Drops s.2 pass.1) s passes := by
  constructor
  · intro hkeeps
    by_contra hdrops
    have hlost := final_of_not_allSteps (fun s pass hC hs => (safe_pass s pass hC hs).1)
      (fun s pass hC hs => lost_pass s pass hC hs) (fun s pass hs => ended_pass s pass hs) hdrops h
    exact hlost.pubs hkeeps
  · intro hsteps
    have hkept := final_of_mem (fun s pass hC hs => (safe_pass s pass hC hs).1)
      (fun s pass hC hL hs => (safe_pass s pass hC hs).2 hL)
      (fun s pass _ hs => ended_pass s pass hs) hsteps h hlate
    exact hkept.pubs

theorem history_final (st : ReportState (Reading α)) (ops : List (LiveOp α)) :
    final history ([], st) ops = (published (log liveStep st ops), final liveStep st ops) :=
  final_recorded Out.published [] st ops

private theorem safe_offer (origin : Nat) {earlier : List (LiveOp α)}
    (hgood : ∀ op ∈ earlier ++ [.offer r t], op.Good) (htime : ∀ op ∈ earlier, op.time ≤ t) :
    Safe policy r t (final history ([], new policy origin)
      (earlier ++ [.offer r t])) := by
  have hrun := running_final (running_new policy t origin) earlier htime
    (fun op hop => hgood op (List.mem_append_left _ hop))
  rw [final_append]
  generalize final history ([], new policy origin) earlier = s at hrun
  simp only [final_cons, final_nil, history, recorded, liveStep, LiveOp.toOp, step,
    offer_of_runtime hrun.clock]
  exact safe_offerAt hrun (hgood (.offer r t) (by simp))

theorem allSteps_not_drops (h : policy.minInterval = none ∨ policy.debounce = none) (origin : Nat)
    (earlier later : List (LiveOp α)) :
    AllSteps liveStep (fun st op => ¬ Drops st op.time)
      (final liveStep (new policy origin) earlier) later := by
  let Fixed := fun st : ReportState (Reading α) => st.clock = .runtime ∧ st.policy = policy
  have hframe : ∀ (st : ReportState (Reading α)) (op : LiveOp α),
      Fixed st → Fixed (liveStep st op).1 := by
    rintro st op ⟨hclock, rfl⟩
    exact (liveStep_frame hclock op).symm
  have hstart : Fixed (final liveStep (new policy origin) earlier) :=
    final_induction hframe earlier ⟨rfl, rfl⟩
  refine allSteps_of_invariant hframe (fun st op hst => ?_) later hstart
  rintro ⟨min, item, obs, c, lo, q, hd, hmin, -⟩
  rw [hst.2] at hd hmin
  rcases h with h | h
  · simp [h] at hmin
  · simp [h] at hd

/-- **When the last reading is kept.** A point's readings are good and its calls come at times in
order. The last reading `r` is offered at `t`, and some later pass comes at
`t + debounce + min_interval` or later. Then the last reading is kept exactly when no pass after
it drops it. -/
theorem final_reading_iff {policy : ReportPolicy} (origin : Nat)
    (earlier : List (LiveOp α)) (r : Reading α) (t : Nat) (passes : List (Nat × Bool))
    (hgood : ∀ op ∈ earlier ++ [.offer r t], op.Good)
    (htimes : ((earlier ++ .offer r t :: passes.map duePass).map LiveOp.time).Pairwise (· ≤ ·))
    (hlate : ∃ pass ∈ passes,
      t + policy.debounce.getD 0 + policy.minInterval.getD 0 ≤ pass.1) :
    KeepsFinal policy r (published (log liveStep (new policy origin)
        (earlier ++ .offer r t :: passes.map duePass))) ↔
      AllSteps liveStep (fun st op => ¬ Drops st op.time)
        (final liveStep (new policy origin) (earlier ++ [.offer r t]))
        (passes.map duePass) := by
  have hbefore : ∀ op ∈ earlier, op.time ≤ t := by
    intro op hop
    rw [List.map_append, List.pairwise_append] at htimes
    exact htimes.2.2 op.time (List.mem_map_of_mem hop) t (by simp [LiveOp.time])
  have hiff := keepsFinal_iff_of_safe (safe_offer origin hgood hbefore) hlate
  -- the run and its steps, without what was published so far
  have hrun := history_final (new policy origin)
    ((earlier ++ [.offer r t]) ++ passes.map duePass)
  rw [final_append, final_map] at hrun
  have hpubs := congrArg Prod.fst hrun
  simp only [List.append_assoc, List.singleton_append] at hpubs
  rw [← hpubs]
  refine hiff.trans ?_
  rw [history_final, allSteps_map]
  change AllSteps (recorded (fun st (pass : Nat × Bool) => liveStep st (duePass pass))
    Out.published) (fun s pass => ¬ Drops s.2 pass.1) _ _ ↔ _
  exact allSteps_recorded Out.published (fun st pass => ¬ Drops st pass.1) _ _ passes

/-- A rate limit of 10 s and a debounce of 5 s, a reading published, a second one that settles
into the rate limit, and a third one a second later. -/
def droppedPolicy : ReportPolicy :=
  { minInterval := some (Duration.fromSecs 10), debounce := some (Duration.fromSecs 5) }

def droppedEarlier : List (LiveOp Nat) :=
  [.offer ⟨0, .number 0.0, .good⟩ 0,
    .offer ⟨1, .number 1.0, .good⟩ (Duration.fromSecs 1),
    .offer ⟨2, .number 1.0, .good⟩ (Duration.fromSecs 6)]

def droppedLast : Reading Nat := ⟨3, .number 2.0, .good⟩

/-- Passes at `t + debounce` and at `t + debounce + min_interval`, and one before. -/
def droppedPasses : List (Nat × Bool) :=
  [(Duration.fromSecs 10, false), (Duration.fromSecs 12, false), (Duration.fromSecs 22, false)]

/-- **The last reading is lost**: the first pass releases the second value, and the third, still
debouncing, is never published. -/
theorem final_reading_lost :
    ((droppedEarlier ++ .offer droppedLast (Duration.fromSecs 7) ::
      droppedPasses.map duePass).map LiveOp.time).Pairwise (· ≤ ·) ∧
    ¬ KeepsFinal droppedPolicy droppedLast (published (log liveStep
      (new droppedPolicy 0)
      (droppedEarlier ++ .offer droppedLast (Duration.fromSecs 7) ::
        droppedPasses.map duePass))) := by
  have hpubs : published (log liveStep (new droppedPolicy 0)
      (droppedEarlier ++ .offer droppedLast (Duration.fromSecs 7) ::
        droppedPasses.map duePass)) =
      [⟨0, .number 0.0, .good⟩, ⟨2, .number 1.0, .good⟩] := by decide
  refine ⟨by decide, ?_⟩
  rintro ⟨p, hp, hsame, -⟩
  rw [hpubs] at hp
  obtain rfl : ⟨2, .number 1.0, .good⟩ = p := by simpa using hp
  revert hsame
  decide

/-- With the debounce alone the same run keeps its last reading. -/
theorem final_reading_kept :
    let policy : ReportPolicy := { debounce := some (Duration.fromSecs 5) }
    KeepsFinal policy droppedLast (published (log liveStep (new policy 0)
      (droppedEarlier ++ .offer droppedLast (Duration.fromSecs 7) ::
        droppedPasses.map duePass))) := by
  refine (final_reading_iff 0 droppedEarlier droppedLast (Duration.fromSecs 7) droppedPasses
    ?_ (by decide) ⟨(Duration.fromSecs 22, false), by decide, by decide⟩).mpr ?_
  · intro op hop
    simp only [droppedEarlier, List.cons_append, List.nil_append, List.mem_cons,
      List.not_mem_nil, or_false] at hop
    rcases hop with rfl | rfl | rfl | rfl <;> rfl
  · exact allSteps_not_drops (.inl rfl) 0 _ _

end TedgeDot.Report
