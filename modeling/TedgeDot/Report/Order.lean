import TedgeDot.Report.Spec

/-!
# Reporting keeps the order of the readings

Whatever the policy and the calls, the readings a point publishes are a subsequence of the
readings it was offered (`published_sublist`), a quality change is published by the call that
offers it, and nothing offered before the change follows it (`quality_change_at_once`).

The argument is an account of the two holding slots: `held` lists what a state may still publish,
oldest first, and each call keeps `published ++ held` a sublist of `held ++ offered`.
-/

namespace TedgeDot.Report

open Machine ReportState

universe u

namespace ReportState

variable {T : Type u}

/-- The debouncing reading. A candidate counts only under a policy that debounces. -/
def settling (st : ReportState T) : Option T :=
  st.policy.debounce.bind fun _ => st.candidate.map Candidate.latest

/-- The readings a state may still publish, oldest first: the one the rate limit holds, then the
one that debounces. -/
def held (st : ReportState T) : List T :=
  (st.pending.map Prod.fst).toList ++ st.settling.toList

@[simp] theorem held_new (policy : ReportPolicy) (now : Nat) :
    (new policy now : ReportState T).held = [] := by
  simp [held, settling, new]

@[simp] theorem held_publish (st : ReportState T) (item : T) (obs : Obs) (q : Quality)
    (now : Nat) : (st.publish item obs q now).1.held = [] := by
  simp [held, settling]

@[simp] theorem held_handOver (st : ReportState T) (now : Nat) :
    (st.handOver now).held = st.held := by
  simp only [held, settling, handOver_pending, handOver_policy, handOver_candidate,
    Option.map_map]
  rfl

@[simp] theorem held_startReplay (st : ReportState T) (src now : Nat) :
    (st.startReplay src now).held = st.held := by
  unfold startReplay
  split
  · simp only [held, settling, Option.map_map]
    rfl
  · rfl

@[simp] theorem held_noteSrc (st : ReportState T) : st.noteSrc.held = st.held := rfl

/-! ## One call accounts for its readings -/

theorem offerAt_held (st : ReportState T) (item : T) (obs : Obs) (q : Quality) (now : Nat) :
    ((st.offerAt item obs q now).2.toList ++ (st.offerAt item obs q now).1.held).Sublist
      (st.held ++ [item]) := by
  have hspec := st.offerAt_spec item obs q now
  generalize st.offerAt item obs q now = r at hspec
  cases hspec with
  | published => simp
  | dropped lo _ _ _ _ c hc =>
    rcases hc with rfl | ⟨hnone, rfl⟩
    · simp [held, settling]
    · simp [held, settling, hnone]
  | held lo _ _ _ _ c hc =>
    rcases hc with rfl | ⟨hnone, rfl⟩
    · simp [held, settling]
    · simp [held, settling, hnone]
  | debouncing lo _ d hd _ _ c hitem =>
    simp only [held, settling, hd, hitem, Option.toList_none, Option.bind_some, List.nil_append,
      Option.map_some, Option.toList_some, List.append_assoc]
    exact List.Sublist.append_left (List.sublist_append_right _ _) _

theorem release_held (st : ReportState T) (now : Nat) :
    ((st.release now).2.toList ++ (st.release now).1.held).Sublist st.held := by
  have hspec := st.release_spec now
  generalize st.release now = r at hspec
  cases hspec with
  | idle => simp
  | pending m item obs lo q _ hp => simp [held, settling, hp]
  | stale m item obs _ hp => simp [held, settling, hp]
  | candidate d c lo q hd hc => simp [held, settling, hd, hc]
  | held d c hd hc => simp [held, settling, hd, hc]
  | dropped d c p hd hc _ _ hp =>
    rcases hp with rfl | rfl
    · simp [held, settling, hd, hc]
    · simp [held, settling, hd, hc]

theorem heartbeatRead_held (st : ReportState T) (now : Nat) (pushed : Bool) :
    (st.heartbeatRead now pushed).1.held = st.held := by
  obtain ⟨r, hr⟩ := st.heartbeatRead_fst now pushed
  rw [hr]
  rfl

theorem dueLive_held (st : ReportState T) (now : Nat) (pushed : Bool) :
    ((st.dueLive now pushed).2.publish.toList ++ (st.dueLive now pushed).1.held).Sublist
      st.held := by
  simpa only [dueLive, heartbeatRead_held] using st.release_held now

theorem due_held (st : ReportState T) (now : Nat) (pushed : Bool) :
    ((st.due now pushed).2.publish.toList ++ (st.due now pushed).1.held).Sublist st.held := by
  unfold due
  split
  · split
    · simp
    · simpa using (st.handOver now).dueLive_held now pushed
  · exact st.dueLive_held now pushed

theorem offerReplayed_held (st : ReportState T) (item : T) (obs : Obs) (q : Quality)
    (src now : Nat) :
    ((st.offerReplayed item obs q src now).2 ++ (st.offerReplayed item obs q src now).1.held).Sublist
      (st.held ++ [item]) := by
  have hrelease := (st.startReplay src now).release_held src
  have hoffer := ((st.startReplay src now).release src).1.offerAt_held item obs q src
  rw [held_startReplay] at hrelease
  simp only [offerReplayed, held_noteSrc, List.append_assoc]
  refine (List.Sublist.append_left hoffer _).trans ?_
  simpa only [List.append_assoc] using List.Sublist.append_right hrelease [item]

end ReportState

variable {α : Type u}

theorem step_held (st : ReportState (Reading α)) (op : Op α) :
    ((step st op).2.published ++ (step st op).1.held).Sublist (st.held ++ op.offered) := by
  cases op with
  | offer r now =>
    simp only [step, offer, Op.offered]
    split
    · exact st.offerAt_held r r.obs r.quality now
    · simpa using (st.handOver now).offerAt_held r r.obs r.quality now
  | offerReplayed r src now => exact st.offerReplayed_held r r.obs r.quality src now
  | due now pushed => simpa [step, Op.offered] using st.due_held now pushed
  | noData =>
    show ([] ++ st.held).Sublist (st.held ++ [])
    simp
  | reset now => simp [step, reset]

/-! ## Whole runs -/

section Published

variable {ι : Type*}

/-- The readings a run published, in order. -/
def published (es : List (ι × Out α)) : List (Reading α) := es.flatMap (fun e => e.2.published)

@[simp] theorem published_nil : published ([] : List (ι × Out α)) = [] := rfl

@[simp] theorem published_cons (e : ι × Out α) (es : List (ι × Out α)) :
    published (e :: es) = e.2.published ++ published es := rfl

theorem published_append (es fs : List (ι × Out α)) :
    published (es ++ fs) = published es ++ published fs := by
  simp [published]

end Published

/-- What a run publishes, and then still holds, comes from what the first state held and from
what was offered since, in that order. -/
theorem published_held_sublist (st : ReportState (Reading α)) (ops : List (Op α)) :
    (published (log step st ops) ++ (final step st ops).held).Sublist
      (st.held ++ ops.flatMap Op.offered) := by
  have h := account (P := fun _ => True) appendRel_sublist held
    (fun e : Op α × Out α => e.2.published) (fun e => e.1.offered) (fun _ _ _ => trivial)
    (fun st op _ => step_held st op) (s := st) ops trivial
  rwa [log_flatMap_fst Op.offered st ops] at h

theorem published_sublist {st : ReportState (Reading α)} (hst : st.held = [])
    (ops : List (Op α)) : (published (log step st ops)).Sublist (ops.flatMap Op.offered) := by
  have h := published_held_sublist st ops
  rw [hst, List.nil_append] at h
  exact (List.sublist_append_left _ _).trans h

/-! ## Quality changes -/

namespace ReportState

variable {T : Type u}

theorem offerAt_of_quality_ne {st : ReportState T} {q : Quality}
    (hne : ∀ lo, st.last ≠ some (lo, q)) (item : T) (obs : Obs) (now : Nat) :
    st.offerAt item obs q now = st.publish item obs q now := by
  have hspec := st.offerAt_spec item obs q now
  generalize st.offerAt item obs q now = r at hspec
  cases hspec with
  | published => rfl
  | dropped lo hlast => exact absurd hlast (hne lo)
  | held lo hlast => exact absurd hlast (hne lo)
  | debouncing lo hlast => exact absurd hlast (hne lo)

/-- The quality of the last published reading, as the state knows it. -/
def lastQuality (st : ReportState T) : Option Quality := st.last.map Prod.snd

theorem release_lastQuality (st : ReportState T) (now : Nat) :
    (st.release now).1.lastQuality = st.lastQuality := by
  have hspec := st.release_spec now
  generalize st.release now = r at hspec
  cases hspec with
  | pending m item obs lo q _ _ _ hlast => simp [lastQuality, hlast]
  | candidate d c lo q _ _ _ _ hlast => simp [lastQuality, hlast]
  | idle | stale | held | dropped => rfl

theorem ne_of_lastQuality_ne {st : ReportState T} {q : Quality}
    (h : st.lastQuality ≠ some q) : ∀ lo, st.last ≠ some (lo, q) := by
  intro lo hlast
  exact h (by simp [lastQuality, hlast])

end ReportState

variable {st : ReportState (Reading α)} {pub : List (Reading α)}

/-- **A quality change is published by the call that offers it**, last, and leaves nothing held
behind. -/
theorem step_of_quality_ne {op : Op α} {r : Reading α} (hop : op.offered = [r])
    (hne : st.lastQuality ≠ some r.quality) :
    (∃ before, (step st op).2.published = before ++ [r]) ∧ (step st op).1.held = [] := by
  cases op with
  | offer r' now =>
    obtain rfl : r' = r := by simpa [Op.offered] using hop
    have hpub : ∀ st' : ReportState (Reading α), st'.last = st.last →
        st'.offerAt r' r'.obs r'.quality now = st'.publish r' r'.obs r'.quality now := by
      intro st' hlast
      refine offerAt_of_quality_ne (fun lo => ?_) r' r'.obs now
      rw [hlast]
      exact ne_of_lastQuality_ne hne lo
    simp only [step, offer]
    split
    · rw [hpub st rfl]
      exact ⟨⟨[], rfl⟩, held_publish ..⟩
    · rw [hpub (st.handOver now) rfl]
      exact ⟨⟨[], rfl⟩, held_publish ..⟩
  | offerReplayed r' src now =>
    obtain rfl : r' = r := by simpa [Op.offered] using hop
    have hne' : ((st.startReplay src now).release src).1.lastQuality ≠ some r'.quality := by
      rw [release_lastQuality]
      simpa [lastQuality] using hne
    simp only [step, offerReplayed,
      offerAt_of_quality_ne (ne_of_lastQuality_ne hne') r' r'.obs src]
    exact ⟨⟨_, rfl⟩, by simp⟩
  | due now pushed => simp [Op.offered] at hop
  | noData => simp [Op.offered] at hop
  | reset now => simp [Op.offered] at hop

/-- What a state knows of its run so far, `pub` being the readings published: the quality it
remembers is the last published one's, and what it holds has that quality. -/
structure Remembers (pub : List (Reading α)) (st : ReportState (Reading α)) : Prop where
  last : ∀ q, st.lastQuality = some q → pub.getLast?.map Reading.quality = some q
  held : ∀ r ∈ st.held, st.lastQuality = some r.quality

theorem remembers_publish (pub : List (Reading α)) (st : ReportState (Reading α))
    (r : Reading α) (obs : Obs) (now : Nat) :
    Remembers (pub ++ [r]) (st.publish r obs r.quality now).1 where
  last q hq := by simpa [lastQuality] using hq
  held r' hr' := by simp at hr'

theorem Remembers.of_held {st st' : ReportState (Reading α)} (h : Remembers pub st)
    (hq : st'.lastQuality = st.lastQuality) (hheld : st'.held ⊆ st.held) : Remembers pub st' where
  last q hq' := h.last q (hq ▸ hq')
  held r hr := by rw [hq]; exact h.held r (hheld hr)

/-- An offer publishes after what is published, or keeps the reading. -/
theorem remembers_offerAt (h : Remembers pub st) (r : Reading α) (now : Nat) :
    Remembers (pub ++ (st.offerAt r r.obs r.quality now).2.toList)
      (st.offerAt r r.obs r.quality now).1 := by
  have hheld := st.offerAt_held r r.obs r.quality now
  have hspec := st.offerAt_spec r r.obs r.quality now
  generalize st.offerAt r r.obs r.quality now = s at hspec hheld
  -- a reading that is not published has the quality of the last one
  have hkept : ∀ {st' : ReportState (Reading α)} {lo : Obs}, st.last = some (lo, r.quality) →
      st'.last = st.last → ((none : Option (Reading α)).toList ++ st'.held).Sublist
        (st.held ++ [r]) → Remembers (pub ++ (none : Option (Reading α)).toList) st' := by
    intro st' lo hlast heq hsub
    have hq : st'.lastQuality = st.lastQuality := by simp only [lastQuality, heq]
    simp only [Option.toList_none, List.nil_append, List.append_nil] at hsub ⊢
    refine ⟨fun q hq' => h.last q (hq ▸ hq'), fun r' hr' => ?_⟩
    rcases List.mem_append.mp (hsub.subset hr') with hold | hnew
    · rw [hq]
      exact h.held r' hold
    · obtain rfl : r' = r := by simpa using hnew
      rw [hq]
      simp [lastQuality, hlast]
  cases hspec with
  | published => exact remembers_publish pub st r r.obs now
  | dropped lo hlast => exact hkept hlast rfl hheld
  | held lo hlast => exact hkept hlast rfl hheld
  | debouncing lo hlast => exact hkept hlast rfl hheld

/-- A release publishes what was kept last. -/
theorem remembers_release (h : Remembers pub st) (now : Nat) :
    Remembers (pub ++ (st.release now).2.toList) (st.release now).1 := by
  have hheld := (st.release_held now).subset
  have hquality := st.release_lastQuality now
  have hspec := st.release_spec now
  generalize st.release now = s at hspec hheld hquality
  -- the published reading was held, so its quality is the one remembered
  have hpub : ∀ {r : Reading α} {obs lo : Obs} {q : Quality}, r ∈ st.held →
      st.last = some (lo, q) → Remembers (pub ++ [r]) (st.publish r obs q now).1 := by
    intro r obs lo q hr hlast
    have hq := h.held r hr
    simp only [lastQuality, hlast, Option.map_some, Option.some.injEq] at hq
    subst hq
    exact remembers_publish pub st r obs now
  cases hspec with
  | pending m item obs lo q _ hp _ hlast => exact hpub (by simp [held, hp]) hlast
  | candidate d c lo q hd hc _ _ hlast =>
    exact hpub (by simp [held, settling, hd, hc]) hlast
  | idle | stale | held | dropped =>
    simp only [Option.toList_none, List.append_nil]
    exact h.of_held hquality hheld

/-- Every operation keeps the order. -/
theorem remembers_step (h : Remembers pub st) (op : Op α) :
    Remembers (pub ++ (step st op).2.published) (step st op).1 := by
  have hover : ∀ now, Remembers pub (st.handOver now) := fun now =>
    h.of_held rfl (by simp)
  -- a due call releases first; its heartbeat repeats what was published
  have hdueLive : ∀ {st' : ReportState (Reading α)} (now pushed), Remembers pub st' →
      Remembers (pub ++ (st'.dueLive now pushed).2.publish.toList)
        (st'.dueLive now pushed).1 := by
    intro st' now pushed h'
    refine (remembers_release h' now).of_held ?_ (by simp [dueLive,
      heartbeatRead_held])
    obtain ⟨lr, hr⟩ := (st'.release now).1.heartbeatRead_fst now pushed
    simp only [dueLive, hr]
    rfl
  cases op with
  | offer r now =>
    simp only [step, offer]
    split
    · exact remembers_offerAt h r now
    · exact remembers_offerAt (hover now) r now
  | offerReplayed r src now =>
    have hstart : Remembers pub (st.startReplay src now) :=
      h.of_held (by simp [lastQuality]) (by simp)
    have hoffer := remembers_offerAt (remembers_release hstart src) r src
    simp only [step, offerReplayed, ← List.append_assoc]
    exact hoffer.of_held rfl (by simp)
  | due now pushed =>
    simp only [step, due]
    split
    · split
      · simpa using h
      · exact hdueLive now pushed (hover now)
    · exact hdueLive now pushed h
  | noData =>
    show Remembers (pub ++ []) st.noData
    rw [List.append_nil]
    exact h.of_held rfl (fun _ hr => hr)
  | reset now =>
    refine ⟨fun q hq => ?_, fun r hr => ?_⟩
    · simp [step, reset, new, lastQuality] at hq
    · simp [step, reset] at hr

theorem remembers_final (h : Remembers pub st) (ops : List (Op α)) :
    Remembers (pub ++ published (log step st ops)) (final step st ops) := by
  induction ops generalizing pub st with
  | nil => simpa using h
  | cons op ops ih => simpa [← List.append_assoc] using ih (remembers_step h op)

theorem remembers_new (policy : ReportPolicy) (origin : Nat) :
    Remembers ([] : List (Reading α)) (new policy origin) where
  last q hq := by simp [new, lastQuality] at hq
  held r hr := by simp at hr

/-! ## The order of publications -/

/-- **Reporting never reorders, repeats or resurrects.** Over any calls on a fresh state, the
readings published are a subsequence of the readings offered. And wherever in the run a call
offers a reading whose quality is not the last published one's, that call publishes it, last, and
what is published afterwards was offered afterwards. -/
theorem published_in_order (policy : ReportPolicy) (origin : Nat) (ops : List (Op α)) :
    (published (log step (new policy origin) ops)).Sublist (ops.flatMap Op.offered) ∧
    ∀ (earlier later : List (Op α)) (op : Op α) (r : Reading α),
      ops = earlier ++ op :: later → op.offered = [r] →
      (∀ p, (published (log step (new policy origin) earlier)).getLast? = some p →
        p.quality ≠ r.quality) →
      let before := final step (new policy origin) earlier
      (∃ held, (step before op).2.published = held ++ [r]) ∧
        (published (log step (step before op).1 later)).Sublist (later.flatMap Op.offered) := by
  refine ⟨published_sublist (held_new policy origin) ops, ?_⟩
  intro earlier later op r _ hop hne before
  have hmem := remembers_final (remembers_new policy origin) earlier
  have hquality : before.lastQuality ≠ some r.quality := by
    intro hq
    have hlast := hmem.last r.quality hq
    rw [List.nil_append] at hlast
    obtain ⟨p, hp, hpq⟩ := Option.map_eq_some_iff.mp hlast
    exact hne p hp hpq
  obtain ⟨hpub, hheld⟩ := step_of_quality_ne hop hquality
  exact ⟨hpub, published_sublist hheld later⟩

/-- A bad reading right after a good one that the rate limit holds: it is published at once, and
the held one never is. -/
theorem published_in_order_bad :
    let policy : ReportPolicy := { minInterval := some 10 }
    let good : Reading Nat := ⟨1, .number 2.0, .good⟩
    let bad : Reading Nat := ⟨2, .number 2.0, .bad⟩
    let earlier : List (Op Nat) := [.offer ⟨0, .number 1.0, .good⟩ 0, .offer good 1]
    let before := final step (new policy 0) earlier
    (∃ held, (step before (.offer bad 2)).2.published = held ++ [bad]) ∧
      (published (log step (step before (.offer bad 2)).1 [.due 20 false])).Sublist [] :=
  (published_in_order { minInterval := some 10 } 0
    [.offer ⟨0, .number 1.0, .good⟩ 0, .offer ⟨1, .number 2.0, .good⟩ 1,
      .offer ⟨2, .number 2.0, .bad⟩ 2, .due 20 false]).2
    [.offer ⟨0, .number 1.0, .good⟩ 0, .offer ⟨1, .number 2.0, .good⟩ 1] [.due 20 false]
    (.offer ⟨2, .number 2.0, .bad⟩ 2) ⟨2, .number 2.0, .bad⟩ rfl rfl (by decide)

end TedgeDot.Report
