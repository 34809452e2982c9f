import TedgeDot.Runtime.WatchedFiles

/-!
# What a step of the supervisor does

- `Moves`: what a step of the service can do, with what the assumptions say of it.
- `Traced`: every scan, and whatever its answer was used for, goes back to the looks that were made.
-/

set_option linter.unusedSectionVars false

namespace TedgeDot.Supervisor

variable {π σ δ γ : Type} [DecidableEq π] [DecidableEq σ] [BEq γ] {srv : Service π σ δ γ}
variable {s s' : State π σ δ γ} {e : Option (Event π)}

/-! ## What a step can do -/

/-- What a step does to one connector. -/
inductive ConnMoves (srv : Service π σ δ γ) (files : π → Cell σ) (p : π) :
    Conn π σ δ γ → Conn π σ δ γ → Option (Event π) → Prop
  | begun (pending woken : Bool) :
      ConnMoves srv files p ⟨.down, pending⟩ (srv.begin p woken ⟨.down, pending⟩) none
  | taken (run : Loaded δ γ) (looks : Looks π σ) (refused : Option (Loaded δ γ)) :
      ConnMoves srv files p ⟨.running run looks refused, true⟩ ⟨.reloading run (srv.load p) [], false⟩
        none
  | looked (c : Conn π σ δ γ) : ConnMoves srv files p c { c with stage := c.stage.look files } none
  | finished (c : Conn π σ δ γ) (accepted : Bool) (stage : Stage π σ δ γ) (e : Option (Event π))
      (h : srv.finish p accepted c.stage = some (stage, e)) :
      ConnMoves srv files p c { c with stage } e
  | failed (c : Conn π σ δ γ) : ConnMoves srv files p c { c with stage := .down } none

/-- What a step of the service that meets the assumptions does to its state, and what is seen of
it. -/
inductive Moves (srv : Service π σ δ γ) (s : State π σ δ γ) :
    State π σ δ γ → Option (Event π) → Prop
  | idle : Moves srv s s none
  | hangup : Moves srv s { s with requested := true, conns := srv.advertise s.conns } none
  | peek (p : π) (h : s.phase.place? = some p) (hfile : Arg.file p ∈ srv.args → (s.see p).isSome) :
      Moves srv s { s with phase := s.phase.seen (s.see p), looks := s.looks ++ [(p, s.files p)] } none
  | discovered (found : Option (List π)) (h : s.phase = .discovering (.done found)) :
      Moves srv s { s with phase := .discovered found } none
  | reconciled (found : Option (List π)) (h : s.phase = .discovered found) :
      Moves srv s
        { s with
          conns := srv.reconcile found s.conns
          listing := s.looks
          phase := .rebuilding srv.rebuild
          looks := [] } none
  | rebuilt (libraries : List π) (h : s.phase = .rebuilding (.done libraries)) (hb : s.booted = true) :
      Moves srv s { s with libraries, gathered := s.looks, looks := [], phase := .waiting } none
  | collected (libraries : List π) (h : s.phase = .rebuilding (.done libraries))
      (hb : s.booted = false) :
      Moves srv s
        { s with
          libraries
          gathered := s.looks
          looks := []
          phase := .baselining (srv.snapshot libraries) } none
  | baselined (baseline : Snapshot π σ) (h : s.phase = .baselining (.done baseline)) :
      Moves srv s { s with baseline, baseLooks := s.looks, booted := true, phase := .waiting } none
  | settled (now : Snapshot π σ) (h : s.phase = .polling (.done now))
      (hsame : same now s.baseline = true)
      (hback : ∀ p c c', lastLook s.looks p = some c → lastLook s.baseLooks p = some c' →
        c.stamp = c'.stamp → c.changes = c'.changes) :
      Moves srv s { s with phase := .waiting, pending := none } (some .settled)
  | noticed (now : Snapshot π σ) (h : s.phase = .polling (.done now))
      (hsame : same now s.baseline = false) (hpending : s.pending.any (same now) = true) :
      Moves srv s
        { s with
          baseline := now
          baseLooks := s.looks
          pending := none
          conns := srv.advertise s.conns
          phase := .discovering srv.discover
          looks := [] } (some .noticed)
  | unsettled (now : Snapshot π σ) (h : s.phase = .polling (.done now))
      (hsame : same now s.baseline = false) (hpending : s.pending.any (same now) = false) :
      Moves srv s { s with phase := .waiting, pending := some now } (some .unsettled)
  | polls (h : s.phase = .waiting) :
      Moves srv s { s with phase := .polling (srv.snapshot s.libraries), looks := [] } none
  | reload (h : s.phase = .waiting) :
      Moves srv s { s with phase := .discovering srv.discover, looks := [], requested := false } none
  | conn (p : π) (c c' : Conn π σ δ γ) (e : Option (Event π)) (hc : s.conns p = some c)
      (h : ConnMoves srv s.files p c c' e) : Moves srv s (s.setConn p c') e

/-- A turn of the main loop is one of the moves. -/
theorem next_moves (hmeets : s.Meets srv .next) : Moves srv s (s.next srv).1 (s.next srv).2 := by
  unfold State.next
  split
  · exact .discovered _ ‹_›
  · split
    · exact .reconciled _ ‹_›
    · exact .idle
  · rename_i libraries h
    cases hb : s.booted with
    | true =>
      simp only [if_true]
      exact hb ▸ .rebuilt libraries h hb
    | false =>
      simp only [Bool.false_eq_true, if_false]
      exact hb ▸ .collected libraries h hb
  · exact .baselined _ ‹_›
  · rename_i now h
    unfold State.compare
    split
    · exact .settled now h ‹_› (hmeets now h ‹_›)
    · rename_i hsame
      rw [Bool.not_eq_true] at hsame
      split
      · exact .noticed now h hsame ‹_›
      · rename_i hpending
        rw [Bool.not_eq_true] at hpending
        exact .unsettled now h hsame hpending
  · exact .idle

/-- So is every action but an edit. -/
theorem act_moves {a : Action π σ} (ha : ∀ p stamp, a ≠ .edit p stamp) (hmeets : s.Meets srv a) :
    Moves srv s (s.act srv a).1 (s.act srv a).2 := by
  cases a with
  | edit p stamp => exact absurd rfl (ha p stamp)
  | hangup => exact .hangup
  | peek =>
    simp only [State.act]
    split
    · exact .peek _ ‹_› (hmeets _ ‹_›)
    · exact .idle
  | next => exact next_moves hmeets
  | poll =>
    simp only [State.act]
    split
    · exact .polls ‹_›
    · exact .idle
  | reload =>
    simp only [State.act]
    split
    · exact .reload ‹_›
    · exact .idle
  -- a connector begins what its stage waits for
  | begin p woken =>
    simp only [State.act]
    split
    · rename_i c hc
      obtain ⟨stage, pending⟩ := c
      split
      · rename_i hstage
        obtain rfl : stage = .down := hstage
        split
        · exact .idle
        · exact .conn p _ _ _ hc (.begun pending woken)
      · exact .idle
    · exact .idle
  | take p =>
    simp only [State.act]
    split
    · rename_i run looks refused hc
      exact .conn p _ _ _ hc (.taken run looks refused)
    · exact .idle
  | look p =>
    simp only [State.act]
    split
    · rename_i c hc
      exact .conn p _ _ _ hc (.looked c)
    · exact .idle
  | finish p accepted =>
    simp only [State.act]
    split
    · rename_i c hc
      split
      · rename_i stage e h
        exact .conn p _ _ _ hc (.finished c accepted stage e h)
      · exact .idle
    · exact .idle
  | fail p =>
    simp only [State.act]
    split
    · rename_i c hc
      exact .conn p _ _ _ hc (.failed c)
    · exact .idle

/-! ## Every answer goes back to its looks -/

def Stage.looks : Stage π σ δ γ → Looks π σ
  | .down => []
  | .starting _ looks => looks
  | .running _ looks _ => looks
  | .reloading _ _ looks => looks

/-- What is run is what its documents resolve to. -/
def Loaded.Resolved (srv : Service π σ δ γ) (p : π) (run : Loaded δ γ) : Prop :=
  srv.resolve p run.root run.libraries = some run.config

theorem follows_load {p : π} {looks : Looks π σ} {new : Loaded δ γ}
    (h : Scan.Follows Cell.stamp (srv.load p) looks (.done (some new))) : new.Resolved srv p := by
  cases looks with
  | nil => simp [Service.load] at h
  | cons l looks =>
    simp only [Service.load, Scan.follows_look] at h
    obtain ⟨-, h⟩ := h
    split at h
    · simp at h
    · obtain ⟨looks₁, looks₂, libraries, -, -, h⟩ := Scan.follows_bind h
      split at h
      · simp at h
      · simp only [Scan.follows_done, Scan.done.injEq] at h
        obtain ⟨config, hconfig, rfl⟩ := Option.map_eq_some_iff.1 h.2.symm
        exact hconfig

theorem same_of_alike (htells : srv.Tells) {p : π} {run new : Loaded δ γ}
    (hrun : run.Resolved srv p) (hnew : new.Resolved srv p) (h : srv.alike run new = true) :
    run.Same new := by
  unfold Service.alike at h
  split at h
  · exact .inr h
  · rename_i hbuild
    have halike := htells hbuild p _ _ _ _ (of_decide_eq_true h)
    exact .inl (Option.some.inj (hrun.symm.trans (halike.trans hnew)))

/-- A reading follows `load`, and what a connector runs was found by the last one, or is taken for the
same, or was kept since the module refused what it found. -/
def Stage.Traced (srv : Service π σ δ γ) (p : π) : Stage π σ δ γ → Prop
  | .down => True
  | .starting scan looks => Scan.Follows Cell.stamp (srv.load p) looks scan
  | .running run looks refused => run.Resolved srv p ∧
      ∃ found, Scan.Follows Cell.stamp (srv.load p) looks (.done found) ∧
        ∀ new, found = some new → run = new ∨ srv.alike run new = true ∨ refused = some new
  | .reloading run scan looks => run.Resolved srv p ∧ Scan.Follows Cell.stamp (srv.load p) looks scan

/-- The scan that the supervisor is in the middle of. -/
def State.Scanning (srv : Service π σ δ γ) (s : State π σ δ γ) : Prop :=
  match s.phase with
  | .discovering scan => Scan.Follows Cell.stamp srv.discover s.looks scan
  | .discovered found => Scan.Follows Cell.stamp srv.discover s.looks (.done found)
  | .rebuilding scan => Scan.Follows Cell.stamp srv.rebuild s.looks scan
  | .baselining scan | .polling scan =>
    Scan.Follows Cell.stamp (srv.snapshot s.libraries) s.looks scan
  | .waiting => True

/-- The connectors are those of the last listing. -/
def Phase.Reconciled : Phase π σ → Prop
  | .discovering _ | .discovered _ => False
  | _ => True

/-- The libraries are those of the last rebuild. -/
def Phase.Collected : Phase π σ → Prop
  | .baselining _ | .waiting | .polling _ => True
  | _ => False

/-- The supervisor has its first baseline. -/
def Phase.Watching : Phase π σ → Prop
  | .waiting | .polling _ => True
  | _ => False

structure Traced (srv : Service π σ δ γ) (s : State π σ δ γ) : Prop where
  scanning : s.Scanning srv
  named : srv.NamedThere s.looks
  conns : ∀ p c, s.conns p = some c → c.stage.Traced srv p
  listing : s.booted = true ∨ s.phase.Reconciled →
    ∃ found, Scan.Follows Cell.stamp srv.discover s.listing (.done (some found)) ∧
      ∀ p, (s.conns p).isSome ↔ p ∈ found
  gathered : s.phase.Collected →
    Scan.Follows Cell.stamp srv.rebuild s.gathered (.done s.libraries)
  base : s.booted = true → ∃ libraries, Stamped srv libraries s.baseLooks s.baseline
  booting : s.booted = false → ¬ s.phase.Watching
  booted : s.booted = true → ∀ scan, s.phase ≠ .baselining scan

variable {p : π} {conns : π → Option (Conn π σ δ γ)}

theorem Stage.Traced.look {stage : Stage π σ δ γ} (h : stage.Traced srv p) (files : π → Cell σ) :
    (stage.look files).Traced srv p := by
  cases stage with
  | down => exact h
  | running run looks refused => exact h
  | starting scan looks =>
    cases scan with
    | done found => exact h
    | look q next => exact Scan.follows_seen h rfl (files q)
  | reloading run scan looks =>
    cases scan with
    | done found => exact h
    | look q next => exact ⟨h.1, Scan.follows_seen h.2 rfl (files q)⟩

/-- A stage that ends keeps the looks it rests on. -/
theorem Stage.Traced.finish {stage stage' : Stage π σ δ γ} {accepted : Bool}
    (h : stage.Traced srv p) (hfinish : srv.finish p accepted stage = some (stage', e)) :
    stage'.Traced srv p := by
  unfold Service.finish at hfinish
  split at hfinish
  · cases hfinish
    trivial
  · rename_i new looks
    simp only [Option.some.injEq, Prod.mk.injEq] at hfinish
    rw [← hfinish.1]
    split
    · exact ⟨follows_load h, some new, h, fun new' hnew => .inl (Option.some.inj hnew)⟩
    · trivial
  · rename_i run looks
    cases hfinish
    exact ⟨h.1, none, h.2, by simp⟩
  · rename_i run new looks
    split at hfinish
    · cases hfinish
      trivial
    · split at hfinish
      · rename_i halike
        cases hfinish
        exact ⟨h.1, some new, h.2, fun new' hnew => .inr (.inl (Option.some.inj hnew ▸ halike))⟩
      · split at hfinish
        · cases hfinish
          exact ⟨follows_load h.2, some new, h.2, fun new' hnew => .inl (Option.some.inj hnew)⟩
        · cases hfinish
          exact ⟨h.1, some new, h.2, fun new' hnew => .inr (.inr hnew)⟩
  · cases hfinish

theorem ConnMoves.traced {files : π → Cell σ} {c c' : Conn π σ δ γ}
    (h : ConnMoves srv files p c c' e) (hc : c.stage.Traced srv p) : c'.stage.Traced srv p := by
  cases h with
  | begun pending woken => simp [Service.begin, Stage.Traced]
  | taken run looks refused => simpa [Stage.Traced] using hc.1
  | looked c => exact hc.look files
  | finished c accepted stage e h => exact hc.finish h
  | failed c => trivial

/-- What reconciling leaves of a connector. -/
theorem reconcile_some {found : Option (List π)} {c : Conn π σ δ γ}
    (h : srv.reconcile found conns p = some c) :
    c.stage = .starting (srv.load p) [] ∨ ∃ c', conns p = some c' ∧ c.stage = c'.stage ∧
      (found.isSome → srv.build = .rust → c.pending = true) ∧
      (srv.build = .c → c.pending = c'.pending) := by
  -- a renewed connector keeps its stage, unless the C build finds it down
  have hrenew : ∀ c', conns p = some c' → c = srv.renew p c' →
      c.stage = .starting (srv.load p) [] ∨ ∃ c', conns p = some c' ∧ c.stage = c'.stage ∧
        (found.isSome → srv.build = .rust → c.pending = true) ∧
        (srv.build = .c → c.pending = c'.pending) := by
    intro c' hc' hc
    obtain ⟨stage, pending⟩ := c'
    cases hbuild : srv.build with
    | rust =>
      simp only [Service.renew, hbuild] at hc
      exact .inr ⟨_, hc', by simp [hc]⟩
    | c =>
      cases stage with
      | down =>
        simp only [Service.renew, hbuild] at hc
        exact .inl (by simp [hc, Service.begin])
      | starting scan looks | running run looks refused | reloading run scan looks =>
        simp only [Service.renew, hbuild] at hc
        exact .inr ⟨_, hc', by simp [hc]⟩
  unfold Service.reconcile at h
  split at h
  · split at h
    · rename_i hbuild
      exact .inr ⟨c, h, rfl, by simp, by simp [hbuild]⟩
    · obtain ⟨c', hc', hc⟩ := Option.map_eq_some_iff.1 h
      exact hrenew c' hc' hc.symm
  · split at h
    · cases hc' : conns p with
      | none =>
        simp only [hc', Option.elim_none, Option.some.injEq] at h
        exact .inl (by simp [← h, Service.start])
      | some c' =>
        simp only [hc', Option.elim_some, Option.some.injEq] at h
        rw [hc'] at hrenew
        exact hrenew c' rfl h.symm
    · cases h

theorem advertise_some {c : Conn π σ δ γ} (h : srv.advertise conns p = some c) :
    ∃ c', conns p = some c' ∧ c.stage = c'.stage ∧ (srv.build = .rust → c = c') ∧
      (srv.build = .c → c.pending = true) := by
  unfold Service.advertise at h
  split at h
  · rename_i hbuild
    exact ⟨c, h, rfl, by simp, by simp [hbuild]⟩
  · rename_i hbuild
    obtain ⟨c', hc', rfl⟩ := Option.map_eq_some_iff.1 h
    exact ⟨c', hc', rfl, by simp [hbuild], by simp⟩

@[simp] theorem advertise_isSome (conns : π → Option (Conn π σ δ γ)) (p : π) :
    (srv.advertise conns p).isSome = (conns p).isSome := by
  unfold Service.advertise
  split <;> simp

@[simp] theorem setConn_isSome {c c' : Conn π σ δ γ} (hc : s.conns p = some c) (q : π) :
    ((s.setConn p c').conns q).isSome = (s.conns q).isSome := by
  simp only [State.setConn, Function.update_apply]
  split
  · rename_i hq
    simp [hq, hc]
  · rfl

theorem reconcile_isSome {found : List π} (p : π) :
    (srv.reconcile (some found) conns p).isSome ↔ p ∈ found := by
  simp only [Service.reconcile]
  split <;> simp [*]

theorem seen_phase (there : Option σ) :
    ((s.phase.seen there).Reconciled ↔ s.phase.Reconciled) ∧
      ((s.phase.seen there).Collected ↔ s.phase.Collected) ∧
      ((s.phase.seen there).Watching ↔ s.phase.Watching) := by
  cases hphase : s.phase <;>
    simp [Phase.seen, Phase.Reconciled, Phase.Collected, Phase.Watching]

theorem State.Scanning.peek (h : s.Scanning srv) (hp : s.phase.place? = some p) :
    State.Scanning srv { s with
      phase := s.phase.seen (s.see p)
      looks := s.looks ++ [(p, s.files p)] } := by
  unfold State.Scanning at h ⊢
  cases hphase : s.phase with
  | discovering scan | rebuilding scan | baselining scan | polling scan =>
    rw [hphase] at h hp
    exact Scan.follows_seen h hp (s.files p)
  | discovered found | waiting =>
    rw [hphase] at hp
    cases hp

theorem Traced.booted_of_watching (h : Traced srv s) (hphase : s.phase.Watching) :
    s.booted = true := by
  rw [← Bool.not_eq_false]
  exact fun hb => h.booting hb hphase

theorem Traced.waits (h : Traced srv s) {scan : Scan π (Option σ) (Snapshot π σ)}
    (hphase : s.phase = .polling scan) (pending : Option (Snapshot π σ)) :
    Traced srv { s with phase := .waiting, pending } where
  scanning := trivial
  named := h.named
  conns := h.conns
  listing _ := h.listing (.inr (by simp [hphase, Phase.Reconciled]))
  gathered _ := h.gathered (by simp [hphase, Phase.Collected])
  base := h.base
  booting hb := absurd (by simp [hphase, Phase.Watching]) (h.booting hb)
  booted := by simp

/-- Every move keeps the looks that each stage rests on. -/
theorem Traced.step (h : Traced srv s) (hmoves : Moves srv s s' e) : Traced srv s' := by
  have hscan := h.scanning
  unfold State.Scanning at hscan
  cases hmoves with
  | idle => exact h
  -- a hangup marks connectors and moves no scan
  | hangup =>
    refine { h with conns := ?_, listing := ?_ }
    · intro p c hc
      obtain ⟨c', hc', hstage, -⟩ := advertise_some hc
      exact hstage ▸ h.conns p c' hc'
    · intro hlisted
      simpa using h.listing hlisted
  -- a look is added to the scan under way, and to no other
  | peek p hp hfile =>
    obtain ⟨hrec, hcol, hwatch⟩ := seen_phase (s := s) (s.see p)
    refine ⟨h.scanning.peek hp, ?_, h.conns, ?_, ?_, h.base, ?_, ?_⟩
    · intro l hl hnamed
      rcases List.mem_append.1 hl with hl | hl
      · exact h.named l hl hnamed
      · obtain rfl : l = (p, s.files p) := by simpa using hl
        exact hfile hnamed
    · simpa only [hrec] using h.listing
    · simpa only [hcol] using h.gathered
    · simpa only [hwatch] using h.booting
    · intro hb scan hscan
      cases hphase : s.phase <;> simp only [hphase, Phase.seen, reduceCtorEq] at hscan
      exact h.booted hb _ hphase
  -- what the next phase rests on is a scan that has ended
  | discovered found hphase =>
    rw [hphase] at hscan
    refine ⟨hscan, h.named, h.conns, ?_, False.elim, h.base, fun _ => id, by simp⟩
    intro hlisted
    exact h.listing (hlisted.imp_right False.elim)
  | reconciled found hphase =>
    rw [hphase] at hscan
    obtain ⟨files, rfl, -⟩ := srv.follows_discover h.named hscan
    refine ⟨Scan.follows_nil.2 rfl, by simp [Service.NamedThere], ?_, ?_, False.elim, h.base,
      fun _ => id, by simp⟩
    · intro p c (hc : srv.reconcile (some files) s.conns p = some c)
      rcases reconcile_some hc with hstage | ⟨c', hc', hstage, -⟩
      · rw [hstage]
        exact Scan.follows_nil.2 rfl
      · rw [hstage]
        exact h.conns p c' hc'
    · intro _
      exact ⟨files, hscan, reconcile_isSome⟩
  | rebuilt libraries hphase hb =>
    rw [hphase] at hscan
    refine ⟨trivial, by simp [Service.NamedThere], h.conns, ?_, fun _ => hscan, h.base, ?_, by simp⟩
    · intro _
      exact h.listing (.inl hb)
    · simp [hb]
  | collected libraries hphase hb =>
    rw [hphase] at hscan
    refine ⟨Scan.follows_nil.2 rfl, by simp [Service.NamedThere], h.conns, ?_, fun _ => hscan, h.base,
      fun _ => id, ?_⟩
    · intro _
      exact h.listing (.inr (by simp [hphase, Phase.Reconciled]))
    · simp [hb]
  | baselined baseline hphase =>
    rw [hphase] at hscan
    refine ⟨trivial, h.named, h.conns, ?_, fun _ => h.gathered (by simp [hphase, Phase.Collected]), ?_,
      by simp, by simp⟩
    · intro _
      exact h.listing (.inr (by simp [hphase, Phase.Reconciled]))
    · intro _
      exact ⟨s.libraries, srv.follows_snapshot h.named hscan⟩
  | settled now hphase hsame hback => exact h.waits hphase none
  | noticed now hphase hsame hpending =>
    rw [hphase] at hscan
    have hb := h.booted_of_watching (by simp [hphase, Phase.Watching])
    refine ⟨Scan.follows_nil.2 rfl, by simp [Service.NamedThere], ?_, ?_, False.elim, ?_,
      by simp [hb], by simp⟩
    · intro p c hc
      obtain ⟨c', hc', hstage, -⟩ := advertise_some hc
      exact hstage ▸ h.conns p c' hc'
    · intro _
      simpa using h.listing (.inl hb)
    · intro _
      exact ⟨s.libraries, srv.follows_snapshot h.named hscan⟩
  | unsettled now hphase hsame hpending => exact h.waits hphase (some now)
  | polls hphase =>
    refine ⟨Scan.follows_nil.2 rfl, by simp [Service.NamedThere], h.conns, ?_, ?_, h.base, ?_, by simp⟩
    · intro _
      exact h.listing (.inr (by simp [hphase, Phase.Reconciled]))
    · intro _
      exact h.gathered (by simp [hphase, Phase.Collected])
    · intro hb
      exact absurd (by simp [hphase, Phase.Watching]) (h.booting hb)
  | reload hphase =>
    have hb := h.booted_of_watching (by simp [hphase, Phase.Watching])
    refine ⟨Scan.follows_nil.2 rfl, by simp [Service.NamedThere], h.conns, ?_, False.elim, h.base,
      by simp [hb], by simp⟩
    intro _
    exact h.listing (.inl hb)
  | conn p c c' e hc hmove =>
    refine { h with conns := ?_, listing := ?_ }
    · intro q d hd
      by_cases hq : q = p
      · subst hq
        obtain rfl : c' = d := by simpa [State.setConn] using hd
        exact hmove.traced (h.conns q c hc)
      · exact h.conns q d (by simpa [State.setConn, hq] using hd)
    · intro hlisted
      obtain ⟨found, hfound, hmem⟩ := h.listing hlisted
      exact ⟨found, hfound, fun q => by rw [setConn_isSome hc, hmem]⟩

end TedgeDot.Supervisor
