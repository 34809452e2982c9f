import Mathlib.Algebra.GroupWithZero.Nat
import TedgeDot.Runtime.SupervisorSteps

/-!
# Every change is noticed

A path is `Still` while nothing has changed there since the baseline looked at it. What was read
after the baseline was taken is `Fresh`: at a path that is still it has seen the file there is now.
So when a poll finds the baseline again, either every connector has read the files as they are, or
it has a reload to act on.

- `Inv`: what must be fresh is fresh, in every state of a run.
- `agrees`: a poll that finds the baseline again, of files that no longer change, finds every listing
  and every reading in agreement with them.
- `left`: six polls are enough.
-/

set_option linter.unusedSectionVars false

namespace TedgeDot.Supervisor

open Machine

variable {π σ δ γ : Type} [DecidableEq π] [DecidableEq σ] [BEq γ] {srv : Service π σ δ γ}
variable {s s' : State π σ δ γ} {e : Option (Event π)}
variable {files : π → Cell σ} {base : Looks π σ} {l : π × Cell σ}

/-! ## Fresh looks -/

/-- A look at a path as it is, or as it was before it changed. -/
def Past (files : π → Cell σ) (l : π × Cell σ) : Prop :=
  l.2.changes ≤ (files l.1).changes ∧ (l.2.changes = (files l.1).changes → l.2 = files l.1)

/-- Nothing has changed at a path since the baseline looked at it. -/
def Still (files : π → Cell σ) (base : Looks π σ) (p : π) : Prop :=
  ∃ c, lastLook base p = some c ∧ c.changes = (files p).changes

structure Fresh (srv : Service π σ δ γ) (files : π → Cell σ) (base : Looks π σ) (l : π × Cell σ) :
    Prop where
  past : Past files l
  /-- It is not older than the baseline. -/
  after : ∀ c, lastLook base l.1 = some c → c.changes ≤ l.2.changes
  /-- A candidate for a library has come or gone since, but not while there was another. -/
  kept : l.2.stamp.isSome ≠ (files l.1).stamp.isSome →
    ∀ q ∈ srv.paths, Still files base q → ∀ stamp, (files q).stamp = some stamp →
      ∀ candidates ∈ srv.references q (srv.document q stamp), l.1 ∈ candidates →
        ∀ y ∈ candidates, Still files base y → (files y).stamp.isSome → y = l.1

theorem past_of_exact (h : l.2 = files l.1) : Past files l :=
  ⟨Nat.le_of_eq (by rw [h]), fun _ => h⟩

theorem fresh_of_exact (hbase : ∀ l ∈ base, Past files l) (h : l.2 = files l.1) :
    Fresh srv files base l where
  past := past_of_exact h
  after c hc := by
    rw [h]
    exact (hbase _ (mem_of_lastLook hc)).1
  kept hne := absurd (by rw [h]) hne

theorem Fresh.exact (h : Fresh srv files base l) (hstill : Still files base l.1) :
    l.2 = files l.1 := by
  obtain ⟨c, hc, heq⟩ := hstill
  exact h.past.2 (Nat.le_antisymm h.past.1 (heq ▸ h.after c hc))

def edited (files : π → Cell σ) (p : π) (stamp : Option σ) : π → Cell σ :=
  Function.update files p ⟨stamp, (files p).changes + 1⟩

theorem Past.edit (h : Past files l) (p : π) (stamp : Option σ) : Past (edited files p stamp) l := by
  unfold Past edited at *
  rw [Function.update_apply]
  split
  · rename_i hp
    rw [hp] at h
    exact ⟨Nat.le_succ_of_le h.1, fun heq => absurd h.1 (by simp only at heq; omega)⟩
  · exact h

variable {stamp : Option σ} {p : π} {now : Snapshot π σ}

theorem still_of_edit (hbase : ∀ l ∈ base, Past files l) {p q : π}
    (h : Still (edited files p stamp) base q) :
    q ≠ p ∧ Still files base q ∧ edited files p stamp q = files q := by
  obtain ⟨c, hc, heq⟩ := h
  have hpast := (hbase _ (mem_of_lastLook hc)).1
  have hq : q ≠ p := by
    rintro rfl
    simp only [edited, Function.update_self] at heq hpast
    omega
  have hsame : edited files p stamp q = files q := Function.update_of_ne hq _ _
  exact ⟨hq, ⟨c, hc, by rw [heq, hsame]⟩, hsame⟩

theorem Fresh.edit (h : Fresh srv files base l) (hbase : ∀ l ∈ base, Past files l)
    (hlone : stamp.isSome ≠ (files p).stamp.isSome → ∀ candidates,
      srv.References (fun q => (files q).stamp) candidates → p ∈ candidates → ∀ q ∈ candidates,
        q ≠ p → (files q).stamp = none) :
    Fresh srv (edited files p stamp) base l where
  past := h.past.edit p stamp
  after := h.after
  kept := by
    intro hne q hq hqstill v hv candidates hmem hl y hy hystill hthere
    obtain ⟨-, hqstill, hqsame⟩ := still_of_edit hbase hqstill
    obtain ⟨hyp, hystill, hysame⟩ := still_of_edit hbase hystill
    rw [hqsame] at hv
    rw [hysame] at hthere
    by_cases hold : l.2.stamp.isSome = (files l.1).stamp.isSome
    · -- it comes or goes with this edit
      by_cases hlp : l.1 = p
      · rw [hlp, edited, Function.update_self] at hne
        rw [hlp] at hold hl
        have hnone := hlone (fun heq => hne (hold.trans heq.symm)) candidates
          ⟨q, hq, v, hv, hmem⟩ hl y hy hyp
        simp [hnone] at hthere
      · rw [edited, Function.update_of_ne hlp] at hne
        exact absurd hold hne
    · exact h.kept hold q hq hqstill v hv candidates hmem hl y hy hystill hthere

/-! ## The looks that count -/

/-- A look behind something that the service still uses. -/
def State.Looked (s : State π σ δ γ) (l : π × Cell σ) : Prop :=
  l ∈ s.looks ∨ l ∈ s.listing ∨ l ∈ s.gathered ∨ ∃ p c, s.conns p = some c ∧ l ∈ c.stage.looks

/-- A look that was made after the baseline was taken. -/
def State.Recent (srv : Service π σ δ γ) (s : State π σ δ γ) (l : π × Cell σ) : Prop :=
  l ∈ s.looks ∨ (s.phase.Reconciled ∧ l ∈ s.listing) ∨ (s.phase.Watching ∧ l ∈ s.gathered) ∨
    ∃ p c, s.conns p = some c ∧ c.pending = false ∧ (srv.build = .c ∨ s.phase.Reconciled) ∧
      l ∈ c.stage.looks

theorem Moves.files_eq (h : Moves srv s s' e) : s'.files = s.files := by
  cases h <;> rfl

theorem Stage.mem_looks_look {stage : Stage π σ δ γ} (h : l ∈ (stage.look files).looks) :
    l ∈ stage.looks ∨ l.2 = files l.1 := by
  cases stage with
  | down => exact .inl h
  | running run looks refused => exact .inl h
  | starting scan looks =>
    cases scan with
    | done found => exact .inl h
    | look q next =>
      simp only [Stage.look, Stage.looks, List.mem_append, List.mem_singleton] at h ⊢
      exact h.imp_right fun hl => by rw [hl]
  | reloading run scan looks =>
    cases scan with
    | done found => exact .inl h
    | look q next =>
      simp only [Stage.look, Stage.looks, List.mem_append, List.mem_singleton] at h ⊢
      exact h.imp_right fun hl => by rw [hl]

theorem finish_looks {stage stage' : Stage π σ δ γ} {accepted : Bool}
    (h : srv.finish p accepted stage = some (stage', e)) : stage'.looks ⊆ stage.looks := by
  unfold Service.finish at h
  split at h
  · cases h
    simp [Stage.looks]
  · cases h
    split <;> simp [Stage.looks]
  · cases h
    simp [Stage.looks]
  · split at h
    · cases h
      simp [Stage.looks]
    · split at h
      · cases h
        simp [Stage.looks]
      · split at h <;> cases h <;> simp [Stage.looks]
  · cases h

theorem ConnMoves.looks {c c' : Conn π σ δ γ} (h : ConnMoves srv files p c c' e)
    (hl : l ∈ c'.stage.looks) : (l ∈ c.stage.looks ∧ c'.pending = c.pending) ∨ l.2 = files l.1 := by
  cases h with
  | begun pending woken => simp [Service.begin, Stage.looks] at hl
  | taken run looks refused => simp [Stage.looks] at hl
  | looked c => exact (Stage.mem_looks_look hl).imp_left fun hl => ⟨hl, rfl⟩
  | finished c accepted stage e h => exact .inl ⟨finish_looks h hl, rfl⟩
  | failed c => simp [Stage.looks] at hl

/-- A look is an earlier one, or sees the file as it is. -/
theorem Moves.looked (h : Moves srv s s' e) (hl : s'.Looked l) :
    s.Looked l ∨ l.2 = s.files l.1 := by
  unfold State.Looked at hl ⊢
  cases h with
  | idle => exact .inl hl
  | hangup =>
    left
    refine hl.imp_right fun hl => hl.imp_right fun hl => hl.imp_right fun ⟨p, c, hc, hl⟩ => ?_
    obtain ⟨c', hc', hstage, -⟩ := advertise_some hc
    exact ⟨p, c', hc', hstage ▸ hl⟩
  | peek p hp hfile =>
    rcases hl with hl | hl
    · rcases List.mem_append.1 hl with hl | hl
      · exact .inl (.inl hl)
      · exact .inr (by rw [List.mem_singleton.1 hl])
    · exact .inl (.inr hl)
  | discovered found hphase => exact .inl hl
  -- the finished scan becomes the listing
  | reconciled found hphase =>
    left
    rcases hl with hl | hl | hl | ⟨p, c, hc, hl⟩
    · simp at hl
    · exact .inl hl
    · exact .inr (.inr (.inl hl))
    · rcases reconcile_some hc with hstage | ⟨c', hc', hstage, -⟩
      · simp [hstage, Stage.looks] at hl
      · exact .inr (.inr (.inr ⟨p, c', hc', hstage ▸ hl⟩))
  | rebuilt libraries hphase hb | collected libraries hphase hb =>
    left
    rcases hl with hl | hl | hl | hl
    · simp at hl
    · exact .inr (.inl hl)
    · exact .inl hl
    · exact .inr (.inr (.inr hl))
  | baselined baseline hphase => exact .inl hl
  | settled now hphase hsame hback => exact .inl hl
  | noticed now hphase hsame hpending =>
    left
    rcases hl with hl | hl | hl | ⟨p, c, hc, hl⟩
    · simp at hl
    · exact .inr (.inl hl)
    · exact .inr (.inr (.inl hl))
    · obtain ⟨c', hc', hstage, -⟩ := advertise_some hc
      exact .inr (.inr (.inr ⟨p, c', hc', hstage ▸ hl⟩))
  | unsettled now hphase hsame hpending => exact .inl hl
  | polls hphase | reload hphase =>
    left
    rcases hl with hl | hl
    · simp at hl
    · exact .inr hl
  | conn p c c' e hc hmove =>
    rcases hl with hl | hl | hl | ⟨q, d, hd, hl⟩
    · exact .inl (.inl hl)
    · exact .inl (.inr (.inl hl))
    · exact .inl (.inr (.inr (.inl hl)))
    · by_cases hq : q = p
      · obtain rfl : c' = d := by simpa [State.setConn, hq] using hd
        exact (hmove.looks hl).imp_left fun hl => .inr (.inr (.inr ⟨p, c, hc, hl.1⟩))
      · exact .inl (.inr (.inr (.inr ⟨q, d, by simpa [State.setConn, hq] using hd, hl⟩)))

/-- So is a look since the baseline. -/
theorem Moves.recent (h : Moves srv s s' e) (hl : s'.Recent srv l) (hb : s.booted = true)
    (htraced : Traced srv s) : s.Recent srv l ∧ s'.baseLooks = s.baseLooks ∨ l.2 = s.files l.1 := by
  unfold State.Recent at hl ⊢
  cases h with
  | idle => exact .inl ⟨hl, rfl⟩
  | hangup =>
    left
    refine ⟨hl.imp_right fun hl => hl.imp_right fun hl => hl.imp_right ?_, rfl⟩
    rintro ⟨p, c, hc, hpend, hbuild, hl⟩
    obtain ⟨c', hc', hstage, hrust, hcb⟩ := advertise_some hc
    cases hb : srv.build with
    | rust => exact ⟨p, c', hc', hrust hb ▸ hpend, hb ▸ hbuild, hstage ▸ hl⟩
    | c => simp [hcb hb] at hpend
  | peek p hp hfile =>
    obtain ⟨hrec, -, hwatch⟩ := seen_phase (s := s) (s.see p)
    simp only [hrec, hwatch] at hl
    rcases hl with hl | hl
    · rcases List.mem_append.1 hl with hl | hl
      · exact .inl ⟨.inl hl, rfl⟩
      · exact .inr (by rw [List.mem_singleton.1 hl])
    · exact .inl ⟨.inr hl, rfl⟩
  -- only what the loop does next changes
  | discovered found hphase =>
    left
    refine ⟨?_, rfl⟩
    simpa [hphase, Phase.Reconciled, Phase.Watching] using hl
  | reconciled found hphase =>
    have hscan := htraced.scanning
    simp only [State.Scanning, hphase] at hscan
    obtain ⟨paths, rfl, -⟩ := srv.follows_discover htraced.named hscan
    left
    refine ⟨?_, rfl⟩
    simp only [Phase.Reconciled, Phase.Watching, List.not_mem_nil, true_and, false_and,
      false_or] at hl
    rcases hl with hl | ⟨p, c, hc, hpend, -, hl⟩
    · exact .inl hl
    · rcases reconcile_some hc with hstage | ⟨c', hc', hstage, hrust, hcb⟩
      · simp [hstage, Stage.looks] at hl
      · -- the Rust build has notified every connector that stays
        cases hbuild : srv.build with
        | rust => simp [hrust rfl hbuild] at hpend
        | c =>
          exact .inr (.inr (.inr ⟨p, c', hc', hcb hbuild ▸ hpend, .inl rfl, hstage ▸ hl⟩))
  | rebuilt libraries hphase hb =>
    left
    refine ⟨?_, rfl⟩
    simp only [hphase, Phase.Reconciled, Phase.Watching] at hl ⊢
    rcases hl with hl | hl | hl | hl
    · simp at hl
    · exact .inr (.inl hl)
    · exact .inl hl.2
    · exact .inr (.inr (.inr hl))
  | collected libraries hphase hb' => simp [hb] at hb'
  | baselined baseline hphase => exact absurd hphase (htraced.booted hb _)
  | settled now hphase hsame hback | unsettled now hphase hsame hpending =>
    left
    refine ⟨?_, rfl⟩
    simpa [hphase, Phase.Reconciled, Phase.Watching] using hl
  | noticed now hphase hsame hpending =>
    exfalso
    simp only [Phase.Reconciled, Phase.Watching, List.not_mem_nil, false_and, false_or,
      or_false] at hl
    obtain ⟨p, c, hc, hpend, hbuild, -⟩ := hl
    obtain ⟨c', -, -, -, hcb⟩ := advertise_some hc
    simp [hcb hbuild] at hpend
  | polls hphase =>
    left
    refine ⟨?_, rfl⟩
    simp only [hphase, Phase.Reconciled, Phase.Watching, List.not_mem_nil, false_or] at hl ⊢
    exact .inr hl
  | reload hphase =>
    left
    refine ⟨?_, rfl⟩
    simp only [hphase, Phase.Reconciled, Phase.Watching, List.not_mem_nil, false_and, false_or,
      or_false] at hl ⊢
    obtain ⟨p, c, hc, hpend, hbuild, hl⟩ := hl
    exact .inr (.inr (.inr ⟨p, c, hc, hpend, .inl hbuild, hl⟩))
  | conn p c c' e hc hmove =>
    rcases hl with hl | hl | hl | ⟨q, d, hd, hpend, hbuild, hl⟩
    · exact .inl ⟨.inl hl, rfl⟩
    · exact .inl ⟨.inr (.inl hl), rfl⟩
    · exact .inl ⟨.inr (.inr (.inl hl)), rfl⟩
    · by_cases hq : q = p
      · obtain rfl : c' = d := by simpa [State.setConn, hq] using hd
        refine (hmove.looks hl).imp_left fun hlook => ⟨?_, rfl⟩
        obtain ⟨hl, hsame⟩ := hlook
        exact .inr (.inr (.inr ⟨p, c, hc, hsame ▸ hpend, hbuild, hl⟩))
      · refine .inl ⟨.inr (.inr (.inr ⟨q, d, ?_, hpend, hbuild, hl⟩)), rfl⟩
        simpa [State.setConn, hq] using hd

/-! ## The invariant -/

structure Inv (srv : Service π σ δ γ) (s : State π σ δ γ) : Prop where
  traced : Traced srv s
  base : ∀ l ∈ s.baseLooks, Past s.files l
  /-- Nothing has changed before the first baseline. -/
  boot : s.booted = false → ∀ l, s.Looked l → l.2 = s.files l.1
  fresh : s.booted = true → ∀ l, s.Recent srv l → Fresh srv s.files s.baseLooks l

theorem State.Recent.looked (h : s.Recent srv l) : s.Looked l := by
  rcases h with h | ⟨-, h⟩ | ⟨-, h⟩ | ⟨p, c, hc, -, -, h⟩
  · exact .inl h
  · exact .inr (.inl h)
  · exact .inr (.inr (.inl h))
  · exact .inr (.inr (.inr ⟨p, c, hc, h⟩))

theorem Inv.edit (h : Inv srv s) (hmeets : s.Meets srv (.edit p stamp)) :
    Inv srv (s.act srv (.edit p stamp)).1 where
  traced := { h.traced with }
  base l hl := (h.base l hl).edit p stamp
  boot hb := by
    have hbooted : s.booted = true := hmeets.1
    have hb : s.booted = false := hb
    simp [hb] at hbooted
  fresh hb l hl := (h.fresh hb l hl).edit h.base hmeets.2

/-- Every step keeps fresh what must be. -/
theorem Inv.moves (h : Inv srv s) (hmoves : Moves srv s s' e) : Inv srv s' := by
  have hfiles := hmoves.files_eq
  have hpast : ∀ l ∈ s.looks, Past s.files l := by
    intro l hl
    cases hb : s.booted with
    | false => exact past_of_exact (h.boot hb l (.inl hl))
    | true => exact (h.fresh hb l (.inl hl)).past
  -- the baseline is the former one, or was looked at just now
  have hbase : s'.baseLooks = s.baseLooks ∨ s'.baseLooks = s.looks := by
    cases hmoves <;> first | exact .inl rfl | exact .inr rfl
  have hbase' : ∀ l ∈ s'.baseLooks, Past s.files l := by
    rcases hbase with hbase | hbase
    · exact hbase ▸ h.base
    · exact hbase ▸ hpast
  refine ⟨h.traced.step hmoves, hfiles ▸ hbase', ?_, ?_⟩
  · intro hb l hl
    rw [hfiles]
    rcases hmoves.looked hl with hl | hl
    · refine h.boot ?_ l hl
      cases hmoves <;> first | exact hb | simp at hb
    · exact hl
  · intro hb l hl
    rw [hfiles]
    cases hsb : s.booted with
    | true =>
      rcases hmoves.recent hl hsb h.traced with ⟨hl, hsame⟩ | hl
      · rw [hsame]
        exact h.fresh hsb l hl
      · exact fresh_of_exact hbase' hl
    | false =>
      apply fresh_of_exact hbase'
      rcases hmoves.looked hl.looked with hl | hl
      · exact h.boot hsb l hl
      · exact hl

theorem inv_act (h : Inv srv s) (a : Action π σ) (hmeets : s.Meets srv a) :
    Inv srv (s.act srv a).1 := by
  cases a with
  | edit p stamp => exact h.edit hmeets
  | _ => exact h.moves (act_moves (by simp) hmeets)

theorem inv_init (files : π → Cell σ) : Inv srv (State.init srv files) where
  traced :=
    { scanning := Scan.follows_nil.2 rfl
      named := by simp [State.init, Service.NamedThere]
      conns := by simp [State.init]
      listing := by simp [State.init, Phase.Reconciled]
      gathered := False.elim
      base := by simp [State.init]
      booting := fun _ => id
      booted := by simp [State.init] }
  base := by simp [State.init]
  boot := by simp [State.init, State.Looked]
  fresh := by simp [State.init]

/-! ## A poll that finds the baseline again -/

def State.Agrees (s : State π σ δ γ) (looks : Looks π σ) : Prop :=
  ∀ l ∈ looks, l.2.stamp = s.see l.1

/-- The connectors are those of the files as they are, and every one has read its files as they are
or has a reload to act on. -/
structure Caught (s : State π σ δ γ) : Prop where
  booted : s.booted = true
  listing : s.Agrees s.listing
  scan : ¬ s.phase.Reconciled → s.Agrees s.looks
  conns : ∀ p c, s.conns p = some c → c.pending = true ∨ s.Agrees c.stage.looks

/-- A poll that finds the baseline again has found every path still. -/
theorem still_of_settled (h : Inv srv s) (hphase : s.phase = .polling (.done now))
    (hsame : same now s.baseline = true)
    (hback : ∀ p c c', lastLook s.looks p = some c → lastLook s.baseLooks p = some c' → c.stamp =
      c'.stamp → c.changes = c'.changes)
    (hexact : ∀ l ∈ s.looks, l.2 = s.files l.1) (p : π) (hp : p ∈ srv.paths ∨ p ∈ s.libraries) :
    Still s.files s.baseLooks p := by
  have hscan := h.traced.scanning
  simp only [State.Scanning, hphase] at hscan
  have hnow := srv.follows_snapshot h.traced.named hscan
  have hb := h.traced.booted_of_watching (by simp [hphase, Phase.Watching])
  obtain ⟨libraries, hbase⟩ := h.traced.base hb
  have hstill : ∀ c c', lastLook s.looks p = some c → lastLook s.baseLooks p = some c' →
      c.stamp = c'.stamp → Still s.files s.baseLooks p := by
    intro c c' hc hc' hstamp
    have heq : c = s.files p := hexact _ (mem_of_lastLook hc)
    exact ⟨c', hc', by rw [← hback p c c' hc hc' hstamp, heq]⟩
  by_cases hkey : p ∈ Members.keys now
  · obtain ⟨c, hc, hget⟩ := hnow.seen p hkey
    obtain ⟨c', hc', hget'⟩ := hbase.seen p ((keys_of_same hsame p).1 hkey)
    rw [same_iff.1 hsame p, hget'] at hget
    exact hstill c c' hc hc' (Option.some.inj hget).symm
  · -- it is a path that both snapshots found empty
    have hpath : p ∈ srv.paths := hp.resolve_right fun hp => hkey (hnow.libraries hp)
    obtain ⟨c, hc, hnone⟩ := hnow.absent p hpath hkey
    obtain ⟨c', hc', hnone'⟩ := hbase.absent p hpath fun hmem =>
      hkey ((keys_of_same hsame p).2 hmem)
    exact hstill c c' hc hc' (hnone.trans hnone'.symm)

theorem Fresh.sees (h : Fresh srv s.files s.baseLooks l) (hstill : Still s.files s.baseLooks l.1) :
    l.2.stamp = s.see l.1 := by
  rw [h.exact hstill]
  rfl

/-- Among the candidates for a library, what a fresh look saw is there still: the file that is watched
has not changed, and no other has come or gone. -/
theorem sees_candidate {gathered : Looks π σ} {libraries candidates : List π} {q : π} {stamp : σ}
    (hgathered : ∀ l ∈ gathered, Fresh srv s.files s.baseLooks l)
    (hwatch : Watching gathered libraries candidates)
    (hlibraries : ∀ p ∈ libraries, Still s.files s.baseLooks p) (hq : q ∈ srv.paths)
    (hqstill : Still s.files s.baseLooks q) (hstamp : s.see q = some stamp)
    (hmem : candidates ∈ srv.references q (srv.document q stamp))
    (hl : Fresh srv s.files s.baseLooks l) (hvisit : l.1 ∈ (locate candidates).visits s.see) :
    l.2.stamp = s.see l.1 := by
  cases hwatch with
  | all hsub => exact hl.sees (hlibraries _ (hsub (visits_locate_mem candidates hvisit)))
  | one pre post y hsplit hpre hy hylib =>
    have hystill := hlibraries y hylib
    have hthere : (s.see y).isSome := by
      obtain ⟨l', hl', rfl, hsome⟩ := hy
      rwa [← (hgathered l' hl').sees hystill]
    by_cases hly : l.1 = y
    · exact hl.sees (hly ▸ hystill)
    · have hymem : y ∈ candidates := by simp [hsplit]
      have hlmem : l.1 ∈ candidates := visits_locate_mem candidates hvisit
      -- nothing has come or gone at this path since the baseline
      have hkept : ∀ l', Fresh srv s.files s.baseLooks l' → l'.1 = l.1 →
          l'.2.stamp.isSome = (s.see l.1).isSome := by
        intro l' hl' heq
        by_contra hne
        refine hly (heq ▸ (hl'.kept (heq ▸ hne) q hq hqstill stamp hstamp candidates hmem
          (heq ▸ hlmem) y hymem hystill hthere).symm)
      have hbefore : l.1 ∈ pre := by
        rw [hsplit] at hvisit
        simpa [hly] using visits_locate_subset hthere hvisit
      obtain ⟨l', hl', heq, hnone⟩ := hpre l.1 hbefore
      have hempty : s.see l.1 = none := by
        rw [← Option.not_isSome_iff_eq_none, ← hkept l' (hgathered l' hl') heq, hnone]
        simp
      rw [hempty, ← Option.not_isSome_iff_eq_none, hkept l hl rfl, hempty]
      simp

/-- And then every connector has read the files as they are. -/
theorem caught_of_settled (h : Inv srv s) (hphase : s.phase = .polling (.done now))
    (hsame : same now s.baseline = true)
    (hback : ∀ p c c', lastLook s.looks p = some c → lastLook s.baseLooks p = some c' → c.stamp =
      c'.stamp → c.changes = c'.changes)
    (hexact : ∀ l ∈ s.looks, l.2 = s.files l.1) : Caught s := by
  have hstill := still_of_settled h hphase hsame hback hexact
  have hrec : s.phase.Reconciled := by simp [hphase, Phase.Reconciled]
  have hwatch : s.phase.Watching := by simp [hphase, Phase.Watching]
  have hb := h.traced.booted_of_watching hwatch
  obtain ⟨found, hlisting, hmem⟩ := h.traced.listing (.inl hb)
  have hlistfresh : ∀ l ∈ s.listing, Fresh srv s.files s.baseLooks l := fun l hl =>
    h.fresh hb l (.inr (.inl ⟨hrec, hl⟩))
  -- what was gathered for the baseline is still so
  have hgathered : ∀ l ∈ s.gathered, Fresh srv s.files s.baseLooks l := fun l hl =>
    h.fresh hb l (.inr (.inr (.inl ⟨hwatch, hl⟩)))
  have hlist : s.Agrees s.listing := Scan.agrees_of_follows hlisting fun l hl hv =>
    (hlistfresh l hl).sees (hstill l.1 (.inl (srv.visits_discover hv)))
  have hfound : srv.discover.run s.see = some found := (Scan.run_of_follows hlisting hlist).symm
  refine ⟨hb, hlist, fun hnot => absurd hrec hnot, fun p c hc => ?_⟩
  cases hpend : c.pending with
  | true => exact .inl rfl
  | false =>
    right
    have hfresh : ∀ l ∈ c.stage.looks, Fresh srv s.files s.baseLooks l := fun l hl =>
      h.fresh hb l (.inr (.inr (.inr ⟨p, c, hc, hpend, .inr hrec, hl⟩)))
    have hpfound : p ∈ found := (hmem p).1 (by simp [hc])
    have hpath : p ∈ srv.paths := ((srv.mem_of_run_discover hfound p).1 hpfound).1
    have hvisits : ∀ l ∈ c.stage.looks, l.1 ∈ (srv.load p).visits s.see →
        l.2.stamp = s.see l.1 := by
      intro l hl hv
      rcases srv.visits_load hv with heq | ⟨stamp, candidates, hstamp, hcand, hv⟩
      · exact (hfresh l hl).sees (heq ▸ hstill p (.inl hpath))
      · refine sees_candidate hgathered ?_ (fun q hq => hstill q (.inr hq)) hpath
          (hstill p (.inl hpath)) hstamp hcand (hfresh l hl) hv
        exact srv.follows_rebuild (h.traced.gathered (by simp [hphase, Phase.Collected]))
          (fun l hl hp => (hgathered l hl).sees (hstill l.1 (.inl hp))) hfound hpfound hstamp hcand
    have htraced := h.traced.conns p c hc
    cases hstage : c.stage with
    | down => simp [State.Agrees, Stage.looks]
    | starting scan looks =>
      rw [hstage] at htraced hvisits
      exact Scan.agrees_of_follows htraced hvisits
    | reloading run scan looks =>
      rw [hstage] at htraced hvisits
      exact Scan.agrees_of_follows htraced.2 hvisits
    | running run looks refused =>
      rw [hstage] at htraced hvisits
      obtain ⟨-, result, hfollows, -⟩ := htraced
      exact Scan.agrees_of_follows hfollows hvisits

theorem Moves.see_eq (h : Moves srv s s' e) : s'.see = s.see := by
  funext p
  simp only [State.see, h.files_eq]

/-- Where no file changes it stays so. -/
theorem Caught.moves (h : Caught s) (hmoves : Moves srv s s' e) : Caught s' := by
  have hsee := hmoves.see_eq
  have hscan := h.scan
  refine ⟨?_, ?_, ?_, ?_⟩
  · cases hmoves <;> first | exact h.booted | rfl
  · unfold State.Agrees
    rw [hsee]
    cases hmoves with
    | reconciled found hphase => exact hscan (by simp [hphase, Phase.Reconciled])
    | _ => exact h.listing
  · intro hrec
    unfold State.Agrees at hscan ⊢
    rw [hsee]
    cases hmoves with
    | idle | hangup => exact hscan hrec
    | conn p c c' e hc hmove => exact hscan hrec
    | peek p hp hfile =>
      rw [(seen_phase (s := s) (s.see p)).1] at hrec
      intro l hl
      rcases List.mem_append.1 hl with hl | hl
      · exact hscan hrec l hl
      · rw [List.mem_singleton.1 hl]
        rfl
    | discovered found hphase => exact hscan (by simp [hphase, Phase.Reconciled])
    | noticed now hphase hsame hpending => simp
    | reload hphase => simp
    | _ => exact absurd trivial hrec
  · intro p c hc
    unfold State.Agrees
    rw [hsee]
    cases hmoves with
    -- a connector that must read again has its reload pending
    | hangup | noticed =>
      obtain ⟨c', hc', hstage, hrust, hcb⟩ := advertise_some hc
      cases hbuild : srv.build with
      | rust => exact hrust hbuild ▸ h.conns p c' hc'
      | c => exact .inl (hcb hbuild)
    | reconciled found hphase =>
      rcases reconcile_some hc with hstage | ⟨c', hc', hstage, hrust, hcb⟩
      · exact .inr (by simp [hstage, Stage.looks])
      · rcases h.conns p c' hc' with hpend | hagree
        · cases hbuild : srv.build with
          | rust =>
            cases found with
            | none =>
              simp only [Service.reconcile, hbuild] at hc
              exact h.conns p c hc
            | some paths => exact .inl (hrust rfl hbuild)
          | c => exact .inl (hcb hbuild ▸ hpend)
        · exact .inr (hstage ▸ hagree)
    | conn q d d' e hd hmove =>
      by_cases hq : p = q
      · obtain rfl : d' = c := by simpa [State.setConn, hq] using hc
        rcases h.conns q d hd with hpend | hagree
        · cases hmove with
          | begun pending woken => exact .inr (by simp [Service.begin, Stage.looks])
          | taken run looks refused => exact .inr (by simp [Stage.looks])
          | looked d => exact .inl hpend
          | finished d accepted stage e h => exact .inl hpend
          | failed d => exact .inl hpend
        · right
          intro l hl
          rcases hmove.looks hl with ⟨hl, -⟩ | hl
          · exact hagree l hl
          · rw [hl]
            rfl
      · exact h.conns p c (by simpa [State.setConn, hq] using hc)
    | _ => exact h.conns p c hc

/-! ## Six polls are enough -/

/-- The scan under way has seen the files as they are. -/
def State.exact (s : State π σ δ γ) : Bool := s.looks.all fun l => l.2 = s.files l.1

/-- How many polls may still find something while the watcher watches `libraries`: the libraries that
a rebuild would find are still to come, or the snapshot is still to settle, or to become the
baseline. -/
def State.rank (srv : Service π σ δ γ) (s : State π σ δ γ) (libraries : List π) : Nat :=
  if libraries = srv.rebuild.run s.see then
    if same ((srv.snapshot libraries).run s.see) s.baseline then 0
    else if s.pending.any (same ((srv.snapshot libraries).run s.see)) then 1
    else 2
  else if s.pending.any (same ((srv.snapshot libraries).run s.see)) then 3
  else 4

/-- How many polls may still find something: one for a scan that began before, then `rank`. -/
def State.left (srv : Service π σ δ γ) (s : State π σ δ γ) : Nat :=
  if s.booted then
    match s.phase with
    | .waiting => s.rank srv s.libraries
    | .polling _ => if s.exact then s.rank srv s.libraries else 5
    | .discovering _ | .discovered _ => s.rank srv (srv.rebuild.run s.see)
    | .rebuilding _ => if s.exact then s.rank srv (srv.rebuild.run s.see) else 4
    | .baselining _ => 5
  else 5

theorem rank_le (libraries : List π) : s.rank srv libraries ≤ 4 := by
  unfold State.rank
  split
  · split
    · simp
    · split <;> simp
  · split <;> simp

theorem rank_rebuilt_le : s.rank srv (srv.rebuild.run s.see) ≤ 2 := by
  unfold State.rank
  rw [if_pos rfl]
  split
  · simp
  · split <;> simp

theorem rank_zero
    (h : same ((srv.snapshot (srv.rebuild.run s.see)).run s.see) s.baseline = true) :
    s.rank srv (srv.rebuild.run s.see) = 0 := by
  simp [State.rank, h]

theorem rank_rebuilt_le_rank (libraries : List π) :
    s.rank srv (srv.rebuild.run s.see) ≤ s.rank srv libraries := by
  by_cases h : libraries = srv.rebuild.run s.see
  · exact h ▸ Nat.le_refl _
  · refine Nat.le_trans rank_rebuilt_le ?_
    unfold State.rank
    rw [if_neg h]
    split <;> simp

theorem left_le : s.left srv ≤ 5 := by
  have hrank : ∀ libraries, s.rank srv libraries ≤ 4 := rank_le
  unfold State.left
  split
  · split
    · exact Nat.le_succ_of_le (hrank _)
    · split
      · exact Nat.le_succ_of_le (hrank _)
      · exact Nat.le_refl 5
    · exact Nat.le_succ_of_le (hrank _)
    · exact Nat.le_succ_of_le (hrank _)
    · split
      · exact Nat.le_succ_of_le (hrank _)
      · simp
    · exact Nat.le_refl 5
  · exact Nat.le_refl 5

theorem run_of_exact {α : Type} {m m' : Scan π (Option σ) α}
    (h : Scan.Follows Cell.stamp m s.looks m') (hexact : s.exact = true) :
    m'.run s.see = m.run s.see := by
  apply Scan.run_of_follows h
  intro l hl
  have hl : l.2 = s.files l.1 := by simpa using List.all_eq_true.1 hexact l hl
  rw [hl]
  rfl

theorem rank_lt {libraries : List π} (hnow : now = (srv.snapshot libraries).run s.see)
    (hsame : same now s.baseline = false) (hpending : s.pending.any (same now) = false) :
    State.rank srv { s with phase := .waiting, pending := some now } libraries <
      s.rank srv libraries := by
  have hsee : State.see { s with phase := .waiting, pending := some now } = s.see := rfl
  unfold State.rank
  rw [hsee, ← hnow]
  simp [hsame, hpending, same_refl]
  split <;> simp

/-- A connector's step is no poll. -/
theorem ConnMoves.event {c c' : Conn π σ δ γ} (h : ConnMoves srv files p c c' e) :
    ¬ (e = some .settled ∨ e = some .unsettled ∨ e = some .noticed) := by
  cases h with
  | finished c accepted stage e h =>
    unfold Service.finish at h
    split at h
    · cases h
      simp
    · cases h
      simp
    · cases h
      simp
    · split at h
      · cases h
        simp
      · split at h
        · cases h
          simp
        · split at h <;> cases h <;> simp
    · cases h
  | _ => simp

theorem exact_peek {phase : Phase π σ} :
    State.exact { s with phase, looks := s.looks ++ [(p, s.files p)] } = s.exact := by
  simp [State.exact]

/-- A step of the service leaves no more polls than there were, and a completed poll leaves fewer,
unless it finds the baseline in files that it has seen as they are. -/
theorem left_moves (h : Inv srv s) (hmoves : Moves srv s s' e) :
    s'.left srv + (if e = some .settled ∨ e = some .unsettled ∨ e = some .noticed then 1 else 0) ≤
      s.left srv ∨ Caught s' := by
  have hscan := h.traced.scanning
  unfold State.Scanning at hscan
  cases hmoves with
  | idle | hangup => exact .inl (Nat.le_refl _)
  | conn p c c' e hc hmove =>
    left
    rw [if_neg hmove.event]
    exact Nat.le_refl _
  | peek p hp hfile =>
    left
    apply Nat.le_of_eq
    unfold State.left
    rw [exact_peek]
    cases hphase : s.phase <;> rfl
  | discovered found hphase =>
    left
    simp only [State.left, hphase]
    exact Nat.le_refl _
  | reconciled found hphase =>
    left
    simp only [State.left, hphase, State.exact, List.all_nil]
    exact Nat.le_refl _
  | rebuilt libraries hphase hb =>
    left
    rw [hphase] at hscan
    simp only [State.left, hphase, hb, if_true]
    cases hexact : s.exact with
    | true =>
      have hrun : libraries = srv.rebuild.run s.see := run_of_exact hscan hexact
      rw [hrun]
      exact Nat.le_refl _
    | false => exact rank_le libraries
  | collected libraries hphase hb =>
    left
    simp only [State.left, hb]
    exact Nat.le_refl _
  | baselined baseline hphase =>
    left
    -- until there is a baseline all of the way is left
    have hleft : s.left srv = 5 := by
      unfold State.left
      rw [hphase]
      split <;> rfl
    rw [hleft, if_neg (by simp), Nat.add_zero]
    exact left_le
  | settled now hphase hsame hback =>
    cases hexact : s.exact with
    | true =>
      right
      have hlooks : ∀ l ∈ s.looks, l.2 = s.files l.1 := fun l hl => by
        simpa using List.all_eq_true.1 hexact l hl
      have hstep : Moves srv s { s with phase := .waiting, pending := none } (some .settled) :=
        .settled now hphase hsame hback
      exact (caught_of_settled h hphase hsame hback hlooks).moves hstep
    | false =>
      left
      have hb := h.traced.booted_of_watching (by simp [hphase, Phase.Watching])
      have hleft : s.left srv = 5 := by simp [State.left, hb, hphase, hexact]
      rw [hleft]
      simp only [State.left, hb, if_true, true_or]
      exact Nat.succ_le_succ (rank_le s.libraries)
  | noticed now hphase hsame hpending =>
    left
    rw [hphase] at hscan
    have hb := h.traced.booted_of_watching (by simp [hphase, Phase.Watching])
    have htwo : State.left srv { s with
        baseline := now
        baseLooks := s.looks
        pending := none
        conns := srv.advertise s.conns
        phase := .discovering srv.discover
        looks := [] } ≤ 2 := by
      simp only [State.left, hb, if_true]
      exact rank_rebuilt_le
    cases hexact : s.exact with
    | false =>
      have hleft : s.left srv = 5 := by simp [State.left, hb, hphase, hexact]
      rw [hleft]
      simp only [or_true, if_true]
      exact Nat.succ_le_succ (Nat.le_trans htwo (by simp))
    | true =>
      have hnow : now = (srv.snapshot s.libraries).run s.see := run_of_exact hscan hexact
      have hleft : s.left srv = s.rank srv s.libraries := by
        simp [State.left, hb, hphase, hexact]
      rw [hleft]
      simp only [or_true, if_true]
      by_cases hlib : s.libraries = srv.rebuild.run s.see
      · -- the snapshot that becomes the baseline is the one that every later poll takes
        have hzero : State.left srv { s with
            baseline := now
            baseLooks := s.looks
            pending := none
            conns := srv.advertise s.conns
            phase := .discovering srv.discover
            looks := [] } = 0 := by
          rw [hlib] at hnow
          simp only [State.left, hb, if_true]
          apply rank_zero
          change same ((srv.snapshot (srv.rebuild.run s.see)).run s.see) now = true
          rw [← hnow]
          exact same_refl now
        rw [hzero]
        simp [State.rank, ← hlib, ← hnow, hsame, hpending]
      · have hthree : s.rank srv s.libraries = 3 := by
          simp [State.rank, hlib, ← hnow, hpending]
        rw [hthree]
        exact Nat.succ_le_succ htwo
  | unsettled now hphase hsame hpending =>
    left
    rw [hphase] at hscan
    have hb := h.traced.booted_of_watching (by simp [hphase, Phase.Watching])
    cases hexact : s.exact with
    | false =>
      have hleft : s.left srv = 5 := by simp [State.left, hb, hphase, hexact]
      rw [hleft]
      simp only [State.left, hb, if_true, true_or, or_true]
      exact Nat.succ_le_succ (rank_le s.libraries)
    | true =>
      have hnow : now = (srv.snapshot s.libraries).run s.see := run_of_exact hscan hexact
      have hleft : s.left srv = s.rank srv s.libraries := by
        simp [State.left, hb, hphase, hexact]
      rw [hleft]
      simp only [State.left, hb, if_true, true_or, or_true]
      exact rank_lt hnow hsame hpending
  | polls hphase =>
    left
    simp only [State.left, hphase, State.exact, List.all_nil, if_true]
    exact Nat.le_refl _
  | reload hphase =>
    left
    simp only [State.left, hphase]
    split
    · exact rank_rebuilt_le_rank s.libraries
    · exact Nat.le_refl _

/-! ## Runs -/

theorem inv_run (files : π → Cell σ) {acts : List (Action π σ)}
    (hmeets : AllSteps (State.act srv) (State.Meets srv) (State.init srv files) acts) :
    Inv srv (final (State.act srv) (State.init srv files) acts) :=
  final_induction_of (P := Inv srv) (fun _ a ha hinv => inv_act hinv a ha) hmeets
    (inv_init files)

theorem caught_run (h : Inv srv s) {late : List (Action π σ)}
    (hmeets : AllSteps (State.act srv) (State.Meets srv) s late)
    (hquiet : ∀ a ∈ late, ∀ p stamp, a ≠ .edit p stamp)
    (hpolls : Caught s ∨ s.left srv < polls (log (State.act srv) s late)) :
    Caught (final (State.act srv) s late) := by
  induction late generalizing s with
  | nil => simpa [polls] using hpolls
  | cons a late ih =>
    have hmoves := act_moves (hquiet a List.mem_cons_self) hmeets.1
    refine ih (h.moves hmoves) hmeets.2 (fun a ha => hquiet a (List.mem_cons_of_mem _ ha)) ?_
    rcases hpolls with hcaught | hpolls
    · exact .inl (hcaught.moves hmoves)
    · rcases left_moves h hmoves with hleft | hcaught
      · right
        simp only [log_cons, polls, List.countP_cons, decide_eq_true_eq] at hpolls
        simp only [polls]
        omega
      · exact .inl hcaught

theorem upToDate_of_caught (htells : srv.Tells) (h : Inv srv s) (hcaught : Caught s) :
    s.UpToDate srv := by
  obtain ⟨found, hlisting, hmem⟩ := h.traced.listing (.inl hcaught.booted)
  have hfound : srv.discover.run s.see = some found :=
    (Scan.run_of_follows hlisting hcaught.listing).symm
  refine ⟨fun p => by rw [hmem, hfound, Option.getD_some], ?_⟩
  intro p run looks refused hc new hnew
  obtain ⟨hresolved, result, hfollows, hresult⟩ := h.traced.conns p _ hc
  have hagree : s.Agrees looks := (hcaught.conns p _ hc).resolve_left (by simp)
  have hrun : result = (srv.load p).run s.see := Scan.run_of_follows hfollows hagree
  rw [hrun.trans hnew] at hfollows
  rcases hresult new (hrun.trans hnew) with rfl | halike | hrefused
  · exact .inl (.inl rfl)
  · exact .inl (same_of_alike htells hresolved (follows_load hfollows) halike)
  · exact .inr hrefused

/-- Whether a step meets the assumptions can be computed. -/
instance decidableMeets (s : State π σ δ γ) (a : Action π σ) : Decidable (s.Meets srv a) :=
  match a with
  | .edit p stamp =>
    decidable_of_iff (s.booted = true ∧ (stamp.isSome = (s.see p).isSome ∨
      ∀ q ∈ srv.paths, ∀ v ∈ (s.see q).toList, ∀ candidates ∈ srv.references q (srv.document q v),
        p ∈ candidates → ∀ y ∈ candidates, y ≠ p → s.see y = none)) <| by
      unfold State.Meets Service.References
      simp only [Option.mem_toList, Decidable.or_iff_not_imp_left]
      exact and_congr_right fun _ => imp_congr_right fun _ =>
        ⟨fun h candidates ⟨q, hq, v, hv, hmem⟩ => h q hq v hv candidates hmem,
          fun h q hq v hv candidates hmem => h candidates ⟨q, hq, v, hv, hmem⟩⟩
  | .peek =>
    decidable_of_iff (∀ p ∈ s.phase.place?.toList, Arg.file p ∈ srv.args → (s.see p).isSome) <| by
      simp [State.Meets]
  | .next =>
    match hphase : s.phase with
    | .polling (.done now) =>
      decidable_of_iff (same now s.baseline → ∀ l ∈ s.looks, ∀ c ∈ (lastLook s.looks l.1).toList,
        ∀ c' ∈ (lastLook s.baseLooks l.1).toList, c.stamp = c'.stamp → c.changes = c'.changes) <| by
        simp only [State.Meets, hphase, Phase.polling.injEq, Scan.done.injEq, forall_eq',
          Option.mem_toList]
        exact imp_congr_right fun _ =>
          ⟨fun h p c c' hc hc' => h (p, c) (mem_of_lastLook hc) c hc c' hc',
            fun h l _ c hc c' hc' => h l.1 c c' hc hc'⟩
    | .polling (.look p next) => .isTrue (by simp [State.Meets, hphase])
    | .discovering scan | .rebuilding scan | .baselining scan => .isTrue (by simp [State.Meets,
      hphase])
    | .discovered found => .isTrue (by simp [State.Meets, hphase])
    | .waiting => .isTrue (by simp [State.Meets, hphase])
  | .hangup | .poll | .reload => .isTrue trivial
  | .begin p woken => .isTrue trivial
  | .take p | .look p | .fail p => .isTrue trivial
  | .finish p accepted => .isTrue trivial

section Compact

mutual

/-- The compact text of a tree of strings that need no escapes. -/
def compact : CJson → List Char
  | .string s => '\x22' :: (s.toList ++ ['\x22'])
  | .array items => '[' :: (compactItems items ++ [']'])
  | .object members => '\x7b' :: (compactMembers members ++ ['\x7d'])
  | _ => []

def compactItems : List CJson → List Char
  | [] => []
  | [item] => compact item
  | item :: rest => compact item ++ ',' :: compactItems rest

def compactMembers : CMembers → List Char
  | [] => []
  | [(key, v)] => '\x22' :: (key.toList ++ '\x22' :: ':' :: compact v)
  | (key, v) :: rest => '\x22' :: (key.toList ++ '\x22' :: ':' :: compact v) ++
      ',' :: compactMembers rest

end

/-- A number of strokes. -/
def strokes (n : Nat) : TomlTable := [("n", .string (String.ofList (List.replicate n 'i')))]

theorem compact_strokes (n : Nat) : compact (strokes n).toTree =
    ['\x7b', '\x22', 'n', '\x22', ':', '\x22'] ++ (List.replicate n 'i' ++ ['\x22', '\x7d']) := by
  have hfree : NulFree (String.ofList (List.replicate n 'i')) := by
    unfold NulFree
    simp [List.mem_replicate]
  have htree : (strokes n).toTree =
      .object [("n", .string (cString (String.ofList (List.replicate n 'i'))))] := rfl
  rw [htree, cString_of_nulFree hfree]
  simp [compact, compactMembers]

theorem replicate_append_inj {n m : Nat} {r r' : List Char}
    (h : List.replicate n 'i' ++ '\x22' :: r = List.replicate m 'i' ++ '\x22' :: r') :
    n = m ∧ r = r' := by
  induction n generalizing m with
  | zero => cases m <;> simp_all [List.replicate_succ]
  | succ n ih =>
    cases m with
    | zero => simp [List.replicate_succ] at h
    | succ m =>
      simp only [List.replicate_succ, List.cons_append, List.cons.injEq, true_and] at h
      exact (ih h).imp_left (congrArg _)

/-- The strokes of every document can be told from the text. -/
theorem compactItems_strokes_inj {ns ms : List Nat}
    (h : compactItems (ns.map fun n => (strokes n).toTree) ++ [']'] =
      compactItems (ms.map fun n => (strokes n).toTree) ++ [']']) : ns = ms := by
  have hhead (n : Nat) (rest : List Nat) :
      ∃ r, compactItems ((n :: rest).map fun n => (strokes n).toTree) ++ [']'] =
          ['\x7b', '\x22', 'n', '\x22', ':', '\x22'] ++
            (List.replicate n 'i' ++ '\x22' :: '\x7d' :: r) ∧
        ((rest = [] ∧ r = [']']) ∨
          r = ',' :: (compactItems (rest.map fun n => (strokes n).toTree) ++ [']'])) := by
    cases rest with
    | nil => exact ⟨_, by simp [compactItems, compact_strokes], .inl ⟨rfl, rfl⟩⟩
    | cons m rest => exact ⟨_, by simp [compactItems, compact_strokes], .inr rfl⟩
  -- each text ends before the comma or the bracket
  induction ns generalizing ms with
  | nil =>
    cases ms with
    | nil => rfl
    | cons m ms =>
      obtain ⟨r, hr, -⟩ := hhead m ms
      rw [hr] at h
      cases h
  | cons n ns ih =>
    obtain ⟨r, hr, hrest⟩ := hhead n ns
    rw [hr] at h
    cases ms with
    | nil => cases h
    | cons m ms =>
      obtain ⟨r', hr', hrest'⟩ := hhead m ms
      rw [hr'] at h
      obtain ⟨rfl, hr⟩ := replicate_append_inj (List.append_cancel_left h)
      obtain rfl := (List.cons.inj hr).2
      rcases hrest with ⟨rfl, rfl⟩ | rfl
      · rcases hrest' with ⟨rfl, -⟩ | hrest'
        · rfl
        · cases hrest'
      · rcases hrest' with ⟨-, hrest'⟩ | hrest'
        · cases hrest'
        · rw [ih (List.cons.inj hrest').2]

end Compact

/-- A service whose documents are numbers: from 10 on they reference a library. -/
def plant (build : Build) (args : List (Arg Nat)) : Service Nat Nat Nat Nat where
  build
  args
  document _ stamp := stamp
  references _ root := if root < 10 then [] else [[1, 2]]
  resolve _ root libraries := some (root / 2 + libraries.sum)
  toml := strokes
  print tree := String.ofList (compact tree)
  needsRestart _ _ := false

theorem plant_tells (build : Build) (args : List (Arg Nat)) : (plant build args).Tells := by
  intro _ p root libraries root' libraries' h
  have htext := String.ofList_injective h
  simp only [compact, List.cons.injEq, true_and] at htext
  have hdocuments : root :: libraries = root' :: libraries' :=
    compactItems_strokes_inj (by simpa [plant] using htext)
  rw [(List.cons.inj hdocuments).1, (List.cons.inj hdocuments).2]

/-- A configuration, the library in its second place, and another configuration. -/
def plantFiles (stamp : Nat) : Nat → Cell Nat
  | 0 => ⟨some stamp, 0⟩
  | 2 => ⟨some 6, 0⟩
  | 3 => ⟨some 1, 0⟩
  | _ => ⟨none, 0⟩

/-- A connector runs something else than its file and libraries resolve to, and is left at that. -/
def State.Stale (srv : Service π σ δ γ) (s : State π σ δ γ) : Prop :=
  ∃ p run looks new, s.conns p = some ⟨.running run looks none, false⟩ ∧
    (srv.load p).run s.see = some new ∧ ¬ run.Same new

/-- However many polls follow a run, a connector stays stale. -/
def Service.Misses (srv : Service π σ δ γ) (files : π → Cell σ) (early : List (Action π σ)) : Prop :=
  ∀ n, ∃ late, (∀ a ∈ late, ∀ p stamp, a ≠ .edit p stamp) ∧
    n ≤ polls (log (State.act srv)
      (final (State.act srv) (State.init srv files) early) late) ∧
    (final (State.act srv) (State.init srv files) (early ++ late)).Stale srv

theorem polls_append {α : Type} (log log' : List (α × Option (Event π))) :
    polls (log ++ log') = polls log + polls log' := by
  simp [polls]

/-- A poll that changes nothing will not do so the next time either. -/
theorem misses_of_idle {files : π → Cell σ} {early : List (Action π σ)} (poll : List (Action π σ))
    (hquiet : ∀ a ∈ poll, ∀ p stamp, a ≠ .edit p stamp)
    (hidle : final (State.act srv)
      (final (State.act srv) (State.init srv files) early) poll =
        final (State.act srv) (State.init srv files) early)
    (hpoll : polls (log (State.act srv)
      (final (State.act srv) (State.init srv files) early) poll) = 1)
    (hstale : (final (State.act srv) (State.init srv files) early).Stale srv) :
    srv.Misses files early := by
  have hrepeat : ∀ n, final (State.act srv)
      (final (State.act srv) (State.init srv files) early) (List.replicate n poll).flatten =
        final (State.act srv) (State.init srv files) early ∧
      polls (log (State.act srv)
        (final (State.act srv) (State.init srv files) early)
        (List.replicate n poll).flatten) = n := by
    intro n
    induction n with
    | zero => simp [polls]
    | succ n ih =>
      rw [List.replicate_succ, List.flatten_cons, final_append, log_append, hidle,
        polls_append, hpoll, ih.1, ih.2]
      exact ⟨rfl, Nat.add_comm 1 n⟩
  intro n
  refine ⟨(List.replicate n poll).flatten, ?_, Nat.le_of_eq (hrepeat n).2.symm, ?_⟩
  · intro a ha
    obtain ⟨as, has, ha⟩ := List.mem_flatten.1 ha
    exact hquiet a (List.eq_of_mem_replicate has ▸ ha)
  · rw [final_append, (hrepeat n).1]
    exact hstale

/-- The configuration is edited after its connector has read it and before the first baseline. -/
def editedAtStart : List (Action Nat Nat) :=
  [.peek, .next, .next, .look 0, .edit 0 (some 4), .finish 0 true,
    .peek, .peek, .next, .peek, .peek, .next, .poll, .peek, .peek, .next]

/-- The configuration is edited; when its connector comes to read it, it is away for a moment. -/
def awayForAMoment : List (Action Nat Nat) :=
  [.peek, .next, .next, .look 0, .finish 0 true, .peek, .peek, .next, .peek, .peek, .next,
    .edit 0 (some 4), .poll, .peek, .peek, .next, .poll, .peek, .peek, .next, .peek, .next, .next,
    .take 0, .edit 0 none, .look 0, .finish 0 true, .edit 0 (some 4), .peek, .peek, .next,
    .poll, .peek, .peek, .next]

/-- The library appears in its first place too. -/
def shadowed : List (Action Nat Nat) :=
  [.peek, .next, .next, .look 0, .look 0, .look 0, .look 0, .finish 0 true,
    .peek, .peek, .peek, .peek, .next, .peek, .peek, .peek, .next, .edit 1 (some 8),
    .poll, .peek, .peek, .peek, .next]

/-- A named configuration is removed, and then another one edited. -/
def namedGone : Build → List (Action Nat Nat)
  | .rust =>
    [.peek, .peek, .next, .next, .look 0, .finish 0 true, .peek, .peek, .peek, .next,
      .peek, .peek, .peek, .next, .edit 3 none,
      .poll, .peek, .peek, .peek, .next, .poll, .peek, .peek, .peek, .next,
      .peek, .next, .next, .peek, .peek, .peek, .next, .edit 0 (some 4),
      .poll, .peek, .peek, .peek, .next, .poll, .peek, .peek, .peek, .next,
      .peek, .next, .next, .peek, .peek, .peek, .next, .poll, .peek, .peek, .peek, .next]
  | .c =>
    [.peek, .peek, .next, .next, .look 0, .finish 0 true, .peek, .peek, .peek, .peek, .next,
      .peek, .peek, .peek, .peek, .next, .edit 3 none,
      .poll, .peek, .next, .poll, .peek, .next, .take 0, .look 0, .finish 0 true,
      .peek, .next, .next, .peek, .next, .edit 0 (some 4), .poll, .peek, .next]

/-- The C build, where two documents print alike: 502 and 502.0. -/
def rounding : Service Nat Nat Nat Nat :=
  { plant .c [.directory [0]] with
    toml := fun stamp =>
      [("port", if stamp = 2 then .integer 502 else .float (Binary64.ofInt 502))] }

/-- The configuration is edited, and its connector reads the edit. -/
def editedAlike : List (Action Nat Nat) :=
  [.peek, .next, .next, .look 0, .finish 0 true, .peek, .peek, .next, .peek, .peek, .next,
    .edit 0 (some 4), .poll, .peek, .peek, .next, .poll, .peek, .peek, .next, .peek, .next, .next,
    .take 0, .look 0, .finish 0 true, .peek, .peek, .next, .poll, .peek, .peek, .next]

end TedgeDot.Supervisor
