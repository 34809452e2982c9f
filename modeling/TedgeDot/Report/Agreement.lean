import TedgeDot.Report.CSdk
import TedgeDot.Report.Replay

/-!
# The two SDKs report alike

The C state machine refines the Rust one. `TdotState.abs` reads a C state as a Rust one: a flag
and its value are an option, a zero duration is a setting that is off, and an `int64_t` time is
the number of nanoseconds it holds. Each C function then does to the abstraction what the Rust
function does (`offerAt_abs`, `release_abs`, `due_abs`), so a run of calls publishes the same and
asks for the same reads (`reports_agree`).
-/

namespace TedgeDot.Report

open Machine

universe u

/-! ## Values -/

namespace Ns

def nanos (t : Ns) : Nat := t.val.toInt.toNat

theorem cast_nanos (t : Ns) : (t.nanos : Int) = t.val.toInt := by
  have h := Int64.le_iff_toInt_le.mp t.nonneg
  rw [Int64.toInt_zero] at h
  exact Int.toNat_of_nonneg h

theorem lt_iff (a b : Ns) : a.val < b.val ↔ a.nanos < b.nanos := by
  rw [Int64.lt_iff_toInt_lt, ← cast_nanos, ← cast_nanos]
  omega

theorem pos_iff (t : Ns) : 0 < t.val ↔ 0 < t.nanos := lt_iff zero t

theorem toInt_sub (a b : Ns) : (a.val - b.val).toInt = (a.nanos : Int) - b.nanos := by
  have ha := a.cast_nanos
  have hb := b.cast_nanos
  have ha' := a.val.toInt_lt
  have hb' := b.val.toInt_lt
  rw [Int64.toInt_sub, ← ha, ← hb]
  refine Int.bmod_eq_of_le ?_ ?_ <;> omega

theorem sub_lt_iff {a b d : Ns} (hd : 0 < d.val) :
    a.val - b.val < d.val ↔ a.nanos - b.nanos < d.nanos := by
  rw [Int64.lt_iff_toInt_lt, toInt_sub, ← cast_nanos]
  rw [pos_iff] at hd
  omega

theorem le_sub_iff {a b d : Ns} (hd : 0 < d.val) :
    d.val ≤ a.val - b.val ↔ d.nanos ≤ a.nanos - b.nanos := by
  rw [Int64.le_iff_toInt_le, toInt_sub, ← cast_nanos]
  rw [pos_iff] at hd
  omega

theorem nanos_later (a b : Ns) :
    (if b.val < a.val then a else b).nanos = Nat.max a.nanos b.nanos := by
  simp only [lt_iff]
  show _ = max _ _
  split <;> omega

end Ns

/-- A flag and its value, as an option. -/
def flagged {β : Type u} (has : Bool) (x : β) : Option β := if has then some x else none

@[simp] theorem flagged_true {β : Type u} (x : β) : flagged true x = some x := rfl

@[simp] theorem flagged_false {β : Type u} (x : β) : flagged false x = none := rfl

def Ns.setting (d : Ns) : Option Nat := flagged (0 < d.val) d.nanos

def TdotObs.abs (obs : TdotObs) : Obs :=
  if obs.isNum then .number obs.num else .other obs.other.text

def TdotPolicy.abs (p : TdotPolicy) : ReportPolicy where
  onChange := p.onChange
  deadband :=
    match p.deadbandKind with
    | .none => none
    | .absolute => some (.absolute p.deadband)
    | .percent => some (.percent p.deadband)
  minInterval := p.minInterval.setting
  maxInterval := p.maxInterval.setting
  debounce := p.debounce.setting

/-- Texts without a zero byte compare equal exactly when they are. -/
theorem strcmp_eq_zero_iff {as bs : List UInt8} (ha : 0 ∉ as) (hb : 0 ∉ bs) :
    strcmp as bs = 0 ↔ as = bs := by
  induction as generalizing bs with
  | nil =>
    cases bs with
    | nil => simp [strcmp]
    | cons b bs =>
      have hb0 : b ≠ 0 := fun h => hb (by simp [h])
      have : b.toNat ≠ 0 := fun h => hb0 (UInt8.toNat_inj.mp h)
      simp only [strcmp, reduceCtorEq, iff_false]
      omega
  | cons a as ih =>
    have ha0 : a ≠ 0 := fun h => ha (by simp [h])
    have hanat : a.toNat ≠ 0 := fun h => ha0 (UInt8.toNat_inj.mp h)
    cases bs with
    | nil =>
      simp only [strcmp, reduceCtorEq, iff_false]
      omega
    | cons b bs =>
      by_cases hab : a = b
      · simp [strcmp, hab, ih (fun h => ha (List.mem_cons_of_mem a h))
          (fun h => hb (List.mem_cons_of_mem b h))]
      · have : a.toNat ≠ b.toNat := fun h => hab (UInt8.toNat_inj.mp h)
        simp only [strcmp, hab, if_false, List.cons.injEq, false_and, iff_false]
        omega

theorem utf8Bytes_inj {s t : String} : utf8Bytes s = utf8Bytes t ↔ s = t := by
  constructor
  · intro h
    have hdata : s.toByteArray.data = t.toByteArray.data := Array.toList_inj.mp h
    exact String.toByteArray_inj.mp (ByteArray.ext hdata)
  · rintro rfl
    rfl

theorem setting_isSome (d : Ns) : d.setting.isSome = decide (0 < d.val) := by
  unfold Ns.setting
  cases decide (0 < d.val) <;> rfl

namespace TdotPolicy

variable (p : TdotPolicy)

theorem filtersChanges_abs : p.abs.filtersChanges = p.filtersChanges := by
  simp only [ReportPolicy.filtersChanges, abs, filtersChanges, setting_isSome]
  cases p.deadbandKind <;> rfl

theorem changed_abs (obs base : TdotObs) :
    p.abs.changed obs.abs base.abs = p.changed obs base := by
  obtain ⟨_ | _, num, text⟩ := obs <;> obtain ⟨_ | _, baseNum, baseText⟩ := base
  · -- two texts
    have h := (strcmp_eq_zero_iff text.nulFree baseText.nulFree).trans utf8Bytes_inj
    rw [Bool.eq_iff_iff]
    simp [TdotObs.abs, ReportPolicy.changed, changed, h]
  · rfl
  · rfl
  · -- two numbers
    simp only [TdotObs.abs, ReportPolicy.changed, changed, abs, if_true, Bool.and_self]
    cases p.deadbandKind <;> rfl

end TdotPolicy

/-! ## States -/

namespace TdotState

variable {T : Type u}

def abs (st : TdotState T) : ReportState T where
  policy := st.policy.abs
  origin := st.origin.nanos
  last := flagged st.hasLast (st.lastObs.abs, st.lastQuality)
  lastPublished := flagged st.hasPublished st.lastPublished.nanos
  lastRead := flagged st.hasRead st.lastRead.nanos
  unreadable := st.unreadable
  pending := flagged st.hasPending (st.pending, st.pendingObs.abs)
  candidate := flagged st.hasCandidate
    { first := st.candFirst.abs
      since := st.candSince.nanos
      latest := st.candLatest
      latestObs := st.candLatestObs.abs }
  clock := if st.replaying then .replay st.replayLastOffer.nanos else .runtime
  lastPublishedSrc := flagged st.hasPublishedSrc st.lastPublishedSrc.nanos

variable (st : TdotState T) (now : Ns)

theorem flagged_getD (has : Bool) (t origin : Ns) :
    (flagged has t.nanos).getD origin.nanos = (if has then t else origin).nanos := by
  cases has <;> rfl

theorem toInt_idle (ref : Ns) :
    (if ref.val < now.val then now.val - ref.val else 0).toInt = (now.nanos - ref.nanos : Nat) := by
  split
  next hlt =>
    rw [Ns.lt_iff] at hlt
    rw [Ns.toInt_sub]
    omega
  next hle =>
    rw [Ns.lt_iff] at hle
    rw [Int64.toInt_zero]
    omega

theorem toInt_sincePublished :
    (st.sincePublished now).toInt = (st.abs.sincePublished now.nanos : Int) := by
  simp only [ReportState.sincePublished, abs, flagged_getD]
  exact toInt_idle now _

theorem le_sincePublished_iff (d : Ns) :
    d.val ≤ st.sincePublished now ↔ d.nanos ≤ st.abs.sincePublished now.nanos := by
  rw [Int64.le_iff_toInt_le, toInt_sincePublished, ← d.cast_nanos]
  omega

theorem sincePublished_lt_iff (d : Ns) :
    st.sincePublished now < d.val ↔ st.abs.sincePublished now.nanos < d.nanos := by
  rw [Int64.lt_iff_toInt_lt, toInt_sincePublished, ← d.cast_nanos]
  omega

theorem rateLimited_abs : st.abs.rateLimited now.nanos = st.rateLimited now := by
  simp only [ReportState.rateLimited, rateLimited, sincePublished_lt_iff]
  simp only [abs, TdotPolicy.abs, Ns.setting]
  cases decide (0 < st.policy.minInterval.val) <;> simp

theorem heartbeatDue_abs :
    st.abs.heartbeatDue now.nanos = (decide (0 < st.policy.maxInterval.val) &&
      decide (st.policy.maxInterval.val ≤ st.sincePublished now)) := by
  simp only [ReportState.heartbeatDue, le_sincePublished_iff]
  simp only [abs, TdotPolicy.abs, Ns.setting]
  cases decide (0 < st.policy.maxInterval.val) <;> simp

theorem handOver_abs : st.abs.handOver now.nanos = (st.handOver now).abs := by
  cases hp : st.hasPublished <;> cases hc : st.hasCandidate <;>
    simp [ReportState.handOver, handOver, abs, hp, hc]

theorem setting_of_pos {d : Ns} (h : 0 < d.val) : d.setting = some d.nanos := by
  simp [Ns.setting, h]

theorem setting_of_not_pos {d : Ns} (h : ¬ 0 < d.val) : d.setting = none := by
  simp [Ns.setting, h]

/-- Settling is the same in C, a duration of zero being no duration. -/
theorem settle_abs (item : T) (obs : TdotObs) (ch : Bool) :
    st.abs.settle item obs.abs now.nanos ch =
      ((st.settle item obs now ch).1.abs,
        flagged (st.settle item obs now ch).2 (item, obs.abs)) := by
  by_cases hd : 0 < st.policy.debounce.val
  · have hset : st.abs.policy.debounce = some st.policy.debounce.nanos := setting_of_pos hd
    simp only [ReportState.settle, hset, settle, hd, if_true]
    cases ch with
    | false => rfl
    | true =>
      cases hc : st.hasCandidate with
      | false => simp [abs, hc, clearCandidate]
      | true =>
        have hcand : st.abs.candidate = some ⟨st.candFirst.abs, st.candSince.nanos, st.candLatest,
            st.candLatestObs.abs⟩ := by simp [abs, hc]
        have hch : st.abs.policy.changed obs.abs st.candFirst.abs =
            st.policy.changed obs st.candFirst := st.policy.changed_abs obs st.candFirst
        simp only [hcand, hch, Ns.sub_lt_iff hd, Bool.not_true, Bool.false_eq_true, if_false,
          Bool.true_and]
        split
        · split
          · simp [abs, hc]
          · simp only [flagged_true, Prod.mk.injEq, and_true]
            rfl
        · simp only [flagged_false, Prod.mk.injEq, and_true]
          rfl
  · have hset : st.abs.policy.debounce = none := setting_of_not_pos hd
    simp only [ReportState.settle, hset, settle, hd, if_false]
    rfl

theorem settle_frame (item : T) (obs : TdotObs) (ch : Bool) :
    (st.settle item obs now ch).1.policy = st.policy ∧
      (st.settle item obs now ch).1.lastObs = st.lastObs := by
  unfold settle
  split
  · split
    · exact ⟨rfl, rfl⟩
    · split
      · dsimp only
        split <;> exact ⟨rfl, rfl⟩
      · exact ⟨rfl, rfl⟩
  · exact ⟨rfl, rfl⟩

/-- So is an offer. -/
theorem offerAt_abs (item : T) (obs : TdotObs) (q : Quality) :
    st.abs.offerAt item obs.abs q now.nanos =
      ((st.offerAt item obs q now).1.abs, flagged (st.offerAt item obs q now).2 item) := by
  cases hl : st.hasLast with
  | false =>
    have hlast : st.abs.last = none := by simp [abs, hl]
    simp only [ReportState.offerAt, hlast, offerAt, hl, Bool.not_false, Bool.true_or, if_true]
    rfl
  | true =>
    have hlast : st.abs.last = some (st.lastObs.abs, st.lastQuality) := by simp [abs, hl]
    simp only [ReportState.offerAt, hlast, offerAt, hl, Bool.not_true, Bool.false_or,
      bne_iff_ne, heartbeatDue_abs]
    split
    · rfl
    · split
      · rfl
      · have hch : st.abs.policy.changed obs.abs st.lastObs.abs =
            st.policy.changed obs st.lastObs := st.policy.changed_abs obs st.lastObs
        rw [hch, settle_abs]
        -- the block changes neither the policy nor the last published observation
        have hframe := st.settle_frame now item obs (st.policy.changed obs st.lastObs)
        generalize st.settle item obs now (st.policy.changed obs st.lastObs) = r at hframe
        obtain ⟨st', _ | _⟩ := r
        · rfl
        · simp only [flagged_true, rateLimited_abs]
          split
          · rfl
          · have hdrop : (st'.abs.policy.filtersChanges &&
                !st'.abs.policy.changed obs.abs st.lastObs.abs) =
                (st'.clearPending.policy.filtersChanges &&
                  !st'.clearPending.policy.changed obs st'.clearPending.lastObs) := by
              rw [show st'.abs.policy = st'.policy.abs from rfl, TdotPolicy.filtersChanges_abs,
                TdotPolicy.changed_abs, ← hframe.2]
              rfl
            simp only [hdrop]
            split
            · rfl
            · rfl

theorem offer_abs (item : T) (obs : TdotObs) (q : Quality) :
    st.abs.offer item obs.abs q now.nanos =
      ((st.offer item obs q now).1.abs, flagged (st.offer item obs q now).2 item) := by
  cases hr : st.replaying with
  | false =>
    rw [ReportState.offer_of_runtime (by simp [abs, hr]), offerAt_abs]
    simp [offer, hr]
  | true =>
    have hclock : st.abs.clock = .replay st.replayLastOffer.nanos := by simp [abs, hr]
    simp only [ReportState.offer, hclock, handOver_abs, offerAt_abs, offer, hr, if_true]

/-- And a publication of what changed. -/
theorem publishIfChanged_abs (item out : T) (obs : TdotObs) :
    st.abs.publishIfChanged item obs.abs now.nanos =
      ((st.publishIfChanged item obs now out).1.abs,
        flagged (st.publishIfChanged item obs now out).2.1
          (st.publishIfChanged item obs now out).2.2) := by
  cases hl : st.hasLast with
  | false =>
    have hlast : st.abs.last = none := by simp [abs, hl]
    simp only [ReportState.publishIfChanged, hlast, publishIfChanged, hl, Bool.not_false,
      Bool.true_or, if_true, flagged_false]
  | true =>
    have hlast : st.abs.last = some (st.lastObs.abs, st.lastQuality) := by simp [abs, hl]
    have hdrop : (st.abs.policy.filtersChanges &&
        !st.abs.policy.changed obs.abs st.lastObs.abs) =
        (st.policy.filtersChanges && !st.policy.changed obs st.lastObs) := by
      rw [show st.abs.policy = st.policy.abs from rfl, TdotPolicy.filtersChanges_abs,
        TdotPolicy.changed_abs]
    simp only [ReportState.publishIfChanged, hlast, publishIfChanged, hl, hdrop, Bool.not_true,
      Bool.false_or]
    split
    · rfl
    · rfl

/-- And the release of a pending reading. -/
theorem releasePending_abs (out : T) :
    st.abs.releasePending now.nanos =
      ((st.releasePending now out).1.abs,
        flagged (st.releasePending now out).2.1 (st.releasePending now out).2.2) := by
  by_cases hmin : 0 < st.policy.minInterval.val
  · have hset : st.abs.policy.minInterval = some st.policy.minInterval.nanos := setting_of_pos hmin
    cases hp : st.hasPending with
    | false =>
      have hpending : st.abs.pending = none := by simp [abs, hp]
      simp only [ReportState.releasePending, hset, hpending, releasePending, hp, Bool.and_false,
        Bool.false_and, Bool.false_eq_true, if_false, flagged_false]
    | true =>
      have hpending : st.abs.pending = some (st.pending, st.pendingObs.abs) := by simp [abs, hp]
      simp only [ReportState.releasePending, hset, hpending, releasePending, hp, hmin,
        le_sincePublished_iff, decide_true, Bool.and_self, Bool.true_and, decide_eq_true_eq]
      split
      · exact publishIfChanged_abs { st with hasPending := false } now st.pending out st.pendingObs
      · rfl
  · have hset : st.abs.policy.minInterval = none := setting_of_not_pos hmin
    simp only [ReportState.releasePending, hset, releasePending, hmin, decide_false,
      Bool.false_and, Bool.false_eq_true, if_false, flagged_false]

/-- And of a candidate. -/
theorem releaseCandidate_abs (out : T) :
    st.abs.releaseCandidate now.nanos =
      ((st.releaseCandidate now out).1.abs,
        flagged (st.releaseCandidate now out).2.1 (st.releaseCandidate now out).2.2) := by
  by_cases hd : 0 < st.policy.debounce.val
  · have hset : st.abs.policy.debounce = some st.policy.debounce.nanos := setting_of_pos hd
    cases hc : st.hasCandidate with
    | false =>
      have hcand : st.abs.candidate = none := by simp [abs, hc]
      simp only [ReportState.releaseCandidate, hset, hcand, releaseCandidate, hc, Bool.and_false,
        Bool.false_and, Bool.false_eq_true, if_false, flagged_false]
    | true =>
      have hcand : st.abs.candidate = some ⟨st.candFirst.abs, st.candSince.nanos, st.candLatest,
          st.candLatestObs.abs⟩ := by simp [abs, hc]
      simp only [ReportState.releaseCandidate, hset, hcand, releaseCandidate, hc, hd,
        Ns.le_sub_iff hd, decide_true, Bool.and_self, Bool.true_and, decide_eq_true_eq]
      split
      · have hlim := rateLimited_abs { st with hasCandidate := false } now
        have hout := publishIfChanged_abs { st with hasCandidate := false } now st.candLatest out
          st.candLatestObs
        have habs : { st.abs with candidate := none } =
            ({ st with hasCandidate := false } : TdotState T).abs := rfl
        rw [habs, hlim]
        split
        · rfl
        · exact hout
      · rfl
  · have hset : st.abs.policy.debounce = none := setting_of_not_pos hd
    simp only [ReportState.releaseCandidate, hset, releaseCandidate, hd, decide_false,
      Bool.false_and, Bool.false_eq_true, if_false, flagged_false]

theorem release_abs (out : T) :
    st.abs.release now.nanos =
      ((st.release now out).1.abs, flagged (st.release now out).2.1 (st.release now out).2.2) := by
  unfold ReportState.release release
  rw [releasePending_abs st now out]
  generalize st.releasePending now out = r
  obtain ⟨st', _ | _, out'⟩ := r
  · exact releaseCandidate_abs st' now out'
  · rfl

theorem nanos_reference :
    st.reference.nanos =
      Nat.max (st.abs.lastPublished.getD st.abs.origin) (st.abs.lastRead.getD st.abs.origin) := by
  simp only [abs, flagged_getD]
  exact Ns.nanos_later _ _

theorem le_idle_iff (d : Ns) :
    d.val ≤ st.idle now ↔ d.nanos ≤ now.nanos -
      Nat.max (st.abs.lastPublished.getD st.abs.origin) (st.abs.lastRead.getD st.abs.origin) := by
  rw [← nanos_reference, idle, Int64.le_iff_toInt_le, toInt_idle, ← d.cast_nanos]
  omega

theorem heartbeatRead_abs (pushed : Bool) :
    st.abs.heartbeatRead now.nanos pushed =
      ((st.heartbeatRead now pushed).1.abs, (st.heartbeatRead now pushed).2) := by
  by_cases hmax : 0 < st.policy.maxInterval.val
  · have hset : st.abs.policy.maxInterval = some st.policy.maxInterval.nanos := setting_of_pos hmax
    have hunreadable : st.abs.unreadable = st.unreadable := rfl
    simp only [ReportState.heartbeatRead, hset, heartbeatRead, hmax, if_true, le_idle_iff,
      hunreadable]
    split
    · rfl
    · rfl
  · have hset : st.abs.policy.maxInterval = none := setting_of_not_pos hmax
    simp only [ReportState.heartbeatRead, hset, heartbeatRead, hmax, if_false]

theorem dueLive_abs (pushed : Bool) (out : T) :
    st.abs.dueLive now.nanos pushed =
      ((st.dueLive now pushed out).1.abs,
        { publish := flagged (st.dueLive now pushed out).2.1 (st.dueLive now pushed out).2.2.1
          read := (st.dueLive now pushed out).2.2.2 }) := by
  simp only [ReportState.dueLive, dueLive, release_abs st now out, heartbeatRead_abs]

theorem due_abs (pushed : Bool) (out : T) :
    st.abs.due now.nanos pushed =
      ((st.due now pushed out).1.abs,
        { publish := flagged (st.due now pushed out).2.1 (st.due now pushed out).2.2.1
          read := (st.due now pushed out).2.2.2 }) := by
  cases hr : st.replaying with
  | false =>
    rw [ReportState.due_of_runtime (by simp [abs, hr]), dueLive_abs st now pushed out]
    simp [due, hr]
  | true =>
    have hclock : st.abs.clock = .replay st.replayLastOffer.nanos := by simp [abs, hr]
    have hidle : now.val - st.replayLastOffer.val < Ns.replayIdle.val ↔
        now.nanos - st.replayLastOffer.nanos < REPLAY_IDLE := Ns.sub_lt_iff (by decide)
    simp only [ReportState.due, hclock, due, hr, if_true, hidle, handOver_abs]
    split
    · rfl
    · exact dueLive_abs (st.handOver now) now pushed out

theorem startReplay_abs (src : Ns) :
    st.abs.startReplay src.nanos now.nanos = (st.startReplay src now).abs := by
  cases hr : st.replaying with
  | false =>
    cases hc : st.hasCandidate <;> simp [ReportState.startReplay, startReplay, abs, hr, hc]
  | true => simp [ReportState.startReplay, startReplay, abs, hr]

theorem offerReplayed_abs (item released : T) (obs : TdotObs) (q : Quality) (src : Ns) :
    let (st', out, hasReleased, released') := st.offerReplayed item obs q src now released
    st.abs.offerReplayed item obs.abs q src.nanos now.nanos =
      (st'.abs, (flagged hasReleased released').toList ++ (flagged out item).toList) := by
  simp only [ReportState.offerReplayed, startReplay_abs, release_abs _ src released, offerAt_abs,
    offerReplayed]
  generalize (((st.startReplay src now).release src released).1.offerAt item obs q src).1 = st'
  cases hp : st'.hasPublished <;> simp [ReportState.noteSrc, abs, hp]

theorem init_abs [Inhabited T] (policy : TdotPolicy) :
    (init policy now : TdotState T).abs = ReportState.new policy.abs now.nanos := rfl

end TdotState

/-! ## Runs -/

/-- A call on the C state. The reading comes as its item, what it is compared by and its
quality. -/
inductive TdotCall (α : Type u) where
  | offer (item : α) (obs : TdotObs) (quality : Quality) (now : Ns)
  | offerReplayed (item : α) (obs : TdotObs) (quality : Quality) (src now : Ns)
  | due (now : Ns) (pushed : Bool)
  | noData
  | reset (now : Ns)

variable {α : Type u}

def TdotCall.abs : TdotCall α → Op α
  | .offer item obs quality now => .offer ⟨item, obs.abs, quality⟩ now.nanos
  | .offerReplayed item obs quality src now =>
    .offerReplayed ⟨item, obs.abs, quality⟩ src.nanos now.nanos
  | .due now pushed => .due now.nanos pushed
  | .noData => .noData
  | .reset now => .reset now.nanos

/-! ### Agreement -/

/-- One call on the C state, as the runtime makes it: the item is the reading, and an out
parameter starts as it was initialised. What it publishes is the item when the result says so, and
what the call put into its out parameter. -/
def tdotStep [Inhabited (Reading α)] (st : TdotState (Reading α)) :
    TdotCall α → TdotState (Reading α) × Out α
  | .offer item obs quality now =>
    let r : Reading α := ⟨item, obs.abs, quality⟩
    let (st, published) := st.offer r obs quality now
    (st, { published := if published then [r] else [] })
  | .offerReplayed item obs quality src now =>
    let r : Reading α := ⟨item, obs.abs, quality⟩
    let (st, published, hasReleased, released) :=
      st.offerReplayed r obs quality src now default
    (st, { published := (if hasReleased then [released] else []) ++ if published then [r] else [] })
  | .due now pushed =>
    let (st, published, out, read) := st.due now pushed default
    (st, { published := if published then [out] else [], read := read })
  | .noData => (st.noData, {})
  | .reset now => (st.reset now, {})

theorem flagged_toList {β : Type u} (has : Bool) (x : β) :
    (flagged has x).toList = if has then [x] else [] := by
  cases has <;> rfl

theorem tdotStep_abs [Inhabited (Reading α)] (st : TdotState (Reading α)) (call : TdotCall α) :
    step st.abs call.abs = ((tdotStep st call).1.abs, (tdotStep st call).2) := by
  cases call with
  | offer item obs q now =>
    simp only [step, TdotCall.abs, tdotStep, st.offer_abs, flagged_toList]
  | offerReplayed item obs q src now =>
    have h := st.offerReplayed_abs now ⟨item, obs.abs, q⟩ default obs q src
    simp only [flagged_toList] at h
    simp only [step, TdotCall.abs, tdotStep, h]
  | due now pushed =>
    simp only [step, TdotCall.abs, tdotStep, st.due_abs now pushed default, flagged_toList]
  | noData => rfl
  | reset now => rfl

/-- **The two SDKs report alike.** After the same calls on a fresh state, the C state machine has
published what the Rust one has, at the same calls, and asked for the same heartbeat reads. -/
theorem reports_agree [Inhabited (Reading α)] (policy : TdotPolicy) (origin : Ns)
    (calls : List (TdotCall α)) :
    (log tdotStep (TdotState.init policy origin) calls).map Prod.snd =
      (log step (ReportState.new policy.abs origin.nanos) (calls.map TdotCall.abs)).map
        Prod.snd := by
  rw [← TdotState.init_abs (T := Reading α)]
  generalize (TdotState.init policy origin : TdotState (Reading α)) = st
  induction calls generalizing st with
  | nil => rfl
  | cons call calls ih =>
    have hstep := tdotStep_abs st call
    simp only [List.map_cons, log_cons, hstep]
    rw [ih]

end TedgeDot.Report
