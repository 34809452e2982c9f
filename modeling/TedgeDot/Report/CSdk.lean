import TedgeDot.Report.Policy

/-!
# The reporting state of the C SDK

`report.c`: the same state machine, written with flags, copied items and signed 64-bit times.
A `static` helper or `tdot_report_x` function of the source is `TdotState.x`; it takes the state a
pointer names and gives the state it leaves, with its result. An out parameter is passed in and
given back, so that a function that does not fill it leaves it as it was. Who owns an item's heap
copy is not modelled: an item is a value.
-/

namespace TedgeDot.Report

universe u

/-! ## Values -/

/-- An `int64_t` that counts nanoseconds, so never negative. -/
structure Ns where
  val : Int64
  nonneg : 0 ≤ val
deriving DecidableEq

namespace Ns

def zero : Ns := ⟨0, by decide⟩

/-- `TDOT_REPORT_REPLAY_IDLE_NS`. -/
def replayIdle : Ns := ⟨2000000000, by decide⟩

end Ns

def utf8Bytes (s : String) : List UInt8 := s.toByteArray.data.toList

def TDOT_RAW_MAX : Nat := 256

def TDOT_REPORT_OBS_MAX : Nat := TDOT_RAW_MAX * 3 + 8

/-- The text of a `char[TDOT_REPORT_OBS_MAX]`: it ends at the first NUL, which has to fit. -/
structure TdotText where
  text : String
  fits : (utf8Bytes text).length < TDOT_REPORT_OBS_MAX
  nulFree : 0 ∉ utf8Bytes text

def TdotText.empty : TdotText := ⟨"", by decide, by decide⟩

/-- `strcmp`, on the bytes before the terminating NUL. -/
def strcmp : List UInt8 → List UInt8 → Int
  | [], [] => 0
  | [], b :: _ => -(b.toNat : Int)
  | a :: _, [] => a.toNat
  | a :: as, b :: bs => if a = b then strcmp as bs else (a.toNat : Int) - b.toNat

/-- `tdot_deadband_kind_t`. -/
inductive TdotDeadbandKind where
  | none
  | absolute
  | percent
deriving DecidableEq

/-- `tdot_report_policy_t`. A zero duration is off. -/
structure TdotPolicy where
  onChange : Bool
  deadbandKind : TdotDeadbandKind
  deadband : Float
  minInterval : Ns
  maxInterval : Ns
  debounce : Ns

/-- `tdot_report_obs_t`. -/
structure TdotObs where
  isNum : Bool
  num : Float
  other : TdotText

/-- `tdot_report_filters_changes`. -/
def TdotPolicy.filtersChanges (p : TdotPolicy) : Bool :=
  p.onChange || p.deadbandKind != .none || 0 < p.debounce.val

/-- `changed`: whether `obs` is a change from `base` under this policy. -/
def TdotPolicy.changed (p : TdotPolicy) (obs base : TdotObs) : Bool :=
  if obs.isNum && base.isNum then
    let a := obs.num
    let b := base.num
    if a.isNaN || b.isNaN then a.isNaN != b.isNaN
    else
      let delta := (a - b).abs
      match p.deadbandKind with
      | .absolute => p.deadband ≤ delta
      | .percent =>
        if b == 0.0 then 0.0 < delta else p.deadband / 100.0 * b.abs ≤ delta
      | .none => EPSILON < delta
  else if !obs.isNum && !base.isNum then
    strcmp (utf8Bytes obs.other.text) (utf8Bytes base.other.text) != 0
  else true

/-! ## State -/

/-- `tdot_report_state_t`, for items of type `T`. -/
structure TdotState (T : Type u) where
  policy : TdotPolicy
  origin : Ns
  hasLast : Bool
  lastObs : TdotObs
  lastQuality : Quality
  hasPublished : Bool
  lastPublished : Ns
  hasRead : Bool
  lastRead : Ns
  unreadable : Bool
  hasPending : Bool
  pending : T
  pendingObs : TdotObs
  hasCandidate : Bool
  candFirst : TdotObs
  candSince : Ns
  candLatest : T
  candLatestObs : TdotObs
  replaying : Bool
  replayLastOffer : Ns
  hasPublishedSrc : Bool
  lastPublishedSrc : Ns

namespace TdotState

variable {T : Type u}

/-- What `memset` leaves in an observation. -/
def zeroObs : TdotObs := ⟨false, 0.0, .empty⟩

def init [Inhabited T] (policy : TdotPolicy) (now : Ns) : TdotState T where
  policy := policy
  origin := now
  hasLast := false
  lastObs := zeroObs
  lastQuality := .good
  hasPublished := false
  lastPublished := .zero
  hasRead := false
  lastRead := .zero
  unreadable := false
  hasPending := false
  pending := default
  pendingObs := zeroObs
  hasCandidate := false
  candFirst := zeroObs
  candSince := .zero
  candLatest := default
  candLatestObs := zeroObs
  replaying := false
  replayLastOffer := .zero
  hasPublishedSrc := false
  lastPublishedSrc := .zero

/-! ## Operations -/

def clearPending (st : TdotState T) : TdotState T := { st with hasPending := false }

def clearCandidate (st : TdotState T) : TdotState T := { st with hasCandidate := false }

def holdPending (st : TdotState T) (item : T) (obs : TdotObs) : TdotState T :=
  { st.clearPending with pending := item, pendingObs := obs, hasPending := true }

def reset [Inhabited T] (st : TdotState T) (now : Ns) : TdotState T := init st.policy now

def noData (st : TdotState T) : TdotState T := { st with unreadable := true }

def sincePublished (st : TdotState T) (now : Ns) : Int64 :=
  let ref := if st.hasPublished then st.lastPublished else st.origin
  if ref.val < now.val then now.val - ref.val else 0

def publish (st : TdotState T) (obs : TdotObs) (quality : Quality) (now : Ns) : TdotState T :=
  { st with
    lastObs := obs
    lastQuality := quality
    hasLast := true
    hasPublished := true
    lastPublished := now }.clearPending.clearCandidate

def handOver (st : TdotState T) (now : Ns) : TdotState T :=
  let st := { st with replaying := false }
  let st :=
    if st.hasPublished then
      { st with hasPublishedSrc := true, lastPublishedSrc := st.lastPublished, lastPublished := now }
    else st
  if st.hasCandidate then { st with candSince := now } else st

/-- `p->min_interval > 0 && since_published(st, now) < p->min_interval`. -/
def rateLimited (st : TdotState T) (now : Ns) : Bool :=
  0 < st.policy.minInterval.val && st.sincePublished now < st.policy.minInterval.val

/-- The `if (p->debounce > 0)` block of `offer_at`: whether the reading goes on below it. -/
def settle (st : TdotState T) (item : T) (obs : TdotObs) (now : Ns) (changedFromLast : Bool) :
    TdotState T × Bool :=
  if 0 < st.policy.debounce.val then
    if !changedFromLast then (st.clearCandidate.clearPending, false)
    else if st.hasCandidate && !st.policy.changed obs st.candFirst then
      let st := { st with candLatest := item, candLatestObs := obs }
      if now.val - st.candSince.val < st.policy.debounce.val then (st, false)
      else (st.clearCandidate, true)
    else
      ({ st.clearCandidate with
          candFirst := obs
          candSince := now
          candLatest := item
          candLatestObs := obs
          hasCandidate := true },
        false)
  else (st, true)

def offerAt (st : TdotState T) (item : T) (obs : TdotObs) (quality : Quality) (now : Ns) :
    TdotState T × Bool :=
  if !st.hasLast || st.lastQuality != quality then (st.publish obs quality now, true)
  else if 0 < st.policy.maxInterval.val && st.policy.maxInterval.val ≤ st.sincePublished now then
    (st.publish obs quality now, true)
  else
    match st.settle item obs now (st.policy.changed obs st.lastObs) with
    | (st, false) => (st, false)
    | (st, true) =>
      if st.rateLimited now then (st.holdPending item obs, false)
      else
        let st := st.clearPending
        if st.policy.filtersChanges && !st.policy.changed obs st.lastObs then (st, false)
        else (st.publish obs quality now, true)

/-- `tdot_report_offer`: whether `item` is to be published now. -/
def offer (st : TdotState T) (item : T) (obs : TdotObs) (quality : Quality) (now : Ns) :
    TdotState T × Bool :=
  let st := if st.replaying then st.handOver now else st
  st.offerAt item obs quality now

/-- The last value is `*out`. -/
def publishIfChanged (st : TdotState T) (item : T) (obs : TdotObs) (now : Ns) (out : T) :
    TdotState T × Bool × T :=
  if !st.hasLast || (st.policy.filtersChanges && !st.policy.changed obs st.lastObs) then
    (st, false, out)
  else (st.publish obs st.lastQuality now, true, item)

/-- The first `if` of `release`: the held reading. -/
def releasePending (st : TdotState T) (now : Ns) (out : T) : TdotState T × Bool × T :=
  if 0 < st.policy.minInterval.val && st.hasPending &&
      st.policy.minInterval.val ≤ st.sincePublished now then
    { st with hasPending := false }.publishIfChanged st.pending st.pendingObs now out
  else (st, false, out)

/-- The second `if` of `release`, when nothing was published: the settled reading. -/
def releaseCandidate (st : TdotState T) (now : Ns) (out : T) : TdotState T × Bool × T :=
  if 0 < st.policy.debounce.val && st.hasCandidate &&
      st.policy.debounce.val ≤ now.val - st.candSince.val then
    let item := st.candLatest
    let obs := st.candLatestObs
    let st := { st with hasCandidate := false }
    if st.rateLimited now then
      ({ st.clearPending with pending := item, pendingObs := obs, hasPending := true }, false, out)
    else st.publishIfChanged item obs now out
  else (st, false, out)

/-- `release`: whether `*out` was filled, and `*out`. -/
def release (st : TdotState T) (now : Ns) (out : T) : TdotState T × Bool × T :=
  match st.releasePending now out with
  | (st, true, out) => (st, true, out)
  | (st, false, out) => st.releaseCandidate now out

/-- The head of `tdot_report_offer_replayed`: switch to source time. -/
def startReplay (st : TdotState T) (src now : Ns) : TdotState T :=
  let st :=
    if !st.replaying then
      let st :=
        { st with hasPublished := st.hasPublishedSrc, lastPublished := st.lastPublishedSrc }
      if st.hasCandidate then { st with candSince := src } else st
    else st
  { st with replaying := true, replayLastOffer := now }

/-- `tdot_report_offer_replayed`: its result, `*has_released` and `*released`. -/
def offerReplayed (st : TdotState T) (item : T) (obs : TdotObs) (quality : Quality)
    (src now : Ns) (released : T) : TdotState T × Bool × Bool × T :=
  let (st, hasReleased, released) := (st.startReplay src now).release src released
  let (st, out) := st.offerAt item obs quality src
  let st :=
    if st.hasPublished then
      { st with hasPublishedSrc := true, lastPublishedSrc := st.lastPublished }
    else st
  (st, out, hasReleased, released)

/-- `reference` in `tdot_report_due`: the last publish or heartbeat read. -/
def reference (st : TdotState T) : Ns :=
  let publishedAt := if st.hasPublished then st.lastPublished else st.origin
  let readAt := if st.hasRead then st.lastRead else st.origin
  if readAt.val < publishedAt.val then publishedAt else readAt

/-- `idle` in `tdot_report_due`. -/
def idle (st : TdotState T) (now : Ns) : Int64 :=
  if st.reference.val < now.val then now.val - st.reference.val else 0

/-- The last part of `tdot_report_due`: `*read`. -/
def heartbeatRead (st : TdotState T) (now : Ns) (pushed : Bool) : TdotState T × Bool :=
  if 0 < st.policy.maxInterval.val then
    if pushed && !st.unreadable && st.policy.maxInterval.val ≤ st.idle now then
      ({ st with lastRead := now, hasRead := true }, true)
    else (st, false)
  else (st, false)

/-- `tdot_report_due` once the point is on the runtime clock. -/
def dueLive (st : TdotState T) (now : Ns) (pushed : Bool) (out : T) :
    TdotState T × Bool × T × Bool :=
  let (st, published, out) := st.release now out
  let (st, read) := st.heartbeatRead now pushed
  (st, published, out, read)

/-- `tdot_report_due`: its result, `*out` and `*read`. -/
def due (st : TdotState T) (now : Ns) (pushed : Bool) (out : T) :
    TdotState T × Bool × T × Bool :=
  if st.replaying then
    if now.val - st.replayLastOffer.val < Ns.replayIdle.val then (st, false, out, false)
    else (st.handOver now).dueLive now pushed out
  else st.dueLive now pushed out

end TdotState

end TedgeDot.Report
