import TedgeDot.Lib.Machine
import TedgeDot.Report.Policy

/-!
# The reporting state of one point

`report.rs`, second half: `ReportState`, the state machine between a point's readings and the
sample topic. Each method of the source is a function from the state to the next state and the
method's result. Times are nanoseconds from a fixed origin; `Duration::saturating_sub` is the
truncated subtraction of `Nat`. `step` is one call; the runs of `step` are what the results are about.
-/

namespace TedgeDot.Report

universe u

/-! ## State -/

/-- A changed value that has not settled yet: since when it has stayed, and its most recent
reading. -/
structure Candidate (T : Type u) where
  first : Obs
  since : Nat
  latest : T
  latestObs : Obs

/-- What a pass of the runtime loop asks of one point. -/
structure Due (T : Type u) where
  /-- A held or settled reading to publish now. -/
  publish : Option T
  /-- Read the point on demand: its heartbeat is due and nothing delivers it. -/
  read : Bool

/-- How long a point stays on source time after its last replayed reading. -/
def REPLAY_IDLE : Nat := Duration.fromSecs 2

/-- Which clock the point's interval timers run on. -/
inductive Clock where
  /-- The runtime's monotonic clock: live readings. -/
  | runtime
  /-- Source time; `lastOffer` is the runtime time of the last replayed reading. -/
  | replay (lastOffer : Nat)

/-- The reporting state of one point. -/
structure ReportState (T : Type u) where
  policy : ReportPolicy
  /-- When the state was created or last reset. -/
  origin : Nat
  last : Option (Obs × Quality) := none
  lastPublished : Option Nat := none
  lastRead : Option Nat := none
  /-- A heartbeat read returned nothing for the point; no more until a reset. -/
  unreadable : Bool := false
  pending : Option (T × Obs) := none
  candidate : Option (Candidate T) := none
  clock : Clock := .runtime
  /-- The source time of the last reading published during a replay. -/
  lastPublishedSrc : Option Nat := none

namespace ReportState

variable {T : Type u}

def new (policy : ReportPolicy) (now : Nat) : ReportState T :=
  { policy := policy, origin := now }

/-- Forget everything, so the next reading is published. -/
def reset (st : ReportState T) (now : Nat) : ReportState T := new st.policy now

/-- A heartbeat read returned nothing for this point. -/
def noData (st : ReportState T) : ReportState T := { st with unreadable := true }

def sincePublished (st : ReportState T) (now : Nat) : Nat :=
  now - st.lastPublished.getD st.origin

def publish (st : ReportState T) (item : T) (obs : Obs) (quality : Quality) (now : Nat) :
    ReportState T × Option T :=
  ({ st with
      last := some (obs, quality)
      lastPublished := some now
      pending := none
      candidate := none },
    some item)

/-! ## Operations -/

/-- End a replay: the timers of a held or debouncing reading restart on the runtime clock. -/
def handOver (st : ReportState T) (now : Nat) : ReportState T :=
  { st with
    clock := .runtime
    lastPublishedSrc := if st.lastPublished.isSome then st.lastPublished else st.lastPublishedSrc
    lastPublished := if st.lastPublished.isSome then some now else none
    candidate := st.candidate.map (fun c => { c with since := now }) }

/-- `self.policy.max_interval.is_some_and(|max| self.since_published(now) >= max)`. -/
def heartbeatDue (st : ReportState T) (now : Nat) : Bool :=
  st.policy.maxInterval.any (fun max => max ≤ st.sincePublished now)

/-- `self.policy.min_interval.is_some_and(|min| self.since_published(now) < min)`. -/
def rateLimited (st : ReportState T) (now : Nat) : Bool :=
  st.policy.minInterval.any (fun min => st.sincePublished now < min)

/-- The `match self.policy.debounce` of `offer_at`: the reading that goes on to the rate limit,
or nothing where `offer_at` returns from inside it. -/
def settle (st : ReportState T) (item : T) (obs : Obs) (now : Nat) (changedFromLast : Bool) :
    ReportState T × Option (T × Obs) :=
  match st.policy.debounce with
  | none => (st, some (item, obs))
  | some debounce =>
    if !changedFromLast then
      -- Back at the published value: nothing settled or held is news any more.
      ({ st with candidate := none, pending := none }, none)
    else
      let restart : Candidate T := { first := obs, since := now, latest := item, latestObs := obs }
      match st.candidate with
      | some c =>
        if !st.policy.changed obs c.first then
          if now - c.since < debounce then
            ({ st with candidate := some { c with latest := item, latestObs := obs } }, none)
          else ({ st with candidate := none }, some (item, obs))
        else ({ st with candidate := some restart }, none)
      | none => ({ st with candidate := some restart }, none)

/-- `offer_at`: the reading, when it is to be published now; else it is dropped or held. -/
def offerAt (st : ReportState T) (item : T) (obs : Obs) (quality : Quality) (now : Nat) :
    ReportState T × Option T :=
  match st.last with
  | none => st.publish item obs quality now
  | some (lastObs, lastQuality) =>
    if lastQuality ≠ quality then st.publish item obs quality now
    else if st.heartbeatDue now then st.publish item obs quality now
    else
      match st.settle item obs now (st.policy.changed obs lastObs) with
      | (st, none) => (st, none)
      | (st, some (item, obs)) =>
        if st.rateLimited now then ({ st with pending := some (item, obs) }, none)
        else
          -- A newer reading supersedes anything held, whether or not it is published itself.
          let st := { st with pending := none }
          if st.policy.filtersChanges && !st.policy.changed obs lastObs then (st, none)
          else st.publish item obs quality now

/-- `offer`: a live reading. It ends a replay. -/
def offer (st : ReportState T) (item : T) (obs : Obs) (quality : Quality) (now : Nat) :
    ReportState T × Option T :=
  match st.clock with
  | .runtime => st.offerAt item obs quality now
  | .replay _ => (st.handOver now).offerAt item obs quality now

def publishIfChanged (st : ReportState T) (item : T) (obs : Obs) (now : Nat) :
    ReportState T × Option T :=
  match st.last with
  | none => (st, none)
  | some (lastObs, quality) =>
    if st.policy.filtersChanges && !st.policy.changed obs lastObs then (st, none)
    else st.publish item obs quality now

/-- The first half of `release`: the held reading, once its interval ended. -/
def releasePending (st : ReportState T) (now : Nat) : ReportState T × Option T :=
  match st.policy.minInterval, st.pending with
  | some min, some (item, obs) =>
    if min ≤ st.sincePublished now then
      { st with pending := none }.publishIfChanged item obs now
    else (st, none)
  | _, _ => (st, none)

/-- The second half of `release`: the debouncing reading, once it settled. -/
def releaseCandidate (st : ReportState T) (now : Nat) : ReportState T × Option T :=
  match st.policy.debounce, st.candidate with
  | some debounce, some c =>
    if debounce ≤ now - c.since then
      let st := { st with candidate := none }
      if st.rateLimited now then ({ st with pending := some (c.latest, c.latestObs) }, none)
      else st.publishIfChanged c.latest c.latestObs now
    else (st, none)
  | _, _ => (st, none)

/-- A held reading whose interval ended, or a debounced one that settled, by `now`. -/
def release (st : ReportState T) (now : Nat) : ReportState T × Option T :=
  match st.releasePending now with
  | (st, some item) => (st, some item)
  | (st, none) => st.releaseCandidate now

/-- The last part of `due`: whether a pushed point's heartbeat read is due. -/
def heartbeatRead (st : ReportState T) (now : Nat) (pushed : Bool) : ReportState T × Bool :=
  match st.policy.maxInterval with
  | none => (st, false)
  | some max =>
    let reference := Nat.max (st.lastPublished.getD st.origin) (st.lastRead.getD st.origin)
    if pushed && !st.unreadable && max ≤ now - reference then
      ({ st with lastRead := some now }, true)
    else (st, false)

/-- `due` on the runtime clock. -/
def dueLive (st : ReportState T) (now : Nat) (pushed : Bool) : ReportState T × Due T :=
  let (st, out) := st.release now
  let (st, read) := st.heartbeatRead now pushed
  (st, { publish := out, read := read })

def due (st : ReportState T) (now : Nat) (pushed : Bool) : ReportState T × Due T :=
  match st.clock with
  | .replay lastOffer =>
    if now - lastOffer < REPLAY_IDLE then (st, { publish := none, read := false })
    else (st.handOver now).dueLive now pushed
  | .runtime => st.dueLive now pushed

/-- The head of `offer_replayed`: switch to source time. -/
def startReplay (st : ReportState T) (src now : Nat) : ReportState T :=
  match st.clock with
  | .runtime =>
    { st with
      -- Resume source time where the last replay left it.
      lastPublished := st.lastPublishedSrc
      candidate := st.candidate.map (fun c => { c with since := src })
      clock := .replay now }
  | .replay _ => { st with clock := .replay now }

/-- Remember the source time of the last publish, to resume from. -/
def noteSrc (st : ReportState T) : ReportState T :=
  { st with
    lastPublishedSrc := if st.lastPublished.isSome then st.lastPublished else st.lastPublishedSrc }

/-- `offer_replayed`: a reading from the source's history. The readings to publish now, in
order. -/
def offerReplayed (st : ReportState T) (item : T) (obs : Obs) (quality : Quality)
    (src now : Nat) : ReportState T × List T :=
  let (st, released) := (st.startReplay src now).release src
  let (st, out) := st.offerAt item obs quality src
  (st.noteSrc, released.toList ++ out.toList)

end ReportState

/-! ## Calls -/

/-- A reading as it is offered: the item the state carries, what it is compared by and its
quality. -/
structure Reading (α : Type u) where
  item : α
  obs : Obs
  quality : Quality
deriving DecidableEq

/-- A call on the reporting state. -/
inductive Op (α : Type u) where
  | offer (r : Reading α) (now : Nat)
  | offerReplayed (r : Reading α) (src now : Nat)
  | due (now : Nat) (pushed : Bool)
  | noData
  | reset (now : Nat)

/-- What a call gives back: the readings to publish now, in order, and whether to read the
point. -/
structure Out (α : Type u) where
  published : List (Reading α) := []
  read : Bool := false
deriving DecidableEq

variable {α : Type u}

def Op.offered : Op α → List (Reading α)
  | .offer r _ => [r]
  | .offerReplayed r _ _ => [r]
  | _ => []

def step (st : ReportState (Reading α)) : Op α → ReportState (Reading α) × Out α
  | .offer r now =>
    let (st, out) := st.offer r r.obs r.quality now
    (st, { published := out.toList })
  | .offerReplayed r src now =>
    let (st, out) := st.offerReplayed r r.obs r.quality src now
    (st, { published := out })
  | .due now pushed =>
    let (st, due) := st.due now pushed
    (st, { published := due.publish.toList, read := due.read })
  | .noData => (st.noData, {})
  | .reset now => (st.reset now, {})

end TedgeDot.Report
