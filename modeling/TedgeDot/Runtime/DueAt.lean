import Mathlib.Algebra.Order.Ring.NNRat
import Mathlib.Data.NNRat.Lemmas
import TedgeDot.Lib.Machine

/-!
# Reading what is due

`runtime.c` with read workers: one device of the main loop. Its points are polled, or delivered by
push where the module took them. A worker reads the due points (`submit_due`), the loop takes the
readings when it returns (`finish_job`), and caches in `due_at` when the device next has a point due.
Until then a pass does not look at the points.

Times are seconds of the monotonic clock.
-/

namespace TedgeDot.DueAt

abbrev Instant := {t : ℚ≥0 // 0 < t}

def BACKOFF_INITIAL_S : ℚ≥0 := 1

def BACKOFF_MAX_S : ℚ≥0 := 60

/-! ## The device -/

inductive Link where
  | unknown
  | connected
  | degraded
  | disconnected
deriving DecidableEq

structure Point where
  /-- `access & TDOT_ACCESS_READ`. -/
  readable : Bool
  pollInterval : ℚ≥0
  nextDue : ℚ≥0
  subscribed : Bool
deriving DecidableEq

/-- A read in flight: its pass, and its points by index. -/
structure Job where
  now : ℚ≥0
  pts : List Nat
deriving DecidableEq

structure Device where
  points : List Point
  /-- The polled points by index (`schedule.h`). -/
  polled : List Nat
  link : Link
  backoff : ℚ≥0
  reconnectAt : ℚ≥0
  /-- `due_at` of the device. -/
  dueAt : ℚ≥0
  /-- The read in flight; the device is busy with it. -/
  job : Option Job
deriving DecidableEq

def pollDue (p : Point) (now : ℚ≥0) : Bool :=
  !p.subscribed && p.readable && decide (p.nextDue ≤ now)

def pointsAt (points : List Point) (indices : List Nat) : List Point :=
  indices.filterMap fun i => points[i]?

/-! ## Push -/

/-- `tdot_schedule_rebuild`: the readable points that are not delivered by push. -/
def scheduleRebuild (points : List Point) : List Nat :=
  (List.range points.length).filter fun i =>
    (points[i]?).any fun p => !p.subscribed && p.readable

def reschedule (dev : Device) : Device := { dev with polled := scheduleRebuild dev.points }

def clearSubscriptions (dev : Device) : Device :=
  reschedule { dev with points := dev.points.map fun p => { p with subscribed := false } }

/-- The points that the module takes by push. -/
def subscribe (taken : List Nat) (points : List Point) : List Point :=
  points.mapIdx fun i p => if taken.contains i then { p with subscribed := true } else p

/-- `arm_subscriptions`: nothing is taken where the module has no push or refuses it. -/
def armSubscriptions (dev : Device) (taken : Option (List Nat)) : Device :=
  let dev := clearSubscriptions dev
  match taken with
  | none => dev
  | some taken => reschedule { dev with points := subscribe taken dev.points }

/-- What comes of connecting: a failure, or what the module takes by push. -/
inductive Connect where
  | failed
  | done (taken : Option (List Nat))

def connectDevice (dev : Device) (clock : ℚ≥0) : Connect → Device
  | .done taken => { armSubscriptions { dev with backoff := 0 } taken with link := .connected }
  | .failed =>
    let dev := clearSubscriptions dev
    let backoff := if 0 < dev.backoff then min (dev.backoff * 2) BACKOFF_MAX_S else BACKOFF_INITIAL_S
    { dev with link := .disconnected, backoff, reconnectAt := clock + backoff }

def markTransportDown (dev : Device) (clock : ℚ≥0) : Device :=
  { clearSubscriptions dev with
    link := .disconnected, backoff := BACKOFF_INITIAL_S, reconnectAt := clock + BACKOFF_INITIAL_S }

/-! ## Reading -/

/-- A point's reading: `rc`, and whether its quality is bad. -/
inductive Reading where
  | noData
  | value (bad down : Bool)
deriving DecidableEq

/-- What a poll pass has seen of a device so far. -/
structure PollPass where
  polled : Nat
  bad : Nat
  transportDown : Bool

def PollPass.init : PollPass := { polled := 0, bad := 0, transportDown := false }

/-- The next poll of a point, on the interval's grid. -/
def advance (p : Point) (now : ℚ≥0) : Point :=
  let next := p.nextDue + p.pollInterval
  { p with nextDue := if next ≤ now then now + p.pollInterval else next }

/-- `take_reading`, as far as the pass goes. -/
def count (pass : PollPass) : Reading → PollPass
  | .noData => pass
  | .value bad down =>
    { polled := pass.polled + 1
      bad := if bad then pass.bad + 1 else pass.bad
      transportDown := pass.transportDown || down }

/-- The readings of a job, one after the other until the transport is down. -/
def takeReadings (now : ℚ≥0) :
    List (Nat × Reading) → List Point → PollPass → List Point × PollPass
  | [], points, pass => (points, pass)
  | (i, r) :: rest, points, pass =>
    if pass.transportDown then (points, pass)
    else takeReadings now rest (points.modify i fun p => advance p now) (count pass r)

def finishPass (dev : Device) (pass : PollPass) (clock : ℚ≥0) : Device :=
  if pass.transportDown then markTransportDown dev clock
  else if 0 < pass.polled then
    { dev with link := if pass.bad = pass.polled then .degraded else .connected }
  else dev

/-- The loop over the polled points that finds when the next one is due: 0 is none yet. -/
def earliest (points : List Point) : ℚ≥0 :=
  points.foldl (fun due p =>
    if !p.subscribed && p.readable && (due = 0 ∨ p.nextDue < due) then p.nextDue else due) 0

/-- `finish_job`, with the readings that the worker got. -/
def finishJob (dev : Device) (job : Job) (readings : List Reading) (clock : ℚ≥0) : Device :=
  let (points, pass) := takeReadings job.now (job.pts.zip readings) dev.points PollPass.init
  -- as many points as were polled before the link may go down and put pushed ones back
  let n := dev.polled.length
  let dev := finishPass { dev with points } pass clock
  { dev with dueAt := earliest (pointsAt dev.points (dev.polled.take n)), job := none }

/-- `submit_due`; nothing where no point is due, or the job cannot be made. -/
def submitDue (dev : Device) (now : ℚ≥0) (made : Bool) : Option Device :=
  let due := dev.polled.filter fun i => (dev.points[i]?).any fun p => pollDue p now
  if due.isEmpty || !made then none else some { dev with job := some { now, pts := due } }

/-! ## Steps -/

inductive Event where
  /-- A pass of the loop: what comes of connecting if it connects, whether a job can be made, and
  whether the drain of pushed values succeeds. -/
  | pass (now clock : Instant) (connect : Connect) (made drained : Bool)
  /-- A read in flight returns. -/
  | finish (clock : Instant) (readings : List Reading)
  /-- A heartbeat read of a pushed point confirms the link, or takes the transport down. -/
  | heartbeat (clock : Instant) (down : Bool)
  /-- A candidate configuration is refused, and the running one is connected again. -/
  | refused (clock : Instant) (connect : Connect)
  /-- A configuration is installed, with its points, and connected. -/
  | install (clock : Instant) (points : List (Bool × ℚ≥0)) (connect : Connect)

/-- The device of a configuration that was just loaded. -/
def load (points : List (Bool × ℚ≥0)) : Device where
  points := points.map fun p =>
    { readable := p.1, pollInterval := p.2, nextDue := 0, subscribed := false }
  polled := []
  link := .unknown
  backoff := 0
  reconnectAt := 0
  dueAt := 0
  job := none

/-- The device as a pass of the loop comes to read it, if it does. -/
def reach (dev : Device) (now clock : ℚ≥0) (connect : Connect) : Option Device :=
  if dev.job.isSome then none
  else if dev.link = .disconnected then
    if now < dev.reconnectAt then none
    else
      let dev := connectDevice dev clock connect
      if dev.link ≠ .connected then none else some dev
  else some dev

/-- The device where a pass does not come to read it. -/
def skipped (dev : Device) (now clock : ℚ≥0) (connect : Connect) : Device :=
  if dev.job.isSome ∨ dev.link ≠ .disconnected ∨ now < dev.reconnectAt then dev
  else connectDevice dev clock connect

/-- A pass of the loop over the device. -/
def pass (dev : Device) (now clock : ℚ≥0) (connect : Connect) (made drained : Bool) : Device :=
  match reach dev now clock connect with
  | none => skipped dev now clock connect
  | some dev =>
    match if dev.dueAt ≤ now then submitDue dev now made else none with
    | some dev => dev
    | none =>
      let dev := finishPass dev PollPass.init clock
      if dev.points.any (·.subscribed) && !drained then markTransportDown dev clock else dev

def step (dev : Device) : Event → Device
  | .pass now clock connect made drained => pass dev now clock connect made drained
  | .finish clock readings =>
    match dev.job with
    | none => dev
    | some job => finishJob dev job readings clock
  | .heartbeat clock down =>
    -- a device with a read in flight is skipped, and only a pushed point is read
    if dev.job.isSome || !dev.points.any (fun p => p.subscribed && p.readable) then dev
    else if down then markTransportDown dev clock
    else { dev with link := .connected }
  | .refused clock connect =>
    -- a command waits for the reads in flight
    if dev.job.isSome then dev else connectDevice { dev with link := .unknown } clock connect
  | .install clock points connect =>
    if dev.job.isSome then dev else connectDevice (load points) clock connect

/-! ## What a step has to keep -/

/-- A point is on the polling schedule. -/
def Polled (p : Point) : Prop := p.subscribed = false ∧ p.readable = true

/-- The invariant: the schedule lists the polled points, and `due_at` of a device that may be read
is no later than any of them is due. -/
structure Timely (dev : Device) : Prop where
  polled : dev.polled = scheduleRebuild dev.points
  started : ∀ job, dev.job = some job → 0 < job.now ∧ dev.link ≠ .disconnected
  cleared : dev.link = .disconnected → ∀ p ∈ dev.points, p.subscribed = false
  dueAt_le : dev.job = none → dev.link ≠ .disconnected →
    ∀ p ∈ dev.points, Polled p → dev.dueAt ≤ p.nextDue

/-- A connection that polls no point that is due before `due_at`. -/
def Rearmed (dev : Device) (connect : Connect) : Prop :=
  ∀ taken, connect = .done taken →
    ∀ i p, dev.points[i]? = some p → p.readable = true →
      (∀ indices, taken = some indices → i ∉ indices) → dev.dueAt ≤ p.nextDue

/-- A point that was never due later than from the start, and of which the job has no reading. -/
def Unread (dev : Device) (job : Job) (readings : List Reading) (i : Nat) : Prop :=
  i ∉ job.pts.take readings.length ∧ ∃ p, dev.points[i]? = some p ∧ p.nextDue = 0

/-- The condition on a step. A pass can make its job, and connecting keeps to `due_at`; a job
leaves a point that was never read only where it leaves the last one of the schedule so too. -/
def Kept (dev : Device) : Event → Prop
  | .pass now _ connect made _ =>
    made = true ∧
      (dev.job = none → dev.link = .disconnected → dev.reconnectAt ≤ now → Rearmed dev connect)
  | .finish _ readings =>
    ∀ job, dev.job = some job →
      ∀ i ∈ dev.polled, Unread dev job readings i →
        ∀ l, dev.polled.getLast? = some l → Unread dev job readings l
  | .heartbeat _ _ => True
  | .refused _ connect => dev.job = none → Rearmed dev connect
  | .install _ _ _ => True

/-- What a step owes: a pass that comes to read a device with a point due starts a job with every
point that is due. -/
def Served (dev : Device) : Event → Prop
  | .pass now clock connect made drained =>
    ∀ dev', reach dev now clock connect = some dev' →
      ∀ p ∈ dev'.points, pollDue p now = true →
        ∃ job, (pass dev now clock connect made drained).job = some job ∧
          ∀ i q, dev'.points[i]? = some q → pollDue q now = true → i ∈ job.pts
  | _ => True

/-! ## The schedule -/

variable {points : List Point} {p : Point} {now : ℚ≥0} {dev : Device} {clock : ℚ≥0}
  {connect : Connect} {job : Job} {readings : List Reading}

theorem mem_scheduleRebuild {i : Nat} :
    i ∈ scheduleRebuild points ↔ ∃ p, points[i]? = some p ∧ Polled p := by
  unfold scheduleRebuild Polled
  rw [List.mem_filter, List.mem_range]
  cases hi : points[i]? with
  | none => simp
  | some p =>
    have hlt : i < points.length := (List.getElem?_eq_some_iff.mp hi).1
    simp [hlt]

theorem mem_pointsAt {indices : List Nat} :
    p ∈ pointsAt points indices ↔ ∃ i ∈ indices, points[i]? = some p := by
  simp [pointsAt, List.mem_filterMap]

theorem mem_pointsAt_schedule :
    p ∈ pointsAt points (scheduleRebuild points) ↔ p ∈ points ∧ Polled p := by
  rw [mem_pointsAt]
  constructor
  · rintro ⟨i, hi, hp⟩
    obtain ⟨q, hq, hpolled⟩ := mem_scheduleRebuild.mp hi
    obtain rfl : q = p := Option.some.inj (hq.symm.trans hp)
    exact ⟨List.mem_of_getElem? hp, hpolled⟩
  · rintro ⟨hmem, hpolled⟩
    obtain ⟨i, hi⟩ := List.getElem?_of_mem hmem
    exact ⟨i, mem_scheduleRebuild.mpr ⟨p, hi, hpolled⟩, hi⟩

theorem pollDue_iff : pollDue p now = true ↔ Polled p ∧ p.nextDue ≤ now := by
  simp [pollDue, Polled]

/-- The schedule depends on what is subscribed and readable only. -/
theorem scheduleRebuild_congr {points points' : List Point}
    (h : points.map (fun p => (p.subscribed, p.readable)) =
      points'.map (fun p => (p.subscribed, p.readable))) :
    scheduleRebuild points = scheduleRebuild points' := by
  have hlen : points.length = points'.length := by simpa using congrArg List.length h
  unfold scheduleRebuild
  rw [hlen]
  apply List.filter_congr
  intro i _
  have hi : (points[i]?).map (fun p => (p.subscribed, p.readable)) =
      (points'[i]?).map (fun p => (p.subscribed, p.readable)) := by
    rw [← List.getElem?_map, ← List.getElem?_map, h]
  cases hp : points[i]? with
  | none => cases hq : points'[i]? with
    | none => rfl
    | some q => simp [hp, hq] at hi
  | some p => cases hq : points'[i]? with
    | none => simp [hp, hq] at hi
    | some q =>
      simp only [hp, hq, Option.map_some, Option.some.injEq, Prod.mk.injEq] at hi
      simp [hi.1, hi.2]

/-! ## Connecting -/

theorem connectDevice_polled (dev : Device) (clock : ℚ≥0) (connect : Connect) :
    (connectDevice dev clock connect).polled =
      scheduleRebuild (connectDevice dev clock connect).points := by
  rcases connect with _ | (_ | taken) <;> rfl

theorem connectDevice_job (dev : Device) (clock : ℚ≥0) (connect : Connect) :
    (connectDevice dev clock connect).job = dev.job := by
  rcases connect with _ | (_ | taken) <;> rfl

theorem connectDevice_dueAt (dev : Device) (clock : ℚ≥0) (connect : Connect) :
    (connectDevice dev clock connect).dueAt = dev.dueAt := by
  rcases connect with _ | (_ | taken) <;> rfl

/-- A point that is polled after connecting was not taken by a subscription. -/
theorem connectDevice_point {taken : Option (List Nat)} {q : Point}
    (hq : q ∈ (connectDevice dev clock (.done taken)).points) (hpolled : Polled q) :
    ∃ i p, dev.points[i]? = some p ∧ p.readable = true ∧ p.nextDue = q.nextDue ∧
      ∀ indices, taken = some indices → i ∉ indices := by
  cases taken with
  | none =>
    obtain ⟨p, hp, rfl⟩ := List.mem_map.mp hq
    obtain ⟨i, hi⟩ := List.getElem?_of_mem hp
    exact ⟨i, p, hi, hpolled.2, rfl, by simp⟩
  | some taken =>
    obtain ⟨i, hi⟩ := List.getElem?_of_mem hq
    have hi : (subscribe taken (dev.points.map fun p => { p with subscribed := false }))[i]? =
        some q := hi
    rw [subscribe, List.getElem?_mapIdx, List.getElem?_map, Option.map_map,
      Option.map_eq_some_iff] at hi
    obtain ⟨p, hp, hpq⟩ := hi
    simp only [Function.comp_apply] at hpq
    by_cases htaken : i ∈ taken
    · -- a point that was taken is not polled
      rw [if_pos (List.contains_iff_mem.mpr htaken)] at hpq
      exact absurd hpolled.1 (by simp [← hpq])
    · rw [if_neg (by simpa using htaken)] at hpq
      refine ⟨i, p, hp, ?_, ?_, ?_⟩
      · simpa [← hpq] using hpolled.2
      · simp [← hpq]
      · rintro indices ⟨⟩
        exact htaken

theorem connectDevice_cleared (hlink : (connectDevice dev clock connect).link = .disconnected) :
    ∀ p ∈ (connectDevice dev clock connect).points, p.subscribed = false := by
  cases connect with
  | failed =>
    intro p hp
    obtain ⟨q, -, rfl⟩ := List.mem_map.mp hp
    rfl
  | done taken => cases hlink

theorem connectDevice_timely (hjob : dev.job = none) (hrearmed : Rearmed dev connect) :
    Timely (connectDevice dev clock connect) where
  polled := connectDevice_polled dev clock connect
  started job h := by
    rw [connectDevice_job, hjob] at h
    cases h
  cleared := connectDevice_cleared
  dueAt_le := by
    intro _ hlink q hq hpolled
    cases connect with
    | failed => exact absurd rfl hlink
    | done taken =>
      obtain ⟨i, p, hp, hreadable, hnext, htaken⟩ := connectDevice_point hq hpolled
      rw [connectDevice_dueAt, ← hnext]
      exact hrearmed taken rfl i p hp hreadable htaken

theorem markTransportDown_timely (clock : ℚ≥0) (hjob : dev.job = none) :
    Timely (markTransportDown dev clock) where
  polled := rfl
  started job h := by
    rw [show (markTransportDown dev clock).job = dev.job from rfl, hjob] at h
    cases h
  cleared _ p hp := by
    obtain ⟨q, -, rfl⟩ := List.mem_map.mp hp
    rfl
  dueAt_le _ hlink := absurd rfl hlink

theorem finishPass_init (dev : Device) (clock : ℚ≥0) : finishPass dev PollPass.init clock = dev := by
  simp [finishPass, PollPass.init]

/-! ## The next due point -/

/-- The loop's step at a point of the schedule. -/
def soonest (due : ℚ≥0) (p : Point) : ℚ≥0 :=
  if due = 0 ∨ p.nextDue < due then p.nextDue else due

theorem earliest_eq (h : ∀ p ∈ points, Polled p) : earliest points = points.foldl soonest 0 := by
  unfold earliest
  apply List.foldl_ext
  intro due p hp
  simp [soonest, (h p hp).1, (h p hp).2]

theorem soonest_foldl_le (hpos : ∀ p ∈ points, p.nextDue ≠ 0) {due : ℚ≥0} (hdue : due ≠ 0) :
    points.foldl soonest due ≤ due ∧ ∀ p ∈ points, points.foldl soonest due ≤ p.nextDue := by
  induction points generalizing due with
  | nil => simp
  | cons p rest ih =>
    have hstep : soonest due p ≠ 0 ∧ soonest due p ≤ due ∧ soonest due p ≤ p.nextDue := by
      unfold soonest
      split
      next h =>
        have hlt : p.nextDue < due := h.resolve_left hdue
        exact ⟨hpos p List.mem_cons_self, hlt.le, le_rfl⟩
      next h => exact ⟨hdue, le_rfl, not_lt.mp fun hlt => h (.inr hlt)⟩
    obtain ⟨hle, hrest⟩ := ih (fun q hq => hpos q (List.mem_cons_of_mem p hq)) hstep.1
    refine ⟨hle.trans hstep.2.1, ?_⟩
    intro q hq
    rcases List.mem_cons.mp hq with rfl | hq
    · exact hle.trans hstep.2.2
    · exact hrest q hq

/-- The device's time is no later than that of any of its points. -/
theorem earliest_le (hpolled : ∀ p ∈ points, Polled p)
    (hzero : ∀ p ∈ points, p.nextDue = 0 → ∀ q, points.getLast? = some q → q.nextDue = 0) :
    ∀ p ∈ points, earliest points ≤ p.nextDue := by
  rw [earliest_eq hpolled]
  by_cases hpos : ∀ p ∈ points, p.nextDue ≠ 0
  · cases points with
    | nil => simp
    | cons p rest =>
      -- 0 is none yet: the first point's time is taken
      have hfirst : soonest 0 p = p.nextDue := by simp [soonest]
      obtain ⟨hle, hrest⟩ := soonest_foldl_le
        (fun q hq => hpos q (List.mem_cons_of_mem p hq)) (hpos p List.mem_cons_self)
      intro q hq
      rw [List.foldl_cons, hfirst]
      rcases List.mem_cons.mp hq with rfl | hq
      · exact hle
      · exact hrest q hq
  · -- a time of 0 at the end of the schedule is what remains
    push Not at hpos
    obtain ⟨p, hp, hp0⟩ := hpos
    obtain ⟨q, hq⟩ := Option.isSome_iff_exists.mp
      (List.getLast?_isSome.mpr (List.ne_nil_of_mem hp))
    have hq0 := hzero p hp hp0 q hq
    obtain ⟨init, rfl⟩ := List.getLast?_eq_some_iff.mp hq
    have hfold : (init ++ [q]).foldl soonest 0 = 0 := by
      rw [List.foldl_append]
      simp only [List.foldl_cons, List.foldl_nil, soonest, hq0]
      split
      · rfl
      next h => exact absurd (pos_iff_ne_zero.mpr fun h0 => h (.inl h0)) fun hlt => h (.inr hlt)
    intro r _
    rw [hfold]
    exact zero_le

/-! ## The readings of a job -/

theorem map_fst_zip_take (pts : List Nat) (readings : List Reading) :
    (pts.zip readings).map Prod.fst = pts.take readings.length := by
  rw [List.zip_eq_zip_take_min, List.map_fst_zip (by simp)]
  rw [List.take_eq_take_iff]
  omega

theorem takeReadings_schedule (now : ℚ≥0) (rs : List (Nat × Reading)) (points : List Point)
    (p : PollPass) :
    scheduleRebuild (takeReadings now rs points p).1 = scheduleRebuild points := by
  induction rs generalizing points p with
  | nil => rfl
  | cons r rest ih =>
    rw [takeReadings]
    split
    · rfl
    · rw [ih]
      apply scheduleRebuild_congr
      apply List.ext_getElem?
      intro j
      simp only [List.getElem?_map, List.getElem?_modify]
      cases points[j]? with
      | none => rfl
      | some q =>
        simp only [Option.map_some]
        split <;> rfl

theorem takeReadings_down (now : ℚ≥0) (rs : List (Nat × Reading)) (points : List Point)
    {p : PollPass} (hp : p.transportDown = true) :
    (takeReadings now rs points p).2.transportDown = true := by
  cases rs with
  | nil => exact hp
  | cons r rest => simp [takeReadings, hp]

theorem takeReadings_of_notMem {rs : List (Nat × Reading)} {p : PollPass} {i : Nat}
    (hi : i ∉ rs.map Prod.fst) : (takeReadings now rs points p).1[i]? = points[i]? := by
  induction rs generalizing points p with
  | nil => rfl
  | cons r rest ih =>
    rw [takeReadings]
    split
    · rfl
    · rw [List.map_cons, List.mem_cons, not_or] at hi
      rw [ih hi.2, List.getElem?_modify]
      simp [Ne.symm hi.1]

theorem advance_nextDue_pos (hnow : 0 < now) (p : Point) : (advance p now).nextDue ≠ 0 := by
  unfold advance
  simp only
  split
  · exact (hnow.trans_le le_self_add).ne'
  next h => exact (hnow.trans (not_le.mp h)).ne'

theorem takeReadings_of_mem (hnow : 0 < now) {rs : List (Nat × Reading)} {p : PollPass}
    (hup : (takeReadings now rs points p).2.transportDown = false) {i : Nat}
    (hi : i ∈ rs.map Prod.fst) {q : Point} (hq : (takeReadings now rs points p).1[i]? = some q) :
    q.nextDue ≠ 0 := by
  induction rs generalizing points p with
  | nil => simp at hi
  | cons r rest ih =>
    have hp : p.transportDown = false := by
      by_contra hdown
      rw [takeReadings_down now _ points (by simpa using hdown)] at hup
      cases hup
    rw [takeReadings, if_neg (by simp [hp])] at hup hq
    by_cases hrest : i ∈ rest.map Prod.fst
    · exact ih hup hrest hq
    · -- the reading at hand is the point's last
      obtain rfl : i = r.1 := (List.mem_cons.mp hi).resolve_right hrest
      rw [takeReadings_of_notMem hrest, List.getElem?_modify] at hq
      simp only [if_true] at hq
      obtain ⟨q', -, rfl⟩ := Option.map_eq_some_iff.mp hq
      exact advance_nextDue_pos hnow q'

theorem unread_of_zero (hnow : 0 < job.now)
    (hup : (takeReadings job.now (job.pts.zip readings) dev.points PollPass.init).2.transportDown =
      false)
    {i : Nat} {q : Point}
    (hq : (takeReadings job.now (job.pts.zip readings) dev.points PollPass.init).1[i]? = some q)
    (h0 : q.nextDue = 0) : Unread dev job readings i := by
  have hnotMem : i ∉ (job.pts.zip readings).map Prod.fst :=
    fun hmem => takeReadings_of_mem hnow hup hmem hq h0
  refine ⟨by rwa [map_fst_zip_take] at hnotMem, q, ?_, h0⟩
  rwa [takeReadings_of_notMem hnotMem] at hq

theorem zero_of_unread {i : Nat} (h : Unread dev job readings i) {q : Point}
    (hq : (takeReadings job.now (job.pts.zip readings) dev.points PollPass.init).1[i]? = some q) :
    q.nextDue = 0 := by
  obtain ⟨hnotMem, p, hp, h0⟩ := h
  rw [takeReadings_of_notMem (by rwa [map_fst_zip_take]), hp] at hq
  obtain rfl := Option.some.inj hq
  exact h0

/-- So it is after the readings are taken in. -/
theorem earliest_takeReadings (hdev : Timely dev) (hjob : dev.job = some job)
    (hkept : ∀ i ∈ dev.polled, Unread dev job readings i → ∀ l, dev.polled.getLast? = some l →
      Unread dev job readings l)
    {result : PollPass} (hup : result.transportDown = false)
    (htaken : takeReadings job.now (job.pts.zip readings) dev.points PollPass.init =
      (points, result)) :
    dev.polled = scheduleRebuild points ∧
      ∀ p ∈ points, Polled p → earliest (pointsAt points dev.polled) ≤ p.nextDue := by
  have hschedule := takeReadings_schedule job.now (job.pts.zip readings) dev.points PollPass.init
  have hunread := @unread_of_zero dev job readings (hdev.started job hjob).1
  have hzero := @zero_of_unread dev job readings
  rw [htaken] at hschedule hunread hzero
  have hpolled : dev.polled = scheduleRebuild points := hdev.polled.trans hschedule.symm
  have hall : ∀ p ∈ pointsAt points dev.polled, Polled p := by
    rw [hpolled]
    exact fun p hp => (mem_pointsAt_schedule.mp hp).2
  have hlast : ∀ p ∈ pointsAt points dev.polled, p.nextDue = 0 →
      ∀ q, (pointsAt points dev.polled).getLast? = some q → q.nextDue = 0 := by
    intro p hp h0 q hq
    obtain ⟨i, hi, hpi⟩ := mem_pointsAt.mp hp
    obtain ⟨l, hl⟩ := Option.isSome_iff_exists.mp
      (List.getLast?_isSome.mpr (List.ne_nil_of_mem hi))
    have hunreadLast := hkept i hi (hunread hup hpi h0) l hl
    obtain ⟨init, hinit⟩ := List.getLast?_eq_some_iff.mp hl
    have hmem : l ∈ scheduleRebuild points := by
      rw [← hpolled, hinit]
      exact List.mem_append_right init List.mem_cons_self
    obtain ⟨q', hq', -⟩ := mem_scheduleRebuild.mp hmem
    obtain rfl : q' = q := by
      rw [hinit, pointsAt, List.filterMap_append] at hq
      simpa [hq'] using hq
    exact hzero hunreadLast hq'
  refine ⟨hpolled, ?_⟩
  intro p hp hpoint
  apply earliest_le hall hlast p
  rw [hpolled]
  exact mem_pointsAt_schedule.mpr ⟨hp, hpoint⟩

/-- A job that ends leaves the device on time. -/
theorem finishJob_timely (clock : ℚ≥0) (hdev : Timely dev) (hjob : dev.job = some job)
    (hkept : ∀ i ∈ dev.polled, Unread dev job readings i → ∀ l, dev.polled.getLast? = some l →
      Unread dev job readings l) :
    Timely (finishJob dev job readings clock) := by
  cases htaken : takeReadings job.now (job.pts.zip readings) dev.points PollPass.init with
  | mk points result =>
  simp only [finishJob, htaken]
  by_cases hdown : result.transportDown = true
  · have hpass : ∀ d : Device, finishPass d result clock = markTransportDown d clock :=
      fun d => if_pos hdown
    rw [hpass]
    have hdowned := @markTransportDown_timely { dev with points, job := none } clock rfl
    exact ⟨hdowned.polled, fun _ h => (by cases h), hdowned.cleared, fun _ hlink => absurd rfl hlink⟩
  · obtain ⟨hpolled, hearliest⟩ :=
      earliest_takeReadings hdev hjob hkept (by simpa using hdown) htaken
    have hpass : ∀ d : Device, d.link ≠ .disconnected →
        ∃ link, link ≠ .disconnected ∧ finishPass d result clock = { d with link } := by
      intro d hlink
      unfold finishPass
      rw [if_neg hdown]
      split
      · exact ⟨_, by split <;> simp, rfl⟩
      · exact ⟨d.link, hlink, rfl⟩
    obtain ⟨link, hlink, hfinish⟩ := hpass { dev with points } (hdev.started job hjob).2
    rw [hfinish, List.take_length]
    exact ⟨hpolled, fun _ h => (by cases h), fun h => absurd h hlink,
      fun _ _ p hp hpoint => hearliest p hp hpoint⟩

/-! ## Steps keep the invariant -/

theorem load_timely {points : List (Bool × ℚ≥0)} :
    Timely (connectDevice (load points) clock connect) :=
  connectDevice_timely rfl fun _ _ _ _ _ _ _ => zero_le

/-- So does reaching for the device. -/
theorem reach_timely {dev dev' : Device} {now clock : ℚ≥0} (hdev : Timely dev)
    (hrearmed : dev.job = none → dev.link = .disconnected → dev.reconnectAt ≤ now →
      Rearmed dev connect)
    (h : reach dev now clock connect = some dev') :
    Timely dev' ∧ dev'.job = none ∧ dev'.link ≠ .disconnected := by
  unfold reach at h
  split at h
  · cases h
  next hbusy =>
    have hjob : dev.job = none := by simpa using hbusy
    split at h
    next hlink =>
      split at h
      · cases h
      next hlate =>
        simp only at h
        split at h
        · cases h
        next hup =>
          obtain rfl := Option.some.inj h
          rw [not_not] at hup
          refine ⟨connectDevice_timely hjob (hrearmed hjob hlink (not_lt.mp hlate)), ?_, ?_⟩
          · rw [connectDevice_job, hjob]
          · rw [hup]
            simp
    next hlink =>
      obtain rfl := Option.some.inj h
      exact ⟨hdev, hjob, hlink⟩

theorem skipped_timely {now clock : ℚ≥0} (hdev : Timely dev)
    (hrearmed : dev.job = none → dev.link = .disconnected → dev.reconnectAt ≤ now →
      Rearmed dev connect) :
    Timely (skipped dev now clock connect) := by
  unfold skipped
  split
  · exact hdev
  next h =>
    rw [not_or, not_or, not_not, not_lt] at h
    have hjob : dev.job = none := by simpa using h.1
    exact connectDevice_timely hjob (hrearmed hjob h.2.1 h.2.2)

theorem submitDue_eq_some {dev dev' : Device} {made : Bool} (h : submitDue dev now made = some dev') :
    ∃ pts, dev' = { dev with job := some { now, pts } } := by
  unfold submitDue at h
  simp only at h
  split at h
  · cases h
  · exact ⟨_, (Option.some.inj h).symm⟩

/-- And a whole pass. -/
theorem pass_timely {now : Instant} {made drained : Bool} (hdev : Timely dev)
    (hrearmed : dev.job = none → dev.link = .disconnected → dev.reconnectAt ≤ now →
      Rearmed dev connect) :
    Timely (pass dev now clock connect made drained) := by
  unfold pass
  split
  · exact skipped_timely hdev hrearmed
  next dev' hreach =>
    obtain ⟨htimely, hjob, hlink⟩ := reach_timely hdev hrearmed hreach
    split
    next started hstarted =>
      -- a job is started: nothing is asked of `due_at` until it returns
      split at hstarted
      · obtain ⟨pts, rfl⟩ := submitDue_eq_some hstarted
        refine ⟨htimely.polled, ?_, htimely.cleared, fun h => (by cases h)⟩
        rintro job ⟨⟩
        exact ⟨now.2, hlink⟩
      · cases hstarted
    · rw [finishPass_init]
      simp only
      split
      · exact markTransportDown_timely clock hjob
      · exact htimely

/-- Every event of the poll loop does. -/
theorem step_timely {e : Event} (hkept : Kept dev e) (hdev : Timely dev) : Timely (step dev e) := by
  cases e with
  | pass now clock connect made drained => exact pass_timely hdev hkept.2
  | finish clock readings =>
    simp only [step]
    cases hjob : dev.job with
    | none => exact hdev
    | some job => exact finishJob_timely clock hdev hjob (hkept job hjob)
  -- a device that went down is due when it reconnects
  | heartbeat clock down =>
    simp only [step]
    split
    · exact hdev
    next h =>
      rw [Bool.or_eq_true, not_or] at h
      have hjob : dev.job = none := by simpa using h.1
      split
      · exact markTransportDown_timely clock hjob
      · -- a device with a pushed point is not down: `due_at` was right before
        have hlink : dev.link ≠ .disconnected := by
          intro hlink
          refine h.2 ?_
          rw [Bool.not_eq_true', List.any_eq_false]
          intro p hp
          simp [hdev.cleared hlink p hp]
        refine ⟨hdev.polled, fun job h => ?_, fun h => (by cases h),
          fun _ _ => hdev.dueAt_le hjob hlink⟩
        exact ⟨(hdev.started job h).1, by simp⟩
  | refused clock connect =>
    simp only [step]
    split
    · exact hdev
    next h =>
      have hjob : dev.job = none := by simpa using h
      exact @connectDevice_timely { dev with link := .unknown } clock connect hjob (hkept hjob)
  | install clock points connect =>
    simp only [step]
    split
    · exact hdev
    · exact load_timely

/-- A pass reads what is due, where `due_at` is no later than the device's points are due. -/
theorem pass_serves {now : Instant} {drained : Bool} (hdev : Timely dev)
    (hrearmed : dev.job = none → dev.link = .disconnected → dev.reconnectAt ≤ now →
      Rearmed dev connect)
    {dev' : Device} (hreach : reach dev now clock connect = some dev') (hp : p ∈ dev'.points)
    (hdue : pollDue p now = true) :
    ∃ job, (pass dev now clock connect true drained).job = some job ∧
      ∀ i q, dev'.points[i]? = some q → pollDue q now = true → i ∈ job.pts := by
  obtain ⟨htimely, hjob, hlink⟩ := reach_timely hdev hrearmed hreach
  have hdueAt : dev'.dueAt ≤ now :=
    (htimely.dueAt_le hjob hlink p hp (pollDue_iff.mp hdue).1).trans (pollDue_iff.mp hdue).2
  have hmem : ∀ i q, dev'.points[i]? = some q → pollDue q now = true →
      i ∈ dev'.polled.filter fun i => (dev'.points[i]?).any fun p => pollDue p now := by
    intro i q hq hqdue
    rw [List.mem_filter, htimely.polled, hq]
    exact ⟨mem_scheduleRebuild.mpr ⟨q, hq, (pollDue_iff.mp hqdue).1⟩, hqdue⟩
  obtain ⟨i, hi⟩ := List.getElem?_of_mem hp
  have hnonempty := List.ne_nil_of_mem (hmem i p hi hdue)
  refine ⟨{ now := now, pts := _ }, ?_, hmem⟩
  simp only [pass, hreach, if_pos hdueAt, submitDue]
  rw [if_neg (by simpa using hnonempty)]

/-! ## Runs -/

/-- The steps as those of a machine without outputs. -/
def run (dev : Device) (e : Event) : Device × Unit := (step dev e, ())

/-- A device of a configuration that was loaded and connected. -/
def started (points : List (Bool × ℚ≥0)) (clock : Instant) (connect : Connect) : Device :=
  connectDevice (load points) clock connect

/-- In every run that keeps to the condition, each pass that comes to read the device starts a job
with all that is due, and `due_at` is never later than a polled point of a device that may be read
is due. -/
theorem due_points_read (points : List (Bool × ℚ≥0)) (clock : Instant) (connect : Connect)
    (events : List Event)
    (hkept : Machine.AllSteps run Kept (started points clock connect) events) :
    Machine.AllSteps run Served (started points clock connect) events ∧
      Timely (Machine.final run (started points clock connect) events) := by
  have hstart : Timely (started points clock connect) := load_timely
  have hstep : ∀ dev e, Kept dev e → Timely dev → Timely (run dev e).1 :=
    fun _ _ hkept hdev => step_timely hkept hdev
  refine ⟨?_, Machine.final_induction_of hstep hkept hstart⟩
  refine Machine.allSteps_of_allSteps hstep (fun dev e hkept hdev => ?_) hkept hstart
  cases e with
  | pass now clock connect made drained =>
    obtain ⟨rfl, hrearmed⟩ := hkept
    intro dev' hreach p hp hdue
    exact pass_serves hdev hrearmed hreach hp hdue
  | finish clock readings => trivial
  | heartbeat clock down => trivial
  | refused clock connect => trivial
  | install clock points connect => trivial

/-- The clock at a whole second, from 1 on. -/
def second (n : ℕ) : Instant := ⟨n + 1, add_pos_of_nonneg_of_pos zero_le one_pos⟩

/-- A point every hour: it is read, and an hour later it is read again. -/
theorem due_points_read_hourly :
    let events : List Event := [.pass (second 0) (second 0) .failed true true,
      .finish (second 1) [.value false false], .pass (second 3600) (second 3600) .failed true true]
    Machine.AllSteps run Served (started [(true, 3600)] (second 0) (.done none)) events ∧
      Timely (Machine.final run (started [(true, 3600)] (second 0) (.done none)) events) := by
  refine due_points_read [(true, 3600)] (second 0) (.done none) _ ⟨?_, ?_, ?_, trivial⟩
  · exact ⟨rfl, fun _ h => (by cases h)⟩
  · have hdev : (run (started [(true, 3600)] (second 0) (.done none))
        (.pass (second 0) (second 0) .failed true true)).1 =
        { points := [{ readable := true, pollInterval := 3600, nextDue := 0, subscribed := false }]
          polled := [0], link := .connected, backoff := 0, reconnectAt := 0, dueAt := 0
          job := some { now := 1, pts := [0] } } := by decide +kernel
    rw [hdev]
    rintro job ⟨⟩ i hi ⟨hnotMem, -⟩
    exact absurd hi hnotMem
  · refine ⟨rfl, fun _ h => absurd h ?_⟩
    decide +kernel

/-- The second point's push was lost after the first point was read. -/
def pushLost : Device where
  points :=
    [{ readable := true, pollInterval := 3600, nextDue := 3600, subscribed := false },
      { readable := true, pollInterval := 1, nextDue := 0, subscribed := false }]
  polled := [0, 1]
  link := .disconnected
  backoff := 1
  reconnectAt := 3
  dueAt := 3600
  job := none

/-- A point of every hour is polled and a point of every second is taken by push. The push is lost,
and refused when the device is connected again: the point that is due is not read. -/
theorem due_point_left :
    ¬ ∀ (points : List (Bool × ℚ≥0)) (clock : Instant) (connect : Connect) (events : List Event),
      Machine.AllSteps run Served (started points clock connect) events := by
  intro h
  have hrun := h [(true, 3600), (true, 1)] (second 0) (.done (some [1]))
    [.pass (second 0) (second 0) .failed true true, .finish (second 1) [.value false false],
      .pass (second 1) (second 1) .failed true false,
      .pass (second 3) (second 3) (.done none) true true]
  have hlost : Machine.final run (started [(true, 3600), (true, 1)] (second 0) (.done (some [1])))
      [.pass (second 0) (second 0) .failed true true, .finish (second 1) [.value false false],
        .pass (second 1) (second 1) .failed true false] = pushLost := by decide +kernel
  have hserved := hrun.2.2.2.1
  simp only [Machine.final_cons, Machine.final_nil] at hlost
  rw [hlost] at hserved
  obtain ⟨job, hjob, -⟩ := hserved (connectDevice pushLost (second 3) (.done none))
    (by decide +kernel)
    { readable := true, pollInterval := 1, nextDue := 0, subscribed := false } (by decide +kernel)
    (by decide +kernel)
  -- `due_at` is still that of the first point: the pass starts no job
  have hnone : (pass pushLost (second 3) (second 3) (.done none) true true).job = none := by
    decide +kernel
  rw [hnone] at hjob
  cases hjob

end TedgeDot.DueAt
