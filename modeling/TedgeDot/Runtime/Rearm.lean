import TedgeDot.Map.ValueMap
import TedgeDot.Measure.Table
import TedgeDot.Runtime.Atomic
import TedgeDot.Runtime.Concurrency

/-!
# What the main loop derives from the configuration

The limits, the subscribed points, the schedule, the meta index, the reporter, the publisher and the
budgets are built from the configuration, and some of them name devices by their place in it. The
main loop rebuilds them (`rearm`) when a management command reports that the configuration changed,
or a reload applied one. A command that replaces the configuration and then fails to publish reports
an error instead, and the loop goes on with what it built before.

`Derived` is what was built. What the loop changes in it afterwards (when an entry is due next, the
states of the policies, the open messages, the requests in flight) does not come from the
configuration and is left out.
-/

namespace TedgeDot.Management

open Concurrency (Budgets)
open EngineeringUnits (Transform)
open Map (ValueMap)
open TedgeDot.Measure (Batcher Output reportTable)
open Report (ReportPolicy effective)

variable {M : Type}

/-! ## What is built -/

/-- A point as the module sees it. -/
structure PointRef where
  id : String
  mode : Mode
  datatype : Option DataType
  endianness : Endianness
  wordOrder : WordOrder
  access : Access
  unit : Option String
  transform : Transform
  interval : Option Nat

def pointRef (point : PointConfig) (deviceDefault : Option Mode) : PointRef where
  id := point.id
  mode := point.resolvedMode deviceDefault
  datatype := point.datatype
  endianness := .parse point.endianness
  wordOrder := .parse point.wordOrder
  access := .parse point.access
  unit := point.unit
  transform := point.transform.getD {}
  interval := point.pollInterval.bind parseDuration

/-- A point held by the place of its device, with the device it was built for. -/
structure Held where
  deviceIndex : Nat
  device : String
  point : String
deriving DecidableEq

/-- An entry of the schedule, with the device it was built for. -/
structure ScheduleEntry where
  deviceIndex : Nat
  device : String
  point : PointRef
  interval : Nat

/-- What the meta index has of a point. -/
structure PointExtras where
  metadata : Option Json
  access : Access
  deviceType : Option String
  map : Option ValueMap
  datatype : Option DataType

/-- What the reporter has of a point that has a policy: the policy, and how to read the point. -/
structure Reported where
  policy : ReportPolicy
  deviceIndex : Nat
  point : PointRef

/-- What the runtime asks the protocol module while it rebuilds. -/
structure Asked (M : Type) where
  /-- `capabilities().subscribe`. -/
  subscribe : Bool
  pushesPoint : M → String → PointRef → Bool
  /-- The endpoint of a device and the most requests it may have in flight. -/
  endpoint : M → String → Option (String × Option Nat)

/-- How the module answers a `subscribe`. -/
inductive Subscribed where
  | ok
  | unsupported
  | failed

/-- What the main loop holds of a configuration, and the module as it was when this was built. -/
structure Derived (M : Type) where
  module : M
  limits : Nat
  subscribed : List Held
  schedule : List ScheduleEntry
  metaIndex : String × String → Option PointExtras
  reporter : String × String → Option Reported
  /-- The batcher of the publisher, where measurements are put out. -/
  publisher : Option Batcher
  budgets : Budgets

/-- `Limits::from_config`: the bound on one call of the module. -/
def operationLimit (config : ConnectorConfig) : Nat :=
  ((parseDuration config.operationTimeout).filter (0 < ·)).getD (Duration.fromSecs 30)

def isRead (point : PointConfig) : Bool := (Access.parse point.access).canRead

/-- The points of a device that are to be pushed. -/
def pushPoints (ask : Asked M) (m : M) (config : ConnectorConfig) (device : DeviceConfig) :
    List PointRef :=
  ((device.points.filter fun p => p.subscribe.getD true && isRead p).map fun p =>
    { pointRef p device.defaultMode with
      interval := some (config.samplingIntervalOf device p) }).filter (ask.pushesPoint m device.name)

def subscribeDevice (ask : Asked M) (m : M) (config : ConnectorConfig)
    (answer : String → List PointRef → Subscribed) (subscribed : List Held)
    (place : DeviceConfig × Nat) : List Held :=
  let points := pushPoints ask m config place.1
  if points.isEmpty then subscribed
  else
    -- the points go back to being polled unless the call brings them in again
    let kept := subscribed.filter fun h =>
      !(h.deviceIndex == place.2 && points.any fun p => p.id == h.point)
    match answer place.1.name points with
    | .ok => kept ++ points.map fun p => ⟨place.2, place.1.name, p.id⟩
    | _ => kept

def setupSubscriptions (ask : Asked M) (m : M) (config : ConnectorConfig)
    (answer : String → List PointRef → Subscribed) : List Held :=
  if ask.subscribe then config.devices.zipIdx.foldl (subscribeDevice ask m config answer) [] else []

def buildSchedule (config : ConnectorConfig) (subscribed : List Held) : List ScheduleEntry :=
  config.devices.zipIdx.flatMap fun (device, i) =>
    (device.points.filter fun p =>
      !(subscribed.any fun h => h.deviceIndex == i && h.point == p.id) && isRead p).map fun p =>
        let interval := config.pollIntervalOf device p
        { deviceIndex := i, device := device.name, interval
          point := { pointRef p device.defaultMode with interval := some interval } }

/-- The points of a configuration, with the places of their devices, in order. -/
def placedPoints (config : ConnectorConfig) : List (Nat × DeviceConfig × PointConfig) :=
  config.devices.zipIdx.flatMap fun (device, i) => device.points.map fun p => (i, device, p)

/-- A `HashMap` of the points that is filled in order. -/
def insertPoints {α : Type} (entry : Nat × DeviceConfig × PointConfig → Option α)
    (points : List (Nat × DeviceConfig × PointConfig)) : String × String → Option α :=
  points.foldl (fun index p => match entry p with
    | some x => Function.update index (p.2.1.name, p.2.2.id) (some x)
    | none => index) fun _ => none

def buildMetaIndex (config : ConnectorConfig) : String × String → Option PointExtras :=
  insertPoints (fun (_, device, point) => some {
    metadata := point.metadata
    access := .parse point.access
    deviceType := device.deviceType.filter fun t => !t.isEmpty
    map := point.map.bind fun m => match ValueMap.parse m with | .ok map => map | .error _ => none
    datatype := point.datatype }) (placedPoints config)

/-- `Reporter::new`. -/
def buildReporter (config : ConnectorConfig) : String × String → Option Reported :=
  insertPoints (fun (i, device, point) =>
    let (policy, _) := effective (reportTable config device point)
    if policy.isPassthrough then none
    else some { policy, deviceIndex := i, point := pointRef point device.defaultMode })
    (placedPoints config)

/-- `Publisher::new`. -/
def buildPublisher (config : ConnectorConfig) (now : Nat) (previous : Option Batcher) :
    Option Batcher :=
  match Output.of config with
  | .samples => none
  | .measurements => some (Batcher.new config now previous)

def buildBudgets (config : ConnectorConfig)
    (endpoint : String → Option (String × Option Nat)) : Budgets :=
  Budgets.new {
    maxInflight := config.maxInflight
    maxInflightTotal := config.maxInflightTotal
    devices := config.devices.map fun device => ⟨device.name, device.maxInflight⟩ } endpoint

/-- What the module answers and the time it is while the loop rebuilds. -/
structure Rebuilding where
  answer : String → List PointRef → Subscribed
  now : Nat

/-- What is rebuilt when a new configuration was applied. -/
def derive (ask : Asked M) (m : M) (config : ConnectorConfig) (r : Rebuilding)
    (previous : Option Batcher) : Derived M :=
  let subscribed := setupSubscriptions ask m config r.answer
  { module := m
    limits := operationLimit config
    subscribed
    schedule := buildSchedule config subscribed
    metaIndex := buildMetaIndex config
    reporter := buildReporter config
    publisher := buildPublisher config r.now previous
    budgets := buildBudgets config (ask.endpoint m) }

/-- The main loop: the running configuration, and what was built from one. -/
structure Loop (M : Type) where
  state : State M
  derived : Derived M

/-- What one iteration of the main loop does. -/
inductive Iteration where
  | command (around : Surroundings) (verb : String) (json : Json) (r : Rebuilding)
  | reload (around : Surroundings) (r : Rebuilding)
  /-- A device that reconnected is subscribed again. -/
  | resubscribed (device : String) (answer : String → List PointRef → Subscribed)
  /-- Anything else a tick does: it reads what it holds. -/
  | tick

/-- `subscribe_device` for a device that reconnected, and the schedule built again. -/
def resubscribe (ask : Asked M) (m : M) (config : ConnectorConfig) (derived : Derived M)
    (device : String) (answer : String → List PointRef → Subscribed) : Derived M :=
  match ask.subscribe, config.devices.zipIdx.find? fun place => place.1.name == device with
  | true, some place =>
    let subscribed := subscribeDevice ask m config answer derived.subscribed place
    { derived with subscribed, schedule := buildSchedule config subscribed }
  | _, _ => derived

def iterate (h : Host M) (ask : Asked M) (l : Loop M) : Iteration → Loop M × Outcome
  | .command around verb json r =>
    let handled := handleManagement h around l.state verb json
    let rearm := match handled.result with | .ok changed => changed | .error _ => false
    let s := handled.state
    ({ state := s,
       derived := if rearm then derive ask s.connector s.config r l.derived.publisher
         else l.derived },
      .handled handled.statuses handled.result)
  | .reload around r =>
    let reload := reloadFromFile h around l.state
    let s := reload.1
    ({ state := s,
       derived := if reload.2 == .applied then derive ask s.connector s.config r l.derived.publisher
         else l.derived },
      .reloaded reload.2)
  | .resubscribed device answer =>
    let s := l.state
    ({ l with derived := resubscribe ask s.connector s.config l.derived device answer }, .written)
  | .tick => (l, .written)

def nameAt (config : ConnectorConfig) (i : Nat) : Option String := (config.devices[i]?).map (·.name)

/-- A point that may be pushed, at the place of its device. -/
def Placed (config : ConnectorConfig) (h : Held) : Prop :=
  ∃ device, config.devices[h.deviceIndex]? = some device ∧ device.name = h.device ∧
    ∃ p ∈ device.points, p.id = h.point ∧ p.subscribe.getD true = true ∧ isRead p = true

/-- What the main loop holds is what it builds from the running configuration: which points are
pushed is up to the module, and all else follows. The places held are places of the running
configuration, of the devices they were built for. -/
structure Fresh (ask : Asked M) (derived : Derived M) (config : ConnectorConfig) : Prop where
  limits : derived.limits = operationLimit config
  subscribed : ∀ h ∈ derived.subscribed, Placed config h
  schedule : derived.schedule = buildSchedule config derived.subscribed
  places : ∀ e ∈ derived.schedule, nameAt config e.deviceIndex = some e.device
  metaIndex : derived.metaIndex = buildMetaIndex config
  reporter : derived.reporter = buildReporter config
  reported : ∀ key e, derived.reporter key = some e → nameAt config e.deviceIndex = some key.1
  publisher : ∃ now previous, derived.publisher = buildPublisher config now previous
  budgets : derived.budgets = buildBudgets config (ask.endpoint derived.module)
  budgeted : derived.budgets.devices.length = config.devices.length

theorem nameAt_of_mem_zipIdx {config : ConnectorConfig} {device : DeviceConfig} {i : Nat}
    (h : (device, i) ∈ config.devices.zipIdx) : nameAt config i = some device.name := by
  have := List.mem_zipIdx_iff_getElem?.mp h
  simp [nameAt, this]

theorem buildSchedule_places (config : ConnectorConfig) (subscribed : List Held) :
    ∀ e ∈ buildSchedule config subscribed, nameAt config e.deviceIndex = some e.device := by
  intro e he
  obtain ⟨⟨device, i⟩, hmem, he⟩ := List.mem_flatMap.mp he
  obtain ⟨p, -, rfl⟩ := List.mem_map.mp he
  exact nameAt_of_mem_zipIdx hmem

/-- A map filled in a loop has the entry of the last point of a name. -/
theorem insertPoints_entry {α : Type} {entry : Nat × DeviceConfig × PointConfig → Option α}
    {points : List (Nat × DeviceConfig × PointConfig)} {key : String × String} {x : α}
    (h : insertPoints entry points key = some x) :
    ∃ p ∈ points, key = (p.2.1.name, p.2.2.id) ∧ entry p = some x := by
  -- the last point of that name, as each is inserted over those before it
  induction points using List.reverseRecOn with
  | nil => cases h
  | append_singleton points p ih =>
    have holder : insertPoints entry points key = some x →
        ∃ q ∈ points ++ [p], key = (q.2.1.name, q.2.2.id) ∧ entry q = some x := fun h =>
      let ⟨q, hq, hx⟩ := ih h
      ⟨q, List.mem_append_left [p] hq, hx⟩
    unfold insertPoints at h
    rw [List.foldl_append, List.foldl_cons, List.foldl_nil] at h
    cases hentry : entry p with
    | none =>
      rw [hentry] at h
      exact holder h
    | some y =>
      rw [hentry] at h
      dsimp only at h
      by_cases hkey : key = (p.2.1.name, p.2.2.id)
      · rw [hkey, Function.update_self] at h
        exact ⟨p, List.mem_append_right points (List.mem_singleton_self p), hkey, hentry.trans h⟩
      · rw [Function.update_of_ne hkey] at h
        exact holder h

theorem buildReporter_places {config : ConnectorConfig} {key : String × String} {e : Reported}
    (h : buildReporter config key = some e) : nameAt config e.deviceIndex = some key.1 := by
  obtain ⟨⟨i, device, point⟩, hmem, rfl, hentry⟩ := insertPoints_entry h
  obtain ⟨⟨device', i'⟩, hplace, hpoint⟩ := List.mem_flatMap.mp hmem
  obtain ⟨_, -, heq⟩ := List.mem_map.mp hpoint
  cases heq
  dsimp only at hentry
  split at hentry
  · cases hentry
  · cases hentry
    exact nameAt_of_mem_zipIdx hplace

theorem subscribeDevice_placed {ask : Asked M} {m : M} {config : ConnectorConfig}
    {answer : String → List PointRef → Subscribed} {subscribed : List Held}
    {place : DeviceConfig × Nat} (hplace : place ∈ config.devices.zipIdx)
    (h : ∀ held ∈ subscribed, Placed config held) :
    ∀ held ∈ subscribeDevice ask m config answer subscribed place, Placed config held := by
  intro held hheld
  simp only [subscribeDevice] at hheld
  split at hheld
  · exact h held hheld
  · split at hheld
    · rcases List.mem_append.mp hheld with hheld | hheld
      · exact h held (List.mem_filter.mp hheld).1
      · obtain ⟨ref, href, rfl⟩ := List.mem_map.mp hheld
        obtain ⟨p, hp, rfl⟩ := List.mem_map.mp (List.mem_filter.mp href).1
        obtain ⟨hp, hpushed⟩ := List.mem_filter.mp hp
        obtain ⟨hsubscribe, hread⟩ := (Bool.and_eq_true _ _).mp hpushed
        exact ⟨place.1, List.mem_zipIdx_iff_getElem?.mp hplace, rfl, p, hp, rfl, hsubscribe, hread⟩
    · exact h held (List.mem_filter.mp hheld).1

theorem setupSubscriptions_placed (ask : Asked M) (m : M) (config : ConnectorConfig)
    (answer : String → List PointRef → Subscribed) :
    ∀ held ∈ setupSubscriptions ask m config answer, Placed config held := by
  unfold setupSubscriptions
  split
  · exact List.foldlRecOn config.devices.zipIdx _ (motive := fun subscribed =>
      ∀ held ∈ subscribed, Placed config held) (by simp)
      fun _ h _ hplace => subscribeDevice_placed hplace h
  · simp

theorem derive_fresh (ask : Asked M) (m : M) (config : ConnectorConfig) (r : Rebuilding)
    (previous : Option Batcher) : Fresh ask (derive ask m config r previous) config where
  limits := rfl
  subscribed := setupSubscriptions_placed ask m config r.answer
  schedule := rfl
  places := buildSchedule_places config _
  metaIndex := rfl
  reporter := rfl
  reported _ _ := buildReporter_places
  publisher := ⟨r.now, previous, rfl⟩
  budgets := rfl
  budgeted := by simp [derive, buildBudgets, Budgets.new]

theorem resubscribe_fresh {ask : Asked M} {m : M} {derived : Derived M} {config : ConnectorConfig}
    (h : Fresh ask derived config) (device : String)
    (answer : String → List PointRef → Subscribed) :
    Fresh ask (resubscribe ask m config derived device answer) config := by
  unfold resubscribe
  split
  · rename_i place hplace
    exact { h with
      subscribed := subscribeDevice_placed (List.mem_of_find?_eq_some hplace) h.subscribed
      schedule := rfl
      places := buildSchedule_places config _ }
  · exact h

/-! ## Runs -/

/-- Every publish that follows the replacement of the configuration goes through. -/
def Published (around : Surroundings) : Prop :=
  around.capability = true ∧ around.links = true ∧ around.successful = true

/-- When a command replaces the configuration, what follows is published. -/
def PublishesAfter (h : Host M) (l : Loop M) : Iteration → Prop
  | .command around verb json _ =>
    around.executing = true →
      (verdict h l.state (candidate h around l.state.doc verb json)).isOk = true → Published around
  | _ => True

theorem handled_not_adopted {h : Host M} {around : Surroundings} {s : State M} {verb : String}
    {json : Json} (hno : ¬ (around.executing = true ∧
      (verdict h s (candidate h around s.doc verb json)).isOk = true)) :
    (handleManagement h around s verb json).state.config = s.config ∧
      (handleManagement h around s verb json).result ≠ .ok true := by
  cases hexecuting : around.executing with
  | false =>
    unfold handleManagement
    rw [hexecuting]
    exact ⟨rfl, by simp⟩
  | true =>
    cases hverdict : verdict h s (candidate h around s.doc verb json) with
    | error reason =>
      obtain ⟨m, -, heq⟩ := handleManagement_refused hexecuting hverdict
      rw [heq]
      refine ⟨rfl, ?_⟩
      unfold refused
      dsimp only
      split <;> simp
    | ok new => exact absurd ⟨hexecuting, by rw [hverdict]; rfl⟩ hno

theorem handled_published {h : Host M} {around : Surroundings} {s : State M} {verb : String}
    {json : Json} (hexecuting : around.executing = true) {new : Document × ConnectorConfig}
    (hverdict : verdict h s (candidate h around s.doc verb json) = .ok new)
    (hpublished : Published around) :
    (handleManagement h around s verb json).result = .ok true := by
  obtain ⟨hcandidate, hconfigure⟩ := candidate_of_verdict hverdict
  have hpair : configure h s.connector new.2 = ((configure h s.connector new.2).1, .ok ()) :=
    Prod.ext rfl hconfigure
  obtain ⟨hcapability, hlinks, hsuccessful⟩ := hpublished
  unfold handleManagement
  rw [hexecuting, hcandidate]
  simp only [Bool.not_true, Bool.false_eq_true, if_false]
  rw [hpair]
  simp [hcapability, hlinks, hsuccessful]

/-- A reload builds everything anew, or changes nothing. -/
theorem reload_fresh {h : Host M} {ask : Asked M} {l : Loop M}
    (hl : Fresh ask l.derived l.state.config) (around : Surroundings) (r : Rebuilding) :
    Fresh ask (iterate h ask l (.reload around r)).1.derived
      (iterate h ask l (.reload around r)).1.state.config := by
  show Fresh ask (if (reloadFromFile h around l.state).2 == .applied then
    derive ask _ (reloadFromFile h around l.state).1.config r _ else l.derived)
      (reloadFromFile h around l.state).1.config
  split
  · exact derive_fresh ask _ _ r _
  · rename_i happlied
    have hsame : (reloadFromFile h around l.state).1.config = l.state.config := by
      rw [reloadFromFile_eq] at happlied ⊢
      cases hloaded : loaded around l.state with
      | error e => rfl
      | ok new =>
        rw [hloaded] at happlied
        dsimp only at happlied ⊢
        split
        · rfl
        · rename_i hrestart
          split
          · rfl
          · rename_i hsame
            split
            · rfl
            · -- an applied reload is rebuilt from
              rename_i m hconfigure
              rw [if_neg hrestart, if_neg hsame, hconfigure] at happlied
              exact absurd rfl happlied
    rw [hsame]
    exact hl

/-- So what the loop holds is fresh after every iteration. -/
theorem iterate_fresh {h : Host M} {ask : Asked M} {l : Loop M} {i : Iteration}
    (hpublishes : PublishesAfter h l i) (hl : Fresh ask l.derived l.state.config) :
    Fresh ask (iterate h ask l i).1.derived (iterate h ask l i).1.state.config := by
  cases i with
  | command around verb json r =>
    show Fresh ask (if (match (handleManagement h around l.state verb json).result with
      | .ok changed => changed | .error _ => false) then _ else _) _
    by_cases hadopted : around.executing = true ∧
        (verdict h l.state (candidate h around l.state.doc verb json)).isOk = true
    · obtain ⟨hexecuting, hok⟩ := hadopted
      obtain ⟨new, hverdict⟩ := isOk_iff.mp hok
      rw [handled_published hexecuting hverdict (hpublishes hexecuting hok)]
      exact derive_fresh ask _ _ r _
    · obtain ⟨hconfig, hresult⟩ := handled_not_adopted hadopted
      have hrearm : (match (handleManagement h around l.state verb json).result with
          | .ok changed => changed | .error _ => false) = false := by
        cases hres : (handleManagement h around l.state verb json).result with
        | error e => rfl
        | ok changed =>
          cases changed with
          | false => rfl
          | true => exact absurd hres hresult
      rw [hrearm]
      show Fresh ask l.derived (handleManagement h around l.state verb json).state.config
      rw [hconfig]
      exact hl
  | reload around r => exact reload_fresh hl around r
  | resubscribed device answer => exact resubscribe_fresh hl device answer
  | tick => exact hl

def anyModule : Host Unit where
  configure _ _ := ((), .ok ())
  protocol := "modbus"
  callsMethods := false
  localOnlySettings := []
  needsRestart _ _ := false
  same _ _ := false

def pump : DeviceConfig := { name := "pump", points := [{ id := "speed" }] }

def fan : DeviceConfig where
  name := "fan#2"
  points := [{ id := "speed" }, { id := "alarm", pollInterval := some "5s" }]

/-- A `[[device]]` entry. -/
def entryOf (device : DeviceConfig) : EditTable := [("name", .value (.string device.name))]

def onePoller : Asked Unit where
  subscribe := true
  pushesPoint _ _ point := point.id != "speed"
  endpoint _ _ := some ("line", some 1)

def accepted : Rebuilding := { answer := fun _ _ => .ok, now := 0 }

def pumpAndFan : ConnectorConfig := { protocol := "modbus", devices := [pump, fan] }

def twoDevices : Loop Unit where
  state :=
    { config := pumpAndFan
      doc := [("device", .arrayOfTables [entryOf pump, entryOf fan])]
      file := .ok [("device", .arrayOfTables [entryOf pump, entryOf fan])]
      connector := () }
  derived := derive onePoller () pumpAndFan accepted none

/-- The first device is removed, and the other's link status is published or not. -/
def removePump (links : Bool) : Iteration :=
  .command { resolve := fun _ => .ok { pumpAndFan with devices := [fan] }, links }
    "remove-device" (.object [("device", .string "pump")]) accepted

end TedgeDot.Management
