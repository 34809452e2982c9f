import Mathlib.Data.List.AList
import TedgeDot.Lib.Machine
import TedgeDot.Lib.Retained
import TedgeDot.Measure.Batcher

/-!
# Sessions with the broker

What the two runtimes keep at the broker: the command subscriptions, and the retained service health,
capability descriptor, link statuses and units. A session is lost and another follows at any moment;
the broker forgets the subscriptions then, and may forget what it retained.

- **The broker**: keys, values and packets on their way (`Retained`).
- **The runtime**: `restore_mqtt_session` of `runtime.rs`, `on_connect` of `runtime.c`, and the other
  places that publish a retained message. A handler of the main loop hands over its packets one by
  one (`out`), and the next event waits for it.
- **Steps**: `State.act`. Whether a packet is taken by the client's queue or dropped, and when the
  broker gets it, is left open; so is what becomes of the queue when the session is lost.

Samples, command results and the report policy are left out: no retained state depends on them.
-/

namespace TedgeDot.BrokerSession

open TedgeDot.Measure (PublishedUnits settleUnits)

/-! ## Configurations -/

inductive Runtime where
  | rust
  | c
deriving DecidableEq

inductive LinkStatus where
  | connected
  | degraded
  | disconnected
deriving DecidableEq

/-- What a link status tells of a device's configuration. -/
structure DeviceConfig where
  name : String
  type : Option String
  points : List String
deriving DecidableEq

structure Config where
  devices : List DeviceConfig
  /-- The descriptor that `capability_payload` makes of the configuration. -/
  capabilities : String
  /-- `output = "measurements"`. -/
  measurements : Bool
  /-- The topics that `Batcher::new` builds. -/
  topics : List Measure.Topic
  /-- The loader refuses two devices of one name. -/
  names : (devices.map DeviceConfig.name).Nodup
  /-- A topic is named after its device and its group. -/
  distinct : (topics.map Measure.Topic.topic).Nodup

def Config.device? (config : Config) (name : String) : Option DeviceConfig :=
  config.devices.find? fun d => d.name == name

/-! ## The broker -/

/-- The two command topics. -/
inductive Filter where
  | device
  | service
deriving DecidableEq

/-- What the broker keeps: a subscription of the session, or a topic's retained message. -/
inductive Key where
  | subscription (filter : Filter)
  | health
  | capabilities
  | link (device : String)
  /-- By the topic on which the units are published. -/
  | units (topic : String)
deriving DecidableEq

structure Link where
  status : LinkStatus
  type : Option String
  points : Option (List String)
  since : Option Nat
  reason : Option String
  info : Option String
deriving DecidableEq

inductive Value where
  | subscribed
  | health (status : String)
  | capabilities (text : String)
  | link (payload : Link)
  | units (text : String)
deriving DecidableEq

inductive Packet where
  /-- A subscription, or a retained message; without a value an empty one. -/
  | set (key : Key) (value : Option Value)
  /-- A measurement, with the units of its topic. -/
  | measurement (topic units : String)
deriving DecidableEq

def Packet.sets : Packet → Option (Key × Option Value)
  | .set key value => some (key, value)
  | .measurement _ _ => none

/-- The units message: an empty one clears the topic. -/
def asUnits (units : String) : Option Value := if units.isEmpty then none else some (.units units)

/-! ## The runtime -/

/-- A link report, or what is recorded of the last one. -/
structure Report where
  device : String
  status : LinkStatus
  reason : Option String
  info : Option String
deriving DecidableEq

/-- `LinkTracker`, or the link fields of the devices. -/
abbrev Links := AList fun _ : String => Report

/-- `link_payload`, and `publish_link_status` of the C SDK. -/
def linkPayload (rt : Runtime) (config : Config) (now : Nat) (r : Report) : Link :=
  let device := config.device? r.device
  { status := r.status
    type := device.bind DeviceConfig.type
    points := device.map DeviceConfig.points
    since := match rt with
      | .rust => if r.status = .connected then some now else none
      | .c => some now
    reason := match rt with
      | .rust => r.reason
      | .c => if r.status ≠ .connected then r.reason.filter (· ≠ "") else none
    info := r.info }

def linkPacket (rt : Runtime) (config : Config) (now : Nat) (r : Report) : Packet :=
  .set (.link r.device) (some (.link (linkPayload rt config now r)))

/-- What is recorded of a report. The Rust runtime keeps no reason, and the last descriptor. -/
def record (rt : Runtime) (links : Links) (r : Report) : Links :=
  match rt with
  | .rust => links.insert r.device
      { r with reason := none, info := r.info.or ((links.lookup r.device).bind Report.info) }
  | .c => links.insert r.device r

/-- The reports that a restore publishes: `LinkTracker::republish`, and the loop of `on_connect`. -/
def known (rt : Runtime) (config : Config) (links : Links) : List Report :=
  match rt with
  | .rust =>
    ((links.keys.filter fun name => (config.device? name).isSome).insertionSort
      fun a b => a ≤ b).filterMap links.lookup
  | .c => config.devices.filterMap fun d => links.lookup d.name

def subscriptions : List Packet :=
  [.set (.subscription .device) (some .subscribed), .set (.subscription .service) (some .subscribed)]

def healthPacket (status : String) : Packet := .set .health (some (.health status))

def capabilitiesPacket (config : Config) : Packet :=
  .set .capabilities (some (.capabilities config.capabilities))

/-- `restore_mqtt_session`, and `on_connect`. -/
def restore (rt : Runtime) (config : Config) (links : Links) (now : Nat) : List Packet :=
  subscriptions ++ [healthPacket "up", capabilitiesPacket config] ++
    (known rt config links).map (linkPacket rt config now)

/-- What the start publishes once the first session is there. -/
def startup (rt : Runtime) (config : Config) : List Packet :=
  match rt with
  | .rust => capabilitiesPacket config :: healthPacket "up" :: subscriptions
  | .c => subscriptions ++ [healthPacket "up", capabilitiesPacket config]

def unitsPacket : Measure.Emission → Option Packet
  | .units topic => some (.set (.units topic.metaTopic) (asUnits topic.units))
  | .series _ _ _ _ _ => none

def Config.built (config : Config) : List Measure.Topic :=
  if config.measurements then config.topics.map fun t => { t with unitsSettled := false } else []

structure State where
  config : Config
  links : Links
  /-- The topics of the batcher. -/
  topics : List Measure.Topic
  published : PublishedUnits
  /-- A session was accepted and nothing was restored since: the permit of `reconnected`, or
  `mqtt_resume`. -/
  resume : Bool
  /-- What the current handler has still to hand over. -/
  out : List Packet
  /-- What the client has taken and the broker has not. -/
  queue : List Packet
  connected : Bool
  /-- What the broker keeps. -/
  memory : Key → Option Value
  /-- The last restore began in this session, and nothing that it restores was dropped since. -/
  intact : Bool

def State.start (rt : Runtime) (config : Config) (memory : Key → Option Value) : State :=
  { config, links := ∅, topics := config.built, published := fun _ => none, resume := false
    out := startup rt config, queue := [], connected := true, memory, intact := false }

/-! ## Steps -/

inductive Act where
  /-- The next packet of the handler is taken by the client, or dropped: offline for want of room,
  online after `PUBLISH_TIMEOUT`. -/
  | publish (taken : Bool)
  /-- The broker gets the next packet of the queue. -/
  | deliver
  /-- The session is lost. The broker got the first `k` packets, and acknowledged the first `j`; the
  client keeps some of the others. -/
  | lose (k j : Nat) (kept : Packet → Bool)
  /-- The next session is accepted. The broker has published the last will, or not, and it has
  forgotten some of what it retained. -/
  | connack (will : Bool) (forgotten : Key → Bool)
  | restore (now : Nat)
  | link (report : Report) (now : Nat)
  /-- A reload or a management command, and what `connect` reports; none where it failed. -/
  | reload (config : Config) (reports : Option (List Report)) (now : Nat)
  /-- A candidate that the module refused: the C runtime connects every device again. -/
  | refused (reports : List Report) (now : Nat)
  /-- `Batcher::new`, after a reload. -/
  | rebuild
  /-- A measurement on a topic. -/
  | measure (i : Nat)

/-- Nothing that is restored depends on the packet. -/
def Packet.unrestored : Packet → Bool
  | .set (.units _) _ => true
  | .set _ _ => false
  | .measurement _ _ => true

/-- A packet that the client sends again where it is not acknowledged: one of quality 1. The C
runtime publishes only units so. -/
def Packet.resent : Runtime → Packet → Bool
  | .rust, .set _ _ => true
  | .c, .set (.units _) _ => true
  | _, _ => false

/-- Each configured device is reported. -/
def Covers (config : Config) (reports : List Report) : Prop :=
  ∀ d ∈ config.devices, d.name ∈ reports.map Report.device

instance (config : Config) (reports : List Report) : Decidable (Covers config reports) :=
  inferInstanceAs (Decidable (∀ d ∈ config.devices, _))

/-- What the broker keeps for the next session. -/
def nextSession (memory : Key → Option Value) (will : Bool) (forgotten : Key → Bool) :
    Key → Option Value
  | .subscription _ => none
  | .health =>
    if will then some (.health "down") else if forgotten .health then none else memory .health
  | key => if forgotten key then none else memory key

namespace State

def publish (s : State) (taken : Bool) : Option State :=
  match s.out with
  | [] => none
  | p :: rest =>
    if taken then some { s with out := rest, queue := s.queue ++ [p] }
    else some { s with out := rest, intact := s.intact && p.unrestored }

def deliver (s : State) : Option State :=
  match s.queue with
  | [] => none
  | p :: rest =>
    if s.connected then
      some { s with queue := rest, memory := Retained.apply Packet.sets s.memory p }
    else none

def lose (rt : Runtime) (s : State) (k j : Nat) (kept : Packet → Bool) : Option State :=
  if s.connected then
    some { s with
      connected := false, intact := false
      queue := ((s.queue.take k).drop j).filter (Packet.resent rt) ++ (s.queue.drop k).filter kept
      memory := Retained.settle Packet.sets s.memory (s.queue.take k) }
  else none

def connack (s : State) (will : Bool) (forgotten : Key → Bool) : Option State :=
  if s.connected then none
  else some { s with
    connected := true, resume := true, intact := false
    memory := nextSession s.memory will forgotten }

def reported (rt : Runtime) (links : Links) (reports : List Report) : Links :=
  reports.foldl (record rt) links

/-- `commit_config`, past the module's `configure`. -/
def reload (rt : Runtime) (s : State) (config : Config) (reports : Option (List Report))
    (now : Nat) : Option State :=
  match rt, reports with
  | .rust, some reports =>
    if Covers config reports then
      some { s with
        config, links := reported .rust s.links reports
        out := capabilitiesPacket config :: reports.map (linkPacket .rust config now) }
    else none
  | .rust, none => some { s with
      config
      out := capabilitiesPacket config ::
        (known .rust config s.links).map (linkPacket .rust config now) }
  | .c, some reports =>
    if Covers config reports then
      some { s with
        config, links := reported .c ∅ reports
        out := capabilitiesPacket config :: reports.map (linkPacket .c config now) }
    else none
  | .c, none => none

/-- The measurement `Desk.publish` puts out, after its topic's units. -/
def measure (s : State) (i : Nat) : Option State :=
  s.topics[i]?.map fun topic =>
    let (topic, published, units) := settleUnits topic s.published
    { s with
      topics := s.topics.set i topic, published
      out := units.filterMap unitsPacket ++ [.measurement topic.metaTopic topic.units] }

/-- One step; `none` where it cannot be taken. An event of the main loop waits until the handler
before it is done. -/
def act (rt : Runtime) (s : State) : Act → Option State
  | .publish taken => s.publish taken
  | .deliver => s.deliver
  | .lose k j kept => s.lose rt k j kept
  | .connack will forgotten => s.connack will forgotten
  | .restore now =>
    if s.out = [] ∧ s.resume then
      some { s with
        resume := false, intact := s.connected, out := BrokerSession.restore rt s.config s.links now }
    else none
  | .link report now =>
    if s.out = [] then
      some { s with
        links := record rt s.links report, out := [linkPacket rt s.config now report] }
    else none
  | .reload config reports now => if s.out = [] then s.reload rt config reports now else none
  | .refused reports now =>
    if s.out = [] ∧ rt = .c ∧ Covers s.config reports then
      some { s with
        links := reported .c ∅ reports, out := reports.map (linkPacket .c s.config now) }
    else none
  | .rebuild =>
    if s.out = [] then
      some { s with
        topics := s.config.built
        published := if s.config.measurements then s.published else fun _ => none }
    else none
  | .measure i => if s.out = [] then s.measure i else none

/-- A step that cannot be taken changes nothing. -/
def step (rt : Runtime) (s : State) (a : Act) : State × Unit := ((s.act rt a).getD s, ())

end State

end TedgeDot.BrokerSession
