import TedgeDot.Runtime.InFlight

/-!
# The main loop of the Rust runtime

`runtime.rs`: the loop of `run_until` reads the devices on a tick, sends heartbeat reads, reconnects
devices, and handles commands, reloads and the end. A device whose module hands out a reader is read
from a task of its own under the budgets of `concurrency.rs`; any other read is a call that the loop
makes itself.

- `Main.taskAct` is one step of one task, `Main.turn` one step of the loop. What the runtime does not
  decide is left open: which devices are due, whether there is a reader, what a call returns, and in
  which order all of this happens.
- `OneRead`, `Untouched`, `Funded` and `HandedBack` are what the contract asks of the reads.

The arms of the `select!` that only publish (pushed samples, deadlines, a new broker session) touch
no device and no read. They are left out, as are the link status and the report policy.
-/

namespace TedgeDot.MainLoop

open Concurrency (Settings DeviceSettings Budgets Phase Read)

/-! ## The state -/

/-- What a configuration says of the devices, and the module of their endpoints. -/
structure Config where
  settings : Settings
  endpointOf : String → Option (String × Option Nat)

/-- The names of `config.devices`. -/
def Config.names (config : Config) : List String := config.settings.devices.map DeviceSettings.name

def Config.budgets (config : Config) : Budgets := Budgets.new config.settings config.endpointOf

/-- A read of a device, by the number of its start and the device's name then. -/
structure Fetch where
  id : Nat
  device : Nat
  name : Option String
deriving DecidableEq

/-- A task that `tokio::spawn` started. -/
structure Task where
  fetch : Fetch
  /-- Its read under the budgets. There is none where `acquire` found no budget for the device and
  panicked. -/
  read : Option Nat
deriving DecidableEq

/-- What the loop waits with until the reads are drained. -/
inductive Work where
  /-- A device command, by the device's name. -/
  | command (device : String)
  /-- A service command: a management verb, or one that is refused. -/
  | service
  | reload
deriving DecidableEq

/-- What follows `drain_reads!`. -/
inductive Next where
  | handle (work : Work)
  | disconnect
deriving DecidableEq

inductive Loop where
  | select
  /-- In the tick, with the devices still to be polled. -/
  | polls (due : List Nat)
  /-- In `connector.read_points`, for a poll. -/
  | polling (fetch : Fetch) (due : List Nat)
  /-- In the tick, with the heartbeat reads still to be made. -/
  | beats (quiet : List Nat)
  /-- In `connector.read_points`, for a heartbeat. -/
  | beating (fetch : Fetch) (quiet : List Nat)
  /-- In the tick, with the devices still to be reconnected. -/
  | recover (due : List String)
  /-- In `connector.reconnect`. -/
  | reconnecting (device : String) (due : List String)
  /-- In `connector.connect`, which stands in for `reconnect`. -/
  | connecting (device : String) (due : List String)
  /-- In `subscribe_device`. -/
  | subscribing (device : String) (due : List String)
  | draining (next : Next)
  /-- In `handle_command` or `reload_from_file`. -/
  | handling (work : Work)
  /-- In `setup_subscriptions`, for a new configuration. -/
  | rearming
  | disconnecting
  | stopped
deriving DecidableEq

/-- The read that the loop makes itself. -/
def Loop.fetch : Loop → Option Fetch
  | .polling fetch _ => some fetch
  | .beating fetch _ => some fetch
  | _ => none

/-- The variables of `run_until`, with the reads that were started and handed back so far. -/
structure Main where
  config : Config
  /-- The configuration that `budgets` was made of. -/
  built : Config
  pool : Concurrency.Pool
  tasks : List Task
  /-- What is in the channel of `read_tx`. -/
  sent : List Fetch
  /-- The devices with a read in a task. -/
  reading : List Nat
  loop : Loop
  started : List Fetch
  /-- Passed to `on_poll_result`, or to the code after a heartbeat read. -/
  handed : List Fetch

def Main.start (config : Config) : Main :=
  { config, built := config, pool := Concurrency.Pool.start config.budgets
    tasks := [], sent := [], reading := [], loop := .select, started := [], handed := [] }

/-- The capacity of the channel of `read_tx`. -/
def CHANNEL : Nat := 64

/-! ## The tasks -/

inductive TaskAct where
  /-- `acquire` or giving back goes on, or the module reports on a request, or the read returns. -/
  | pool (act : Concurrency.Act)
  /-- The task `k` sends its result. -/
  | send (k : Nat)

/-- The read of a task has given its requests back. -/
def Task.Ended (pool : Concurrency.Pool) (t : Task) : Prop :=
  ∃ i ∈ t.read, (pool.reads[i]?).map Read.phase = some .dropped

instance (pool : Concurrency.Pool) (t : Task) : Decidable (t.Ended pool) :=
  inferInstanceAs (Decidable (∃ i ∈ t.read, _))

/-- One step of a task. A read starts in the loop (`Main.spawn`). -/
def Main.taskAct (s : Main) : TaskAct → Option Main
  | .pool (.start _ _) => none
  | .pool act => (s.pool.act act).map fun pool => { s with pool }
  | .send k =>
    s.tasks[k]?.bind fun t =>
      if t.Ended s.pool ∧ s.sent.length < CHANNEL then
        some { s with tasks := s.tasks.eraseIdx k, sent := s.sent ++ [t.fetch] }
      else none

/-! ## The loop -/

/-- How a device that is due is polled. -/
inductive Poll where
  /-- There is a reader, which can use so many requests. -/
  | reader (wanted : Nat)
  /-- There is a reader, and the device is due to be reconnected. -/
  | left
  /-- There is no reader. -/
  | direct

/-- What came of a command or a reload. -/
inductive Outcome where
  | kept
  | applied (config : Config)
  /-- The configuration was replaced, and an answer could not be published (`?`). -/
  | unpublished (config : Config)
  | restart

inductive LoopAct where
  | receive
  /-- The tick, with the devices that the schedule has due points of. -/
  | tick (due : List Nat)
  | poll (how : Poll)
  /-- The read of the loop itself returns. -/
  | answered
  /-- The devices that `reporter.due` wants a heartbeat read of. -/
  | quiet (devices : List Nat)
  | beat
  /-- The devices of `reconnects` and `push_recovery` whose time has come. -/
  | recover (pending : List String)
  | reconnect
  /-- Whether the module can reconnect one device, and whether it is subscribed to again. -/
  | reconnected (supported again : Bool)
  | connected (again : Bool)
  | subscribed
  | ticked
  | request (work : Work)
  | shutdown
  | drained
  | handled (outcome : Outcome)
  | rearmed
  | disconnected

namespace Main

def next (s : Main) (d : Nat) (name : String) : Fetch :=
  { id := s.started.length, device := d, name := some name }

/-- The task of a reader: `acquire` starts. -/
def spawn (s : Main) (d : Nat) (name : String) (wanted : Nat) : Main :=
  let fetch := s.next d name
  match s.pool.act (.start d wanted) with
  | some pool => { s with
      pool, tasks := s.tasks ++ [{ fetch, read := some s.pool.reads.length }]
      reading := d :: s.reading, started := s.started ++ [fetch] }
  | none => { s with
      tasks := s.tasks ++ [{ fetch, read := none }]
      reading := d :: s.reading, started := s.started ++ [fetch] }

/-- A poll of the device `d`, which is not being read. -/
def poll (s : Main) (d : Nat) (name : String) (rest : List Nat) : Poll → Main
  | .reader wanted => { s.spawn d name wanted with loop := .polls rest }
  | .left => { s with loop := .polls rest }
  | .direct => { s with
      loop := .polling (s.next d name) rest, started := s.started ++ [s.next d name] }

/-- `!reading.iter().any(|&i| config.devices[i].name == device)`. -/
def Free (s : Main) (device : String) : Prop := ∀ i ∈ s.reading, s.config.names[i]? ≠ some device

instance (s : Main) (device : String) : Decidable (s.Free device) :=
  inferInstanceAs (Decidable (∀ i ∈ s.reading, _))

/-- `on_poll_result` for what the channel had. -/
def receive (s : Main) (fetch : Fetch) (rest : List Fetch) : Main :=
  { s with
    sent := rest, reading := s.reading.erase fetch.device
    handed := s.handed ++ [{ fetch with name := s.config.names[fetch.device]? }] }

/-- Where the loop goes after a reconnect of a device. -/
def afterReconnect (device : String) (rest : List String) (again : Bool) : Loop :=
  if again then .subscribing device rest else .recover rest

/-- The end of `handle_command` or `reload_from_file`. A device command leaves the configuration, and
only a reload restarts. -/
def handle (s : Main) : Work → Outcome → Option Main
  | _, .kept => some { s with loop := .select }
  | .service, .applied config => some { s with config, loop := .rearming }
  | .reload, .applied config => some { s with config, loop := .rearming }
  | .service, .unpublished config => some { s with config, loop := .select }
  | .reload, .restart => some { s with loop := .draining .disconnect }
  | _, _ => none

/-- One step of the loop; `none` where it cannot be taken. -/
def turn (s : Main) (a : LoopAct) : Option Main :=
  match s.loop, a with
  | .select, .receive => match s.sent with
    | fetch :: rest => some (s.receive fetch rest)
    | [] => none
  | .draining _, .receive => match s.sent with
    | fetch :: rest => some (s.receive fetch rest)
    | [] => none
  | .select, .tick due => some { s with loop := .polls (due.dedup.filter (· ∉ s.reading)) }
  | .polls (d :: rest), .poll how =>
    if d ∈ s.reading then some { s with loop := .polls rest }
    else s.config.names[d]?.map fun name => s.poll d name rest how
  | .polling fetch rest, .answered =>
    some { s with loop := .polls rest, handed := s.handed ++ [fetch] }
  | .polls [], .quiet devices => some { s with loop := .beats devices }
  | .beats (d :: rest), .beat =>
    s.config.names[d]?.map fun name => { s with
      loop := .beating (s.next d name) rest, started := s.started ++ [s.next d name] }
  | .beating fetch rest, .answered =>
    some { s with loop := .beats rest, handed := s.handed ++ [fetch] }
  | .beats [], .recover pending => some { s with loop := .recover (pending.filter (s.Free ·)) }
  | .recover (device :: rest), .reconnect => some { s with loop := .reconnecting device rest }
  | .reconnecting device rest, .reconnected supported again =>
    some { s with
      loop := if supported then afterReconnect device rest again else .connecting device rest }
  | .connecting device rest, .connected again =>
    some { s with loop := afterReconnect device rest again }
  | .subscribing _ rest, .subscribed => some { s with loop := .recover rest }
  | .recover [], .ticked => some { s with loop := .select }
  | .select, .request work => some { s with loop := .draining (.handle work) }
  | .select, .shutdown => some { s with loop := .draining .disconnect }
  | .draining next, .drained =>
    if s.reading = [] then
      some { s with loop := match next with
        | .handle work => .handling work
        | .disconnect => .disconnecting }
    else none
  | .handling work, .handled outcome => s.handle work outcome
  | .rearming, .rearmed => some { s with
      built := s.config, pool := Concurrency.Pool.start s.config.budgets, loop := .select }
  | .disconnecting, .disconnected => some { s with loop := .stopped }
  | _, _ => none

end Main

/-- A step of a task or of the loop. -/
inductive Act where
  | task (a : TaskAct)
  | loop (a : LoopAct)

def Main.act (s : Main) : Act → Option Main
  | .task a => s.taskAct a
  | .loop a => s.turn a

/-- A step that cannot be taken changes nothing. -/
def step (s : Main) (a : Act) : Main × Unit := ((s.act a).getD s, ())

/-! ## What is promised -/

/-- A call of `read_points`, with the read under the budgets that it is made for. -/
structure Call where
  device : Nat
  read : Option Nat
deriving DecidableEq

/-- From where a read has its `InFlight` to where it drops it. -/
def inCall : Phase → Bool
  | .holding _ => true
  | .waking _ (.holding _) => true
  | _ => false

def Task.call (pool : Concurrency.Pool) (t : Task) : Option Call :=
  t.read.bind fun i => pool.reads[i]?.bind fun r =>
    if inCall r.phase then some { device := t.fetch.device, read := some i } else none

/-- The calls of `read_points` in flight. -/
def Main.calls (s : Main) : List Call :=
  s.tasks.filterMap (Task.call s.pool) ++
    (s.loop.fetch.map fun fetch => { device := fetch.device, read := none }).toList

/-- A device command writes to its device; a service command or a reload configures the module and
connects every device. -/
def Work.Touches (config : Config) (d : Nat) : Work → Prop
  | .command device => config.names[d]? = some device
  | .service => True
  | .reload => True

/-- The loop writes to the device `d`, reconnects it or reconfigures it. -/
def Loop.Touches (config : Config) (d : Nat) : Loop → Prop
  | .reconnecting device _ => config.names[d]? = some device
  | .connecting _ _ => True
  | .subscribing device _ => config.names[d]? = some device
  | .handling work => work.Touches config d
  | .rearming => True
  | .disconnecting => True
  | _ => False

/-- The reads that were started and are not handed back. -/
def Main.outside (s : Main) : List Fetch := s.tasks.map Task.fetch ++ s.sent

def Main.outstanding (s : Main) : List Fetch := s.outside ++ s.loop.fetch.toList

/-- Past a `drain_reads!`. -/
def Loop.Drained : Loop → Prop
  | .handling _ => True
  | .rearming => True
  | .disconnecting => True
  | .stopped => True
  | _ => False

def OneRead (s : Main) : Prop := (s.calls.map Call.device).Nodup

/-- No device is touched while a call for it is in flight. -/
def Untouched (s : Main) : Prop := ∀ c ∈ s.calls, ¬ s.loop.Touches s.config c.device

/-- Every call holds a request of its device's endpoint, its own, and the budgets count them. -/
structure Funded (s : Main) : Prop where
  held : ∀ c ∈ s.calls, ∃ i r e, c.read = some i ∧ s.pool.reads[i]? = some r ∧
    s.config.budgets.devices[c.device]? = some e ∧ 1 ≤ r.held (.endpoint e)
  own : (s.calls.map Call.read).Nodup
  counted : ∀ c, (s.pool.budget c).inUse = s.pool.held c

/-- Every read is in one place, once, under the device and the name that it was started for. Past a
drain each has been handed back. -/
structure HandedBack (s : Main) : Prop where
  once : (s.handed ++ s.outstanding).Perm s.started
  distinct : (s.started.map Fetch.id).Nodup
  drained : s.loop.Drained → s.handed.Perm s.started

end TedgeDot.MainLoop
