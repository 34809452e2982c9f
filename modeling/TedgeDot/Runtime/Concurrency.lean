import Mathlib.Algebra.BigOperators.Group.List.Basic
import Mathlib.Logic.Function.Basic

/-!
# Concurrent reads

`concurrency.rs`: how many requests may be in flight to one endpoint, and in all. A read takes one
request of its endpoint's budget and one of the total, waiting for each, then as many more as are
free; it gives them back when it is dropped.

The reads run concurrently, so the model is a step relation. One step of a read is what it does
between two points at which another read can run: one lock of a budget, one wake-up of the reads
that wait. `Pool.act` is one step of one read. A waiting read that `tokio::sync::Notify` has not
woken cannot take a step; `notify_waiters` wakes those that called `notified` before. In the C SDK
the same rules run under a condition variable, where a failed try and going to sleep are one step.
-/

namespace TedgeDot.Concurrency

/-- Requests in flight to one endpoint unless configured otherwise. -/
def DEFAULT_MAX_INFLIGHT : Nat := 4

/-- Requests in flight across all endpoints unless configured otherwise. -/
def DEFAULT_MAX_INFLIGHT_TOTAL : Nat := 32

/-- Successful requests at a reduced budget before it grows by one. -/
def REGROW_AFTER : Nat := 20

/-! ## Budgets -/

/-- One endpoint's budget, or the total one, with its `State`. -/
structure Budget where
  name : String
  configured : Nat
  /-- Whether refusals lower it (an endpoint) or not (the total). -/
  backsOff : Bool
  /-- The effective budget: the configured one, or less after a backoff. -/
  limit : Nat
  inUse : Nat
  /-- Successful requests since the budget last changed. -/
  successes : Nat
deriving DecidableEq

namespace Budget

def new (name : String) (configured : Nat) (backsOff : Bool) : Budget :=
  { name := name, configured := configured, backsOff := backsOff, limit := configured, inUse := 0,
    successes := 0 }

/-- `try_take`, when it succeeds. -/
def tryTake (b : Budget) : Option Budget :=
  if b.inUse < b.limit then some { b with inUse := b.inUse + 1 } else none

/-- `give_back`, up to waking the reads that wait. -/
def giveBack (b : Budget) (n : Nat) : Budget := { b with inUse := b.inUse - n }

def backOff (b : Budget) : Budget :=
  if !b.backsOff then b else { b with limit := max (b.limit / 2) 1, successes := 0 }

/-- `success`, and whether it wakes the reads that wait. -/
def success (b : Budget) : Budget × Bool :=
  if b.configured ≤ b.limit then (b, false)
  else if REGROW_AFTER ≤ b.successes + 1 then
    ({ b with successes := 0, limit := b.limit + 1 }, true)
  else ({ b with successes := b.successes + 1 }, false)

end Budget

/-! ### Configured budgets -/

/-- What a configuration says of its devices' requests. -/
structure DeviceSettings where
  name : String
  maxInflight : Option Int

/-- What a configuration says of its requests in flight. -/
structure Settings where
  maxInflight : Option Int
  maxInflightTotal : Option Int
  devices : List DeviceSettings

/-- `configured`: a value counts when it is positive. -/
def configured (value : Option Int) : Option Nat :=
  value.bind fun n => if 0 < n then some n.toNat else none

/-- An endpoint while the table is built. -/
structure EndpointEntry where
  name : String
  wanted : Nat
  cap : Option Nat

/-- The smaller of two caps, where there are two. -/
def minCap : Option Nat → Option Nat → Option Nat
  | some a, some b => some (min a b)
  | a, b => a.or b

/-- A device's endpoint and the module's cap for it. -/
def endpointOfDevice (endpointOf : String → Option (String × Option Nat)) (device : DeviceSettings) :
    String × Option Nat :=
  (endpointOf device.name).getD (device.name, none)

/-- The body of the loop over the devices in `Budgets::new`. -/
def addDevice (endpointOf : String → Option (String × Option Nat)) (default : Nat)
    (table : List EndpointEntry) (device : DeviceSettings) : List EndpointEntry :=
  let (name, cap) := endpointOfDevice endpointOf device
  let wanted := (configured device.maxInflight).getD default
  if table.any fun e => e.name == name then
    table.map fun e =>
      if e.name == name then { e with wanted := min e.wanted wanted, cap := minCap e.cap cap } else e
  else table ++ [{ name := name, wanted := wanted, cap := cap }]

def EndpointEntry.budget (e : EndpointEntry) : Budget :=
  let limit := match e.cap with
    | some c => min e.wanted (max c 1)
    | none => e.wanted
  Budget.new e.name limit true

/-- The budgets of a configuration: one per endpoint, and the total. -/
structure Budgets where
  total : Budget
  /-- By device index: which endpoint. -/
  devices : List Nat
  endpoints : List Budget

def Budgets.new (config : Settings) (endpointOf : String → Option (String × Option Nat)) : Budgets :=
  let default := (configured config.maxInflight).getD DEFAULT_MAX_INFLIGHT
  let total := (configured config.maxInflightTotal).getD DEFAULT_MAX_INFLIGHT_TOTAL
  let table := config.devices.foldl (addDevice endpointOf default) []
  { total := Budget.new "total" total false
    devices := config.devices.map fun device =>
      table.findIdx fun e => e.name == (endpointOfDevice endpointOf device).1
    endpoints := table.map EndpointEntry.budget }

/-! ## Reads -/

/-- Which of its two budgets a read is at. -/
inductive Stage where
  | endpoint
  | total
deriving DecidableEq

/-- Where a read is in the loop of `take`: before `notified`, before `try_take`, or awaiting the
`Notified` future. The flag is whether the future was notified. -/
inductive Await where
  | loop
  | armed (notified : Bool)
  | parked (notified : Bool)
deriving DecidableEq

/-- Where a read is in `acquire` and what follows. `held` is the requests it holds. -/
inductive Phase where
  /-- In `take`. At the total, one request of the endpoint is reserved. -/
  | taking (stage : Stage) (await : Await)
  /-- At the head of the loop that takes more. -/
  | extra (held : Nat)
  /-- Took one more of the endpoint, and tries the total. -/
  | extraTotal (held : Nat)
  /-- The total has no more: gives the one of the endpoint back. -/
  | returning (held : Nat)
  /-- Has its `InFlight`. -/
  | holding (held : Nat)
  /-- Half dropped: the total's requests are not given back yet. -/
  | dropping (held : Nat)
  /-- Changed a budget, and wakes the reads that wait for it. -/
  | waking (stage : Stage) (next : Phase)
  | dropped
deriving DecidableEq

/-- A read: its endpoint, and the requests its module asked for. -/
structure Read where
  endpoint : Nat
  wanted : Nat
  phase : Phase
deriving DecidableEq

/-- A budget: an endpoint's, by index, or the total. -/
inductive Counter where
  | endpoint (e : Nat)
  | total
deriving DecidableEq

def Read.counter (r : Read) : Stage → Counter
  | .endpoint => .endpoint r.endpoint
  | .total => .total

/-- `notify_waiters` of the budget `c`, for one read. -/
def Read.notify (c : Counter) (r : Read) : Read :=
  match r.phase with
  | .taking stage (.armed n) =>
    { r with phase := .taking stage (.armed (n || r.counter stage == c)) }
  | .taking stage (.parked n) =>
    { r with phase := .taking stage (.parked (n || r.counter stage == c)) }
  | _ => r

/-- The budgets and the reads under them. -/
structure Pool where
  devices : List Nat
  budget : Counter → Budget
  reads : List Read

/-- The pool of a configuration, before any read. -/
def Pool.start (b : Budgets) : Pool :=
  { devices := b.devices
    budget := fun
      | .total => b.total
      | .endpoint e => b.endpoints.getD e (Budget.new "" 1 true)  -- no device has another endpoint
    reads := [] }

/-! ## Steps -/

/-- A step: a read starts, or goes on with `acquire` or with giving back (`advance`), or its
module reports on a request, or drops its `InFlight`. -/
inductive Act where
  | start (index wanted : Nat)
  | advance (i : Nat)
  | ok (i : Nat)
  | busy (i : Nat)
  | timedOut (i : Nat) (othersInFlight : Bool)
  | drop (i : Nat)

namespace Pool

/-- The read `i` goes to `phase`. -/
def move (pool : Pool) (i : Nat) (r : Read) (phase : Phase) : Pool :=
  { pool with reads := pool.reads.set i { r with phase := phase } }

def setBudget (pool : Pool) (c : Counter) (b : Budget) : Pool :=
  { pool with budget := Function.update pool.budget c b }

def notifyWaiters (pool : Pool) (c : Counter) : Pool :=
  { pool with reads := pool.reads.map (Read.notify c) }

/-- What follows giving `n` back: nothing is woken for none. -/
def afterGiveBack (stage : Stage) (n : Nat) (next : Phase) : Phase :=
  if n = 0 then next else .waking stage next

def advance (pool : Pool) (i : Nat) (r : Read) : Option Pool :=
  match r.phase with
  | .taking stage .loop => some (pool.move i r (.taking stage (.armed false)))
  | .taking stage (.armed notified) =>
    match (pool.budget (r.counter stage)).tryTake with
    | some b =>
      let next := match stage with
        | .endpoint => .taking .total .loop
        | .total => .extra 1
      some ((pool.setBudget (r.counter stage) b).move i r next)
    | none => some (pool.move i r (.taking stage (.parked notified)))
  | .taking stage (.parked notified) =>
    if notified then some (pool.move i r (.taking stage .loop)) else none
  | .extra held =>
    if held < max r.wanted 1 then
      match (pool.budget (.endpoint r.endpoint)).tryTake with
      | some b => some ((pool.setBudget (.endpoint r.endpoint) b).move i r (.extraTotal held))
      | none => some (pool.move i r (.holding held))
    else some (pool.move i r (.holding held))
  | .extraTotal held =>
    match (pool.budget .total).tryTake with
    | some b => some ((pool.setBudget .total b).move i r (.extra (held + 1)))
    | none => some (pool.move i r (.returning held))
  | .returning held =>
    let b := (pool.budget (.endpoint r.endpoint)).giveBack 1
    some ((pool.setBudget (.endpoint r.endpoint) b).move i r
      (afterGiveBack .endpoint 1 (.holding held)))
  | .holding _ => none
  | .dropping held =>
    let b := (pool.budget .total).giveBack held
    some ((pool.setBudget .total b).move i r (afterGiveBack .total held .dropped))
  | .waking stage next => some ((pool.move i r next).notifyWaiters (r.counter stage))
  | .dropped => none

/-- What the module reports of a request changes the endpoint's budget. -/
def report (pool : Pool) (i : Nat) (f : Budget → Budget × Bool) : Option Pool :=
  match pool.reads[i]? with
  | some r =>
    match r.phase with
    | .holding held =>
      let (b, wakes) := f (pool.budget (.endpoint r.endpoint))
      some ((pool.setBudget (.endpoint r.endpoint) b).move i r
        (if wakes then .waking .endpoint (.holding held) else .holding held))
    | _ => none
  | none => none

/-- `Drop`, its first half. -/
def drop (pool : Pool) (i : Nat) : Option Pool :=
  match pool.reads[i]? with
  | some r =>
    match r.phase with
    | .holding held =>
      let b := (pool.budget (.endpoint r.endpoint)).giveBack held
      some ((pool.setBudget (.endpoint r.endpoint) b).move i r
        (afterGiveBack .endpoint held (.dropping held)))
    | _ => none
  | none => none

/-- One step of one read; `none` where it cannot be taken. -/
def act (pool : Pool) : Act → Option Pool
  | .start index wanted =>
    pool.devices[index]?.map fun e =>
      { pool with reads := pool.reads ++
          [{ endpoint := e, wanted := wanted, phase := .taking .endpoint .loop }] }
  | .advance i => pool.reads[i]?.bind (pool.advance i)
  | .ok i => pool.report i Budget.success
  | .busy i => pool.report i fun b => (b.backOff, false)
  | .timedOut i othersInFlight =>
    pool.report i fun b => (if othersInFlight then b.backOff else b, false)
  | .drop i => pool.drop i

end Pool

/-- The pools that the budgets and any interleaving of reads can reach. -/
inductive Reachable (b : Budgets) : Pool → Prop where
  | start : Reachable b (Pool.start b)
  | act {pool pool' : Pool} (a : Act) : Reachable b pool → pool.act a = some pool' →
      Reachable b pool'

end TedgeDot.Concurrency
