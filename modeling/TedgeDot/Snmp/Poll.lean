import Mathlib.Data.List.Basic
import TedgeDot.Sdk.Config
import TedgeDot.Snmp.Notification

/-!
# Polling and writing

`poll.rs`, and the requests of `lib.rs`: one request session for each device, whose calls are
re-sent after a timeout, and the samples and results made of its replies.

The library's session is a parameter (`Library`), and so is what the network does while a call
waits: a call is given the list of its turns, and ends where the list does, as it does where the
runtime gives it up.

A sample and the result of a write stand beside the reply they were made of.
-/

namespace TedgeDot.Snmp

/-! ## The session of the library -/

/-- The cases of `Error` that the connector tells apart. -/
inductive ErrorKind where
  | authUpdated
  | engineTimeMismatch
  | engineBootsMismatch
  | authFailure
  | crypto
  | send
  | receive
  | other
deriving DecidableEq

/-- `snmp2::Error`, with what it prints. -/
structure SnmpError where
  kind : ErrorKind
  text : String
deriving DecidableEq

inductive Encoded where
  | int (v : Int)
  | unsigned (v : UInt32)
  | big (v : UInt64)
  | bytes (b : List UInt8)
  | ip (addr : UInt32)
  | oid (content : List UInt8)
deriving DecidableEq

/-- What a request asks for. -/
inductive Request where
  | get (oids : List Oid)
  /-- Of parents: every object identifier is a non-repeater. -/
  | getBulk (oids : List Oid)
  | set (name : Oid) (value : Encoded)
deriving DecidableEq

def Request.isRead : Request → Bool
  | .get _ | .getBulk _ => true
  | .set _ _ => false

/-- A request and the call that sends it, by its number on the session. -/
structure Asked where
  call : Nat
  request : Request
deriving DecidableEq

/-- `AsyncSession`, in the timeout that a call is given: nothing comes back where the timeout ends
it. `Io` is what the network does in that time, and `α` a response. -/
structure Library (σ Io α : Type) where
  /-- `init`. -/
  init : σ → Io → Option (Except SnmpError Unit) × σ
  /-- `get_many`, `getbulk` and `set`. -/
  request : σ → Asked → Io → Option (Except SnmpError α) × σ
  pdu : α → Pdu
  /-- The engine of `security()`. -/
  engineId : σ → List UInt8

/-! ## Calls -/

/-- `Reply`, with the response it is. -/
structure Reply (α : Type) where
  errorStatus : UInt32
  errorIndex : UInt32
  varbinds : List Varbind
  source : α

inductive RequestError where
  | timeout (attempts : Nat)
  | auth (e : String)
  | transport (e : String)
  | protocol (e : String)
deriving DecidableEq

def RequestError.stopsTheCycle : RequestError → Bool
  | .protocol _ => false
  | _ => true

inductive Attempt (α : Type) where
  | done (reply : Reply α)
  | failed (e : SnmpError)
  | undecodable (e : String)
  | timedOut

inductive Verdict (α : Type) where
  | done (reply : Reply α)
  | again
  | fail (e : RequestError)

structure Retry where
  attempts : Nat := 0
  resynced : Bool := false

/-- `poll::Session`, and how many calls there have been on it. -/
structure Session (σ : Type) where
  session : σ
  version : Version
  retries : Nat
  pinnedEngineId : Option (List UInt8)
  discoveredEngineId : Option (List UInt8)
  ready : Bool
  calls : Nat

/-- What the network does in one turn of a call: while the session discovers the engine, if it does,
and while the request waits. -/
structure Turn (Io : Type) where
  discovery : List Io
  wait : Option Io

section

variable {σ Io α : Type} (lib : Library σ Io α)

def classify (e : SnmpError) : RequestError :=
  match e.kind with
  | .authUpdated | .engineTimeMismatch | .engineBootsMismatch | .authFailure | .crypto => .auth e.text
  | .send | .receive => .transport e.text
  | .other => .protocol e.text

/-- Two lower case digits for every octet. -/
def hexOf (octets : List UInt8) : String :=
  String.ofList (octets.flatMap fun b => [Nat.digitChar (b.toNat / 16), Nat.digitChar (b.toNat % 16)])

/-- What `discover` does once the library has found an engine. -/
def discovered (s : Session σ) : Except RequestError Unit × Session σ :=
  let found := lib.engineId s.session
  match s.pinnedEngineId with
  | some pinned =>
    if pinned ≠ found then
      (.error (.auth s!"the agent's engine ID {hexOf found} is not the configured {hexOf pinned}"), s)
    else (.ok (), { s with discoveredEngineId := some found, ready := true })
  | none => (.ok (), { s with discoveredEngineId := some found, ready := true })

/-- The loop of `discover`. -/
def discoverLoop : List Io → Nat → Session σ → Option (Except RequestError Unit) × Session σ
  | [], _, s => (none, s)
  | io :: rest, attempts, s =>
    match lib.init s.session io with
    | (some (.ok ()), session) =>
      let (result, s) := discovered lib { s with session }
      (some result, s)
    | (some (.error e), session) => (some (.error (classify e)), { s with session })
    | (none, session) =>
      if s.retries < attempts + 1 then
        (some (.error (.timeout (attempts + 1))), { s with session })
      else discoverLoop rest (attempts + 1) { s with session }

def discover (ios : List Io) (s : Session σ) : Option (Except RequestError Unit) × Session σ :=
  if s.ready then (some (.ok ()), s) else discoverLoop lib ios 0 s

/-- The varbinds of a message, up to the first that cannot be converted. -/
def convertVarbinds : List (Except String Varbind) → Except String (List Varbind)
  | [] => .ok []
  | .error e :: _ => .error e
  | .ok v :: rest => (convertVarbinds rest).map (v :: ·)

/-- `reply`. -/
def replyOf (response : α) : Attempt α :=
  let pdu := lib.pdu response
  match convertVarbinds pdu.varbinds with
  | .error e => .undecodable e
  | .ok varbinds =>
    .done { errorStatus := pdu.errorStatus, errorIndex := pdu.errorIndex, varbinds,
            source := response }

def attempt (asked : Asked) (io : Io) (s : Session σ) : Attempt α × Session σ :=
  match lib.request s.session asked io with
  | (some (.ok response), session) => (replyOf lib response, { s with session })
  | (some (.error e), session) => (.failed e, { s with session })
  | (none, session) => (.timedOut, { s with session })

def countAttempt (s : Session σ) (retry : Retry) (e : Nat → RequestError) : Verdict α × Retry :=
  let retry := { retry with attempts := retry.attempts + 1 }
  if s.retries < retry.attempts then (.fail (e retry.attempts), retry) else (.again, retry)

def judge (attempt : Attempt α) (retry : Retry) (s : Session σ) : Verdict α × Retry × Session σ :=
  match attempt with
  | .done reply => (.done reply, retry, s)
  | .undecodable e => (.fail (.protocol e), retry, s)
  | .timedOut =>
    let (verdict, retry) := countAttempt s retry .timeout
    (verdict, retry, s)
  | .failed e =>
    let refused := (.fail (.auth e.text), retry, { s with ready := s.version ≠ .v3 })
    match e.kind with
    | .authUpdated =>
      if !retry.resynced then (.again, { retry with resynced := true }, s)
      else (.fail (.protocol e.text), retry, s)
    | .engineTimeMismatch | .engineBootsMismatch =>
      if !retry.resynced then (.again, { retry with resynced := true }, s) else refused
    | .authFailure | .crypto => refused
    | .send | .receive =>
      let (verdict, retry) := countAttempt s retry fun _ => .transport e.text
      (verdict, retry, s)
    | .other => (.fail (.protocol e.text), retry, s)

/-- The loop of `get`, `get_bulk` and `set`. -/
def callLoop (asked : Asked) :
    List (Turn Io) → Retry → Session σ → Option (Except RequestError (Reply α)) × Session σ
  | [], _, s => (none, s)
  | turn :: rest, retry, s =>
    match discover lib turn.discovery s with
    | (none, s) => (none, s)
    | (some (.error e), s) => (some (.error e), s)
    | (some (.ok ()), s) =>
      match turn.wait with
      | none => (none, s)
      | some io =>
        let (tried, s) := attempt lib asked io s
        match judge tried retry s with
        | (.done reply, _, s) => (some (.ok reply), s)
        | (.fail e, _, s) => (some (.error e), s)
        | (.again, retry, s) => callLoop asked rest retry s

/-- `get`, `get_bulk` and `set`. -/
def Session.call (request : Request) (turns : List (Turn Io)) (s : Session σ) :
    Option (Except RequestError (Reply α)) × Session σ :=
  callLoop lib { call := s.calls, request } turns {} { s with calls := s.calls + 1 }

end

/-! ## Devices -/

/-- A point, as far as polling and writing go. -/
structure ObjectPoint where
  id : String
  /-- `object_oid`. -/
  oid : Option Oid
  access : Access
  mode : Mode
  datatype : Option DataType
  unit : Option String
  transform : Value → Value

/-- A device, as far as polling and writing go. -/
structure DeviceModel where
  name : String
  version : Version
  community : List UInt8
  writeCommunity : List UInt8
  retries : Nat
  /-- The seconds of `request_timeout`, as they are printed. -/
  after : String
  maxVarbinds : Nat
  bulk : Bool
  pinnedEngineId : Option (List UInt8)
  points : List ObjectPoint

/-- What `RequestError` prints. -/
def RequestError.text (model : DeviceModel) : RequestError → String
  | .timeout attempts =>
    s!"no answer within {model.after}s ({attempts} attempt(s), connection.request_timeout)"
  | .auth e => s!"SNMPv3 authentication failed: {e}"
  | .transport e => s!"transport error: {e}"
  | .protocol e => s!"undecodable response: {e}"

def errorName (status : UInt32) : String :=
  match status.toNat with
  | 0 => "noError"
  | 1 => "tooBig"
  | 2 => "noSuchName"
  | 3 => "badValue"
  | 4 => "readOnly"
  | 5 => "genErr"
  | 6 => "noAccess"
  | 7 => "wrongType"
  | 8 => "wrongLength"
  | 9 => "wrongEncoding"
  | 10 => "wrongValue"
  | 11 => "noCreation"
  | 12 => "inconsistentValue"
  | 13 => "resourceUnavailable"
  | 14 => "commitFailed"
  | 15 => "undoFailed"
  | 16 => "authorizationError"
  | 17 => "notWritable"
  | 18 => "inconsistentName"
  | _ => "unknownError"

def scalarParent (p : ObjectPoint) : Option Oid :=
  p.oid.bind fun oid =>
    if oid.getLast? = some 0 ∧ 2 < oid.length then some oid.dropLast else none

/-! ## Samples -/

structure ObjectSample where
  ts : Nat
  device : String
  point : String
  mode : Mode
  datatype : Option DataType
  value : Option Value
  raw : List UInt8
  quality : Quality
  unit : Option String
  oid : Option Oid
  error : Option String

/-- What a sample was made of: what was asked for, and the response. -/
structure Evidence (α : Type) where
  asked : Request
  response : α

/-- A sample, with the response that it was made of, if it was made of one. -/
structure Sampled (α : Type) where
  sample : ObjectSample
  source : Option (Evidence α)

/-- `sample`, of a poll. -/
def objectSample (model : DeviceModel) (p : ObjectPoint) (ts : Nat) (raw : List UInt8)
    (value : Except String Value) : ObjectSample :=
  let (value, quality, error, datatype) := match p.mode, value with
    | .raw, .error e => (none, Quality.bad, some e, none)
    | .raw, .ok _ => (none, .good, none, none)
    | .typed, .ok v => (some v, .good, none, p.datatype)
    | .typed, .error e => (none, .bad, some e, p.datatype)
  { ts, device := model.name, point := p.id, mode := p.mode, datatype, value, raw, quality
    unit := p.unit, oid := p.oid, error }

/-- `bad`. -/
def badSample (model : DeviceModel) (ts : Nat) (p : ObjectPoint) (reason : String) : ObjectSample :=
  objectSample model p ts [] (.error reason)

def ValueType.isException : ValueType → Bool
  | .noSuchObject | .noSuchInstance | .endOfMibView => true
  | _ => false

/-- The sample of one point of `map_reply`, where the request did not fail. -/
def mapVarbind (model : DeviceModel) (ts : Nat) (p : ObjectPoint) (varbind : Option Varbind) :
    ObjectSample :=
  let oid := p.oid.getD []
  match varbind with
  | none => badSample model ts p "the agent's response has no varbind for it"
  | some v =>
    if v.name ≠ oid then
      badSample model ts p s!"the agent answered with {dotted v.name} instead of {dotted oid}"
    else if v.value.kind.isException then
      badSample model ts p s!"the agent answered {v.value.kind.name} for {dotted oid}"
    else
      let converted := match p.mode, p.datatype with
        | .typed, some datatype => (v.value.convert datatype).map p.transform
        | _, _ => .ok (.bool false)
      objectSample model p ts v.value.raw converted

/-- The reason that a request failed for, as the agent gives it. -/
def refusal (status index : UInt32) : String :=
  s!"the agent answered {errorName status} (error-status {status.toNat}, error-index {index.toNat})"

section

variable {σ Io α : Type}

def mapReply (model : DeviceModel) (ts : Nat) (batch : List ObjectPoint) (reply : Reply α) :
    List ObjectSample :=
  if reply.errorStatus ≠ 0 then
    batch.map fun p => badSample model ts p (refusal reply.errorStatus reply.errorIndex)
  else batch.mapIdx fun i p => mapVarbind model ts p reply.varbinds[i]?

def ofReply (asked : Request) (reply : Reply α) (samples : List ObjectSample) : List (Sampled α) :=
  samples.map fun sample => { sample, source := some { asked, response := reply.source } }

/-- Samples that were made of no reply. -/
def ofNothing (samples : List ObjectSample) : List (Sampled α) :=
  samples.map fun sample => { sample, source := none }

def failedBatch (model : DeviceModel) (ts : Nat) (batch : List ObjectPoint) (e : RequestError) :
    List (Sampled α) :=
  ofNothing (batch.map fun p => badSample model ts p (e.text model))

/-- What a batch comes to: its samples, and the error that a request ended with. -/
abbrev Batch (α : Type) := List (Sampled α) × Option RequestError

variable (lib : Library σ Io α) (model : DeviceModel) (ts : Nat)

def readOnce (request : Request) (batch : List ObjectPoint) (turns : List (Turn Io))
    (s : Session σ) : Option (Batch α) × Session σ :=
  match s.call lib request turns with
  | (none, s) => (none, s)
  | (some (.ok reply), s) => (some (ofReply request reply (mapReply model ts batch reply), none), s)
  | (some (.error e), s) => (some (failedBatch model ts batch e, some e), s)

/-- The loop of `read_batch` of an SNMPv1 device: a point that is not served is left out of the next
request. -/
def readV1 : List (List (Turn Io)) → List ObjectPoint → List (Sampled α) → Session σ →
    Option (Batch α) × Session σ × List (List (Turn Io))
  | calls, [], samples, s => (some (samples, none), s, calls)
  | [], _ :: _, _, s => (none, s, [])
  | turns :: calls, p :: rest, samples, s =>
    let pending := p :: rest
    let request := Request.get (pending.filterMap (·.oid))
    match s.call lib request turns with
    | (none, s) => (none, s, calls)
    | (some (.error e), s) => (some (samples ++ failedBatch model ts pending e, some e), s, calls)
    | (some (.ok reply), s) =>
      if reply.errorStatus = 0 then
        (some (samples ++ ofReply request reply (mapReply model ts pending reply), none), s, calls)
      else
        let index := reply.errorIndex.toNat
        match if index = 0 then none else pending[index - 1]? with
        | some p =>
          let reason := s!"the agent answered {errorName reply.errorStatus} " ++
            s!"(error-status {reply.errorStatus.toNat})"
          readV1 calls (pending.eraseIdx (index - 1))
            (samples ++ ofReply request reply [badSample model ts p reason]) s
        | none =>
          let reason := refusal reply.errorStatus reply.errorIndex
          (some (samples ++
            ofReply request reply (pending.map fun p => badSample model ts p reason), none), s, calls)

def readBatch (bulky : Bool) (batch : List ObjectPoint) (calls : List (List (Turn Io)))
    (s : Session σ) : Option (Batch α) × Session σ × List (List (Turn Io)) :=
  if bulky then
    let (result, s) := readOnce lib model ts (.getBulk (batch.filterMap scalarParent)) batch
      (calls.headD []) s
    (result, s, calls.tail)
  else if model.version ≠ .v1 then
    let (result, s) := readOnce lib model ts (.get (batch.filterMap (·.oid))) batch
      (calls.headD []) s
    (result, s, calls.tail)
  else readV1 lib model ts calls batch [] s

/-- The batches of a poll, each with whether it is read with GETBULK. -/
def batchesOf (points : List ObjectPoint) : List (Bool × List ObjectPoint) :=
  let (bulk, get) :=
    if model.bulk then points.partition fun p => (scalarParent p).isSome else ([], points)
  (bulk.toChunks model.maxVarbinds).map (true, ·) ++ (get.toChunks model.maxVarbinds).map (false, ·)

/-- The loop of `read_objects`; `dead` is why the rest of the cycle is skipped. -/
def readBatches : List (Bool × List ObjectPoint) → Option String → List (List (Turn Io)) →
    List (Sampled α) → Session σ → Option (List (Sampled α)) × Session σ
  | [], _, _, out, s => (some out, s)
  | (_, batch) :: rest, some reason, calls, out, s =>
    readBatches rest (some reason) calls
      (out ++ ofNothing (batch.map fun p => badSample model ts p s!"skipped: {reason}")) s
  | (bulky, batch) :: rest, none, calls, out, s =>
    match readBatch lib model ts bulky batch calls s with
    | (none, s, _) => (none, s)
    | (some (samples, failure), s, calls) =>
      let dead := failure.bind fun e => if e.stopsTheCycle then some (e.text model) else none
      readBatches rest dead calls (out ++ samples) s

def readObjects (points : List ObjectPoint) (calls : List (List (Turn Io))) (s : Session σ) :
    Option (List (Sampled α)) × Session σ :=
  readBatches lib model ts (batchesOf model points) none calls [] s

/-! ## Writes -/

/-- `execute`, of a `write`, from the session on: the response stands beside the result. -/
def writeObject (oid : Oid) (value : Encoded) (turns : List (Turn Io)) (s : Session σ) :
    Option (Except String Unit × Option (Evidence α)) × Session σ :=
  let request := Request.set oid value
  match s.call lib request turns with
  | (none, s) => (none, s)
  | (some (.error e), s) => (some (.error (e.text model), none), s)
  | (some (.ok reply), s) =>
    let source := some { asked := request, response := reply.source }
    if reply.errorStatus ≠ 0 then
      (some (.error (s!"the agent refused the SET of {dotted oid}: {errorName reply.errorStatus} " ++
        s!"(error-status {reply.errorStatus.toNat}, error-index {reply.errorIndex.toNat})"),
        source), s)
    else (some (.ok (), source), s)

/-- The checks of `execute` before the request; `encoded` is what `encode_write` makes of the value,
where the point has an SNMP type. -/
def checkWrite (point : String) (encoded : Option (Except String Encoded)) :
    Except String (Oid × Encoded) :=
  match model.points.find? fun p => p.id == point with
  | none => .error s!"unknown point {point} on device {model.name}"
  | some p =>
    match p.oid with
    | none => .error s!"{point}: a notification point cannot be written"
    | some oid =>
      if !p.access.canWrite then .error point
      else
        match encoded with
        | none => .error s!"point '{point}' has no SNMP type to write"
        | some (.error e) => .error e
        | some (.ok value) => .ok (oid, value)

def wantedPoints (points : List String) : List ObjectPoint :=
  (points.filterMap fun id => model.points.find? fun p => p.id == id).filter fun p =>
    p.oid.isSome && p.access ≠ .write

end

/-! ## What judging changes -/

section

variable {σ α : Type}

theorem judge_done {tried : Attempt α} {retry : Retry} {s : Session σ} {reply : Reply α}
    (h : (judge tried retry s).1 = .done reply) : tried = .done reply := by
  cases tried with
  | done reply' => simpa [judge] using h
  | undecodable e => simp [judge] at h
  | timedOut =>
    simp only [judge, countAttempt] at h
    split at h <;> simp_all
  | failed e =>
    simp only [judge, countAttempt] at h
    split at h <;> (try split at h) <;> simp_all

theorem judge_same (tried : Attempt α) (retry : Retry) (s : Session σ) :
    (judge tried retry s).2.2 = { s with ready := (judge tried retry s).2.2.ready } := by
  cases tried with
  | done | undecodable | timedOut => rfl
  | failed e =>
    simp only [judge]
    split <;> (try split) <;> rfl

theorem judge_ready (tried : Attempt α) (retry : Retry) {s : Session σ} (hs : s.ready = true) :
    (judge tried retry s).2.2.ready = true ∨
      ∃ e, (judge tried retry s).1 = .fail e ∧ e.stopsTheCycle = true := by
  cases tried with
  | done | undecodable | timedOut => exact .inl hs
  | failed e =>
    simp only [judge]
    split <;> (try split) <;>
      first
      | exact .inl hs
      | exact .inr ⟨_, rfl, rfl⟩

end

/-! ## The rule of a poll -/

/-- A sample that says no more than why there is no value. -/
def Sampled.Failed {α : Type} (x : Sampled α) : Prop := x.source = none ∧ x.sample.quality = .bad

@[simp] theorem badSample_quality (model : DeviceModel) (ts : Nat) (p : ObjectPoint)
    (reason : String) : (badSample model ts p reason).quality = .bad := by
  cases hp : p.mode <;> simp [badSample, objectSample, hp]

theorem failed_ofNothing {α : Type} (model : DeviceModel) (ts : Nat) (batch : List ObjectPoint)
    (reason : String) :
    ∀ x ∈ (ofNothing (batch.map fun p => badSample model ts p reason) : List (Sampled α)),
      x.Failed := by
  intro x hx
  simp only [ofNothing, List.mem_map] at hx
  obtain ⟨-, ⟨p, -, rfl⟩, rfl⟩ := hx
  exact ⟨rfl, badSample_quality model ts p reason⟩

section

variable {σ Io α : Type} (lib : Library σ Io α) (model : DeviceModel) (ts : Nat)

/-- What is left of the calls are some of them. -/
theorem mem_of_mem_readV1 {calls : List (List (Turn Io))} {pending : List ObjectPoint}
    {done : List (Sampled α)} {s : Session σ} {turns : List (Turn Io)}
    (h : turns ∈ (readV1 lib model ts calls pending done s).2.2) : turns ∈ calls := by
  induction calls generalizing pending done s with
  | nil => cases pending <;> exact h
  | cons first calls ih =>
    cases pending with
    | nil => exact h
    | cons p rest =>
      simp only [readV1] at h
      rcases hx : s.call lib (.get ((p :: rest).filterMap (·.oid))) first with
        ⟨_ | e | reply, s'⟩ <;> simp only [hx] at h
      · exact List.mem_cons_of_mem _ h
      · exact List.mem_cons_of_mem _ h
      · split at h
        · exact List.mem_cons_of_mem _ h
        · split at h
          · exact List.mem_cons_of_mem _ (ih h)
          · exact List.mem_cons_of_mem _ h

theorem mem_of_mem_readBatch {calls : List (List (Turn Io))} {bulky : Bool}
    {batch : List ObjectPoint} {s : Session σ} {turns : List (Turn Io)}
    (h : turns ∈ (readBatch lib model ts bulky batch calls s).2.2) : turns ∈ calls := by
  unfold readBatch at h
  split at h
  · exact List.mem_of_mem_tail h
  · split at h
    · exact List.mem_of_mem_tail h
    · exact mem_of_mem_readV1 lib model ts h

end

/-- What holds of the samples and the session in the course of a poll whose calls have `Allowed`
turns: `Live` while it goes on, `Dead` once it only skips, and `Ended` of the session of a poll that
was given up. -/
structure Cycle {σ Io α : Type} (lib : Library σ Io α) (Allowed : List (Turn Io) → Prop)
    (Live Dead : List (Sampled α) → Session σ → Prop) (Ended : Session σ → Prop) : Prop where
  nothing : Allowed []
  call : ∀ {out s} request (turns : List (Turn Io)), Allowed turns → Live out s → request.isRead →
    match s.call lib request turns with
    | (none, s') => Ended s'
    | (some (.error e), s') => ∀ more, (∀ x ∈ more, x.Failed) →
        if e.stopsTheCycle then Dead (out ++ more) s' else Live (out ++ more) s'
    | (some (.ok reply), s') => ∀ samples, Live (out ++ ofReply request reply samples) s'
  ended : ∀ {out s}, Live out s → Ended s
  skip : ∀ {out s}, Dead out s → ∀ more, (∀ x ∈ more, x.Failed) → Dead (out ++ more) s

namespace Cycle

variable {σ Io α : Type} {lib : Library σ Io α} {Allowed : List (Turn Io) → Prop}
  {Live Dead : List (Sampled α) → Session σ → Prop}
  {Ended : Session σ → Prop}

/-- What holds after a batch, where `out` are the samples before it. -/
def After (Live Dead : List (Sampled α) → Session σ → Prop) (Ended : Session σ → Prop)
    (out : List (Sampled α)) (batch : Option (Batch α)) (s : Session σ) : Prop :=
  match batch with
  | none => Ended s
  | some (samples, none) => Live (out ++ samples) s
  | some (samples, some e) =>
    if e.stopsTheCycle then Dead (out ++ samples) s else Live (out ++ samples) s

variable (model : DeviceModel) (ts : Nat)

variable {out : List (Sampled α)} {s : Session σ}

theorem readOnce (h : Cycle lib Allowed Live Dead Ended) (hlive : Live out s) {request : Request}
    (hread : request.isRead) (batch : List ObjectPoint) {turns : List (Turn Io)}
    (hturns : Allowed turns) :
    After Live Dead Ended out (readOnce lib model ts request batch turns s).1
      (readOnce lib model ts request batch turns s).2 := by
  have hcall := h.call request turns hturns hlive hread
  unfold Snmp.readOnce
  rcases hx : s.call lib request turns with ⟨_ | e | reply, s'⟩ <;> simp only [hx] at hcall ⊢
  · exact hcall
  · exact hcall _ (failed_ofNothing model ts batch (e.text model))
  · exact hcall _

/-- Along a v1 batch. -/
theorem readV1 (h : Cycle lib Allowed Live Dead Ended) {calls : List (List (Turn Io))}
    (hcalls : ∀ turns ∈ calls, Allowed turns) (pending : List ObjectPoint)
    (done : List (Sampled α)) (hlive : Live (out ++ done) s) :
    After Live Dead Ended out (readV1 lib model ts calls pending done s).1
      (readV1 lib model ts calls pending done s).2.1 := by
  induction calls generalizing pending done s with
  | nil =>
    cases pending with
    | nil => exact hlive
    | cons p rest => exact h.ended hlive
  | cons turns calls ih =>
    cases pending with
    | nil => exact hlive
    | cons p rest =>
      obtain ⟨hturns, hcalls⟩ := List.forall_mem_cons.mp hcalls
      have hcall := h.call (.get ((p :: rest).filterMap (·.oid))) turns hturns hlive rfl
      simp only [Snmp.readV1]
      rcases hx : s.call lib (.get ((p :: rest).filterMap (·.oid))) turns with
        ⟨_ | e | reply, s'⟩ <;> simp only [hx] at hcall ⊢
      · exact hcall
      · have hfailed := hcall _ (failed_ofNothing model ts (p :: rest) (e.text model))
        simpa only [After, failedBatch, List.append_assoc] using hfailed
      · simp only [List.append_assoc] at hcall
        split
        · exact hcall _
        · split
          · exact ih hcalls _ _ (hcall _)
          · exact hcall _

theorem readBatch (h : Cycle lib Allowed Live Dead Ended) (hlive : Live out s) (bulky : Bool)
    (batch : List ObjectPoint) {calls : List (List (Turn Io))}
    (hcalls : ∀ turns ∈ calls, Allowed turns) :
    After Live Dead Ended out (readBatch lib model ts bulky batch calls s).1
      (readBatch lib model ts bulky batch calls s).2.1 := by
  have hfirst : Allowed (calls.headD []) := by
    cases calls with
    | nil => exact h.nothing
    | cons turns calls => exact hcalls turns List.mem_cons_self
  unfold Snmp.readBatch
  split
  · exact h.readOnce model ts hlive rfl batch hfirst
  · split
    · exact h.readOnce model ts hlive rfl batch hfirst
    · exact h.readV1 model ts hcalls batch [] (by simpa using hlive)

/-- Along the batches of a poll. -/
theorem readBatches (h : Cycle lib Allowed Live Dead Ended) (batches : List (Bool × List ObjectPoint))
    (dead : Option String) {calls : List (List (Turn Io))}
    (hcalls : ∀ turns ∈ calls, Allowed turns) (out : List (Sampled α))
    (hout : if dead.isSome then Dead out s else Live out s) :
    match readBatches lib model ts batches dead calls out s with
    | (none, s') => Ended s'
    | (some samples, s') => Live samples s' ∨ Dead samples s' := by
  induction batches generalizing dead calls out s with
  | nil =>
    cases dead with
    | none => exact .inl hout
    | some reason => exact .inr hout
  | cons batch rest ih =>
    obtain ⟨bulky, batch⟩ := batch
    cases dead with
    | some reason =>
      exact ih (some reason) hcalls _
        (h.skip hout _ (failed_ofNothing model ts batch s!"skipped: {reason}"))
    | none =>
      have hbatch := h.readBatch model ts hout bulky batch hcalls
      have hleft : ∀ turns ∈ (Snmp.readBatch lib model ts bulky batch calls s).2.2,
          Allowed turns := fun turns hturns =>
        hcalls turns (mem_of_mem_readBatch lib model ts hturns)
      simp only [Snmp.readBatches]
      rcases hx : Snmp.readBatch lib model ts bulky batch calls s with
        ⟨_ | ⟨samples, _ | e⟩, s', calls'⟩ <;> rw [hx] at hbatch hleft
      · exact hbatch
      · exact ih none hleft _ hbatch
      · refine ih _ hleft _ ?_
        dsimp only [After] at hbatch
        by_cases hstops : e.stopsTheCycle <;> simpa [hstops] using hbatch

theorem readObjects (h : Cycle lib Allowed Live Dead Ended) (points : List ObjectPoint)
    {calls : List (List (Turn Io))} (hcalls : ∀ turns ∈ calls, Allowed turns)
    (hlive : Live [] s) :
    match readObjects lib model ts points calls s with
    | (none, s') => Ended s'
    | (some samples, s') => Live samples s' ∨ Dead samples s' :=
  h.readBatches model ts (batchesOf model points) none hcalls [] hlive

end Cycle

end TedgeDot.Snmp
