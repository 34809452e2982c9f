import TedgeDot.Lib.Except
import TedgeDot.Lib.Machine
import TedgeDot.Sdk.Model
import TedgeDot.Sdk.TdotCodec

/-!
# PROFIBUS inputs

Both connectors poll the bus in a thread of their own, which keeps the latest input bytes of each
peripheral, and read points from these. A byte carries here whether its peripheral has returned it
in reply to a Data_Exchange request.

- `inputs_returned`: in which runs a good sample is made of returned bytes only.
-/

namespace TedgeDot.Profibus

open Machine

/-! ## Input bytes -/

/-- An input byte, and whether the peripheral has returned it in a data exchange. -/
structure Cell where
  byte : UInt8
  returned : Bool
deriving DecidableEq

/-- The input bytes of a buffer that is new. -/
def zeroed (len : Nat) : List Cell := List.replicate len { byte := 0, returned := false }

/-- A reply is copied over the inputs, as far as both go. -/
def store (reply inputs : List Cell) : List Cell :=
  reply.take inputs.length ++ inputs.drop reply.length

def AllReturned (cells : List Cell) : Prop := ∀ cell ∈ cells, cell.returned = true

instance (cells : List Cell) : Decidable (AllReturned cells) :=
  inferInstanceAs (Decidable (∀ cell ∈ cells, cell.returned = true))

theorem AllReturned.slice {cells : List Cell} (h : AllReturned cells) (start len : Nat) :
    AllReturned ((cells.drop start).take len) :=
  fun cell hcell => h cell (List.mem_of_mem_drop (List.mem_of_mem_take hcell))

theorem allReturned_store {reply inputs : List Cell} (h : AllReturned reply)
    (hrest : AllReturned (inputs.drop reply.length)) : AllReturned (store reply inputs) := by
  intro cell hcell
  rcases List.mem_append.mp hcell with hcell | hcell
  · exact h cell (List.mem_of_mem_take hcell)
  · exact hrest cell hcell

/-- A point of the inputs or of the outputs, at a byte or at some bits of one. -/
structure Point where
  isInput : Bool
  byteOffset : Nat
  /-- `bit_offset` with `bit_count`. -/
  bits : Option (Nat × Nat)
  datatype : Option DataType
  endianness : Endianness
  wordOrder : WordOrder
  /-- What the transform of the point makes of a number. -/
  transform : Float → Float

/-! ## The C connector -/

namespace C

/-- The requests that the bus thread sends to a peripheral. -/
inductive Service where
  | diag
  | setPrm
  | chkCfg
  | dataExchange
deriving DecidableEq

inductive Kind where
  | sc
  | sd1
  | sd2
deriving DecidableEq

/-- `pb_frame_t`, as far as the connector looks at it. -/
structure Frame where
  kind : Kind
  sa : UInt8
  pdu : List UInt8
  /-- The station that sent it, and the request it is a reply to. -/
  answers : Option (UInt8 × Service)

/-- `pb_link_t`, with the text of a fault. -/
inductive Link where
  | unknown
  | dx
  | fault (text : String)
deriving DecidableEq

/-- `pb_slave_t`. Of what the configuration says of it, the station; the length of the inputs is
that of `inputs`. -/
structure Slave where
  station : UInt8
  active : Bool
  link : Link
  inputs : List Cell

/-- What the bus thread has to see while it waits for replies, in this order. -/
inductive Arrival where
  | frame (f : Frame)
  /-- The deadline of the attempt has passed. -/
  | timeout
  /-- The socket does not send or receive any more. -/
  | dead

/-- The return codes of `pb_transact` that are not zero. -/
inductive Failure where
  | dead
  | noReply
deriving DecidableEq

def PB_RETRIES : Nat := 3

/-- The frames that `pb_transact` takes for the reply to a request. -/
def accepts (station : UInt8) (service : Service) (f : Frame) : Bool :=
  match service with
  | .setPrm | .chkCfg => f.kind == .sc
  | .diag | .dataExchange => f.kind == .sd2 && f.sa == station

/-- The attempts of `pb_transact`: the reply, and what arrives after it. Where nothing more arrives,
each attempt ends at its deadline. -/
def attempts (accept : Frame → Bool) : Nat → List Arrival → Except Failure (Frame × List Arrival)
  | 0, _ => .error .noReply
  | _ + 1, [] => .error .noReply
  | n + 1, .frame f :: rest =>
    -- an unrelated frame: a stale reply, another station
    if accept f then .ok (f, rest) else attempts accept (n + 1) rest
  | n + 1, .timeout :: rest => attempts accept n rest
  | _ + 1, .dead :: _ => .error .dead

/-- `pb_transact`. -/
def transact (station : UInt8) (service : Service) (arrivals : List Arrival) :
    Except Failure (Frame × List Arrival) :=
  attempts (accepts station service) PB_RETRIES arrivals

/-- The input bytes that a frame brings to a peripheral. -/
def Frame.cells (f : Frame) (station : UInt8) : List Cell :=
  f.pdu.map fun byte => { byte, returned := f.answers == some (station, .dataExchange) }

/-- The frame that `pb_exchange` takes for the reply. -/
def exchangeReply (station : UInt8) (arrivals : List Arrival) : Except Failure Frame := do
  let (f, _) ← transact station .dataExchange arrivals
  return f

/-- The frame that the exchange at the end of `pb_init_slave` takes for the reply. -/
def initReply (station : UInt8) (arrivals : List Arrival) : Except Failure Frame := do
  let (diag, rest) ← transact station .diag arrivals
  if diag.pdu.length < 6 then throw .noReply
  let (_, rest) ← transact station .setPrm rest
  let (_, rest) ← transact station .chkCfg rest
  -- the second diagnosis confirms that the peripheral is ready
  let (diag, rest) ← transact station .diag rest
  if diag.pdu.length < 6 || diag.pdu.headD 0 &&& 0x07 != 0 then throw .noReply
  exchangeReply station rest

/-- The frame that a visit of a peripheral takes for the reply to its exchange. -/
def visitReply (station : UInt8) (link : Link) (arrivals : List Arrival) : Except Failure Frame :=
  if link = .dx then exchangeReply station arrivals else initReply station arrivals

/-- Where the bus thread is between two of its critical sections. -/
inductive Phase where
  | idle
  /-- It has read the link of a peripheral that is active. -/
  | visiting (i : Nat) (link : Link)
  /-- It has to set the link of a peripheral. -/
  | reporting (i : Nat) (link : Link)

/-- `pb_state_t`. -/
structure State where
  nslaves : Nat
  slave : Nat → Slave
  threadRunning : Bool
  /-- The socket of the bus thread is open. -/
  sock : Bool
  busUp : Bool
  phase : Phase

/-- A configured connector: the station and `input_len` of each peripheral. -/
def State.configured (nslaves : Nat) (station : Nat → UInt8) (inputLen : Nat → Nat) : State :=
  { nslaves
    slave := fun i =>
      { station := station i, active := false, link := .unknown, inputs := zeroed (inputLen i) }
    threadRunning := false
    sock := false
    busUp := false
    phase := .idle }

def State.modify (st : State) (i : Nat) (f : Slave → Slave) : State :=
  { st with slave := Function.update st.slave i (f (st.slave i)) }

/-- `pb_set_link`. -/
def setLink (st : State) (i : Nat) (link : Link) : State :=
  st.modify i fun sl => { sl with link }

/-- `pb_set_link` of every peripheral. -/
def setLinks (st : State) (link : Link) : State :=
  { st with slave := fun i => { st.slave i with link } }

/-- What the calls of the connector and the critical sections of the bus thread do to the state. -/
inductive Event where
  | connect (i : Nat)
  | disconnect (i : Nat)
  /-- The bus thread has stopped: no device is connected any more. -/
  | stop
  /-- The bus thread opens its socket, or fails to. -/
  | openSocket (error : Option String)
  /-- The bus thread turns to a peripheral. -/
  | turn (i : Nat)
  /-- It does its exchange with the peripheral. -/
  | visit (arrivals : List Arrival)
  | report
  | read (i : Nat) (pt : Point)

/-- The exchange of a visit, and what is to be reported of it. -/
def visit (st : State) (i : Nat) (link : Link) (arrivals : List Arrival) : State :=
  match visitReply (st.slave i).station link arrivals with
  | .ok f =>
    let st := st.modify i fun sl => { sl with inputs := store (f.cells sl.station) sl.inputs }
    { st with phase := if link = .dx then .idle else .reporting i .dx }
  | .error .noReply =>
    let text := if link = .dx then "data exchange timed out"
      else "peripheral init (diag/prm/cfg) failed"
    { st with phase := .reporting i (.fault text) }
  | .error .dead =>
    { setLinks st (.fault "bus connection lost") with
      sock := false, busUp := false, phase := .idle }

/-- What a read fills of a sample: `bad` is the error of a sample whose quality is bad. -/
structure Sample where
  raw : List Cell := []
  value : Option TdotValue := none
  bad : Option String := none

/-- `tdot_sample_bad`. -/
def sampleBad (raw : List Cell) (error : String) : Sample := { raw, bad := some error }

def field (byte : UInt8) (offset count : Nat) : Nat := byte.toNat / 2 ^ offset % 2 ^ count

/-- The sample that `read_point` makes of the inputs of a peripheral in data exchange. -/
def sampleOf (pt : Point) (snapshot : List Cell) : Sample :=
  match pt.bits with
  | some (bitOffset, bitCount) =>
    match snapshot[pt.byteOffset]? with
    | none =>
      sampleBad [] s!"byte_offset {pt.byteOffset} out of range ({snapshot.length} bytes)"
    | some cell =>
      let field := field cell.byte bitOffset bitCount
      let value := if pt.datatype = some .bool ∨ bitCount = 1 then TdotValue.bool (field != 0)
        else .num (pt.transform (Binary64.ofInt field))
      { raw := [cell], value := some value }
  | none =>
    match pt.datatype with
    | none => sampleBad [] "point needs a fixed-length datatype"
    | some datatype =>
      let len := TdotCodec.datatypeLen datatype
      let stop := pt.byteOffset + len
      if len = 0 then sampleBad [] "point needs a fixed-length datatype"
      else if stop > snapshot.length then
        sampleBad [] (s!"point needs bytes {pt.byteOffset}..{stop} but input buffer is " ++
          s!"{snapshot.length} bytes")
      else
        let raw := (snapshot.drop pt.byteOffset).take len
        match TdotCodec.decode datatype (raw.map Cell.byte) pt.endianness pt.wordOrder with
        | .error e => sampleBad raw s!"decode error: {e}"
        | .ok (.num num) => { raw, value := some (.num (pt.transform num)) }
        | .ok value => { raw, value := some value }

/-- `read_point`: the return code is whether the transport works. -/
def readPoint (st : State) (i : Nat) (pt : Point) : Bool × Sample :=
  let sl := st.slave i
  if !pt.isInput then (true, sampleBad [] "point direction is output; not readable")
  else
    match sl.link with
    | .dx => (true, sampleOf pt sl.inputs)
    | .fault text =>
      if text ≠ "" then (st.busUp, sampleBad [] s!"peripheral fault: {text}")
      else (st.busUp, sampleBad [] "peripheral not in data exchange")
    | .unknown => (st.busUp, sampleBad [] "peripheral not in data exchange")

/-- A step, and the sample of a read. An event that cannot happen changes nothing. -/
def step (st : State) : Event → State × Option (Bool × Sample)
  | .connect i =>
    let st := st.modify i fun sl => { sl with active := true }
    (if st.threadRunning then st else { st with threadRunning := true, sock := false }, none)
  | .disconnect i => (st.modify i fun sl => { sl with active := false, link := .unknown }, none)
  | .stop =>
    match st.phase with
    | .idle =>
      if (List.range st.nslaves).any fun i => (st.slave i).active then (st, none)
      else ({ st with threadRunning := false, sock := false, busUp := false }, none)
    | _ => (st, none)
  | .openSocket error =>
    if st.threadRunning && !st.sock then
      match error with
      | some e => (setLinks st (.fault e), none)
      -- every peripheral goes through its initialisation again
      | none => ({ setLinks st .unknown with sock := true, busUp := true }, none)
    else (st, none)
  | .turn i =>
    match st.phase with
    | .idle =>
      if st.sock && i < st.nslaves && (st.slave i).active then
        ({ st with phase := .visiting i (st.slave i).link }, none)
      else (st, none)
    | _ => (st, none)
  | .visit arrivals =>
    match st.phase with
    | .visiting i link => (visit st i link arrivals, none)
    | _ => (st, none)
  | .report =>
    match st.phase with
    | .reporting i link => ({ setLink st i link with phase := .idle }, none)
    | _ => (st, none)
  | .read i pt => (st, some (readPoint st i pt))

/-- A good sample is made of bytes that the peripheral has returned. -/
def Returned (st : State) (event : Event) : Prop :=
  ∀ works sample, (step st event).2 = some (works, sample) → sample.bad = none →
    AllReturned sample.raw

/-- What a visit takes for the reply to its exchange is the peripheral's reply to a Data_Exchange
request, and the inputs that it does not reach have been returned before. -/
def Genuine (st : State) : Event → Prop
  | .visit arrivals => ∀ i link f, st.phase = .visiting i link →
      visitReply (st.slave i).station link arrivals = .ok f →
      (f.pdu ≠ [] → f.answers = some ((st.slave i).station, .dataExchange)) ∧
        AllReturned ((st.slave i).inputs.drop f.pdu.length)
  | _ => True

/-- A peripheral in data exchange has returned its inputs. -/
def Sound (st : State) : Prop :=
  (∀ i, (st.slave i).link = .dx → AllReturned (st.slave i).inputs) ∧
    ∀ i, st.phase = .reporting i .dx → AllReturned (st.slave i).inputs

theorem modify_slave (st : State) (i : Nat) (f : Slave → Slave) (j : Nat) :
    (st.modify i f).slave j = if j = i then f (st.slave i) else st.slave j :=
  Function.update_apply _ _ _ _

theorem modify_sound {st : State} {i : Nat} {f : Slave → Slave} (hsound : Sound st)
    (hinputs : (f (st.slave i)).inputs = (st.slave i).inputs)
    (hlink : (f (st.slave i)).link = .dx → AllReturned (st.slave i).inputs) :
    Sound (st.modify i f) := by
  refine ⟨fun j hj => ?_, fun j hj => ?_⟩
  · rw [modify_slave] at hj ⊢
    split at hj <;> rename_i hi
    · rw [if_pos hi, hinputs]
      exact hlink hj
    · rw [if_neg hi]
      exact hsound.1 j hj
  · have hreturned := hsound.2 j hj
    rw [modify_slave]
    split <;> rename_i hi
    · rw [hinputs, ← hi]
      exact hreturned
    · exact hreturned

theorem setLinks_sound {st : State} {link : Link} (hsound : Sound st) (hlink : link ≠ .dx) :
    Sound (setLinks st link) :=
  ⟨fun _ hi => absurd hi hlink, hsound.2⟩

theorem cells_returned {f : Frame} {station : UInt8}
    (h : f.pdu ≠ [] → f.answers = some (station, .dataExchange)) :
    AllReturned (f.cells station) := by
  intro cell hcell
  obtain ⟨byte, hbyte, rfl⟩ := List.mem_map.mp hcell
  simp [h (List.ne_nil_of_mem hbyte)]

/-- A visit leaves in the snapshot what the peripheral returned. -/
theorem visit_sound {st : State} {i : Nat} {link : Link} {arrivals : List Arrival}
    (hsound : Sound st) (hphase : st.phase = .visiting i link)
    (hgenuine : Genuine st (.visit arrivals)) : Sound (visit st i link arrivals) := by
  unfold visit
  cases hreply : visitReply (st.slave i).station link arrivals with
  | ok f =>
    obtain ⟨hanswers, hrest⟩ := hgenuine i link f hphase hreply
    have hstore : AllReturned
        (store (f.cells (st.slave i).station) (st.slave i).inputs) := by
      apply allReturned_store (cells_returned hanswers)
      rw [Frame.cells, List.length_map]
      exact hrest
    refine ⟨fun j hj => ?_, fun j hj => ?_⟩
    · simp only [modify_slave] at hj ⊢
      split at hj <;> rename_i hi
      · rw [if_pos hi]
        exact hstore
      · rw [if_neg hi]
        exact hsound.1 j hj
    · obtain rfl : j = i := by
        by_cases hlink : link = .dx <;> simp_all
      simp only [modify_slave, if_pos]
      exact hstore
  | error failure =>
    cases failure with
    | noReply =>
      refine ⟨hsound.1, fun j hj => ?_⟩
      simp at hj
    | dead =>
      have hlost : Sound (setLinks st (.fault "bus connection lost")) :=
        setLinks_sound hsound nofun
      exact ⟨hlost.1, nofun⟩

/-- So does every event of the C connector. -/
theorem step_sound {st : State} {event : Event} (hgenuine : Genuine st event)
    (hsound : Sound st) : Sound (step st event).1 := by
  cases event with
  | connect i =>
    have hactive : Sound (st.modify i fun sl => { sl with active := true }) :=
      modify_sound hsound rfl (hsound.1 i)
    simp only [step]
    split
    · exact hactive
    · exact hactive
  | disconnect i =>
    exact modify_sound (f := fun sl => { sl with active := false, link := .unknown }) hsound rfl
      nofun
  | stop =>
    simp only [step]
    split
    · split
      · exact hsound
      · exact hsound
    · exact hsound
  | openSocket error =>
    simp only [step]
    split
    · split
      · exact setLinks_sound hsound nofun
      · exact setLinks_sound hsound nofun
    · exact hsound
  | turn i =>
    simp only [step]
    split
    · split
      · exact ⟨hsound.1, fun j hj => by cases hj⟩
      · exact hsound
    · exact hsound
  | visit arrivals =>
    simp only [step]
    split
    · next i link hphase => exact visit_sound hsound hphase hgenuine
    · exact hsound
  | report =>
    simp only [step]
    split
    · next i link hphase =>
      have hset : Sound (setLink st i link) := by
        apply modify_sound hsound rfl
        rintro rfl
        exact hsound.2 i hphase
      exact ⟨hset.1, fun j hj => by cases hj⟩
    · exact hsound
  | read i pt => exact hsound

/-- A good sample is taken from the snapshot. -/
theorem sampleOf_raw {pt : Point} {snapshot : List Cell} (hgood : (sampleOf pt snapshot).bad = none)
    (hsnapshot : AllReturned snapshot) : AllReturned (sampleOf pt snapshot).raw := by
  unfold sampleOf at hgood ⊢
  cases hbits : pt.bits with
  | some bits =>
    obtain ⟨bitOffset, bitCount⟩ := bits
    cases hcell : snapshot[pt.byteOffset]? with
    | none => simp [hbits, hcell, sampleBad] at hgood
    | some cell =>
      intro other hother
      obtain rfl : other = cell := by simpa [hbits, hcell] using hother
      exact hsnapshot _ (List.mem_of_getElem? hcell)
  | none =>
    cases hdatatype : pt.datatype with
    | none => simp [hbits, hdatatype, sampleBad] at hgood
    | some datatype =>
      have hslice := hsnapshot.slice pt.byteOffset (TdotCodec.datatypeLen datatype)
      simp only [hbits, hdatatype] at hgood ⊢
      split at hgood
      · cases hgood
      · split at hgood
        · cases hgood
        · rw [if_neg ‹_›, if_neg ‹_›]
          split <;> exact hslice

/-- What the C connector reads good was returned. -/
theorem step_returned {st : State} {event : Event} (hsound : Sound st) : Returned st event := by
  intro works sample h hgood
  cases event with
  | read i pt =>
    have hread : readPoint st i pt = (works, sample) := Option.some.inj h
    unfold readPoint at hread
    simp only at hread
    split at hread
    · cases hread
      cases hgood
    · split at hread
      · next hlink =>
        cases hread
        exact sampleOf_raw hgood (hsound.1 i hlink)
      · split at hread <;> cases hread <;> cases hgood
      · cases hread
        cases hgood
  | _ =>
    simp only [step] at h
    repeat' split at h
    all_goals cases h

end C

/-! ## The Rust connector -/

namespace Rust

/-- `ProfibusPoint`, as far as reading uses it. -/
structure ProfibusPoint extends Point where
  mode : Mode

inductive PeripheralLinkState where
  | unknown
  | connected
  | fault (msg : String)
deriving DecidableEq

/-- `PeripheralState`, as far as reading uses it. -/
structure PeripheralState where
  inputs : List Cell
  link : PeripheralLinkState

/-- The connector and its bus thread. -/
structure State where
  /-- The length of the inputs of each configured device. -/
  inputBytes : List Nat
  /-- The `peripherals` of `shared_state`, in the order of the devices. -/
  sharedState : Option (List PeripheralState)
  /-- The inputs that the master keeps of each peripheral, `pi_i`. -/
  pi : List (List Cell)

def State.configured (inputBytes : List Nat) : State :=
  { inputBytes, sharedState := none, pi := [] }

inductive Event where
  | connect
  | disconnect
  /-- A poll of the master: which peripherals have replied to a Data_Exchange request meanwhile, what
  the master keeps as their inputs, and whether it completes a cycle. -/
  | poll (replies : List (Option (List UInt8))) (pi : List (List Cell)) (cycleCompleted : Bool)
  | read (device : Nat) (model : Option ProfibusPoint)

/-- The inputs of a reply to a Data_Exchange request. -/
def returned (reply : List UInt8) : List Cell := reply.map fun byte => { byte, returned := true }

/-- The loop of `bus_thread_main`. The snapshots of the peripherals of a cycle are taken one after
the other; a reader sees but one of them. -/
def poll (st : State) (shared : List PeripheralState) (pi : List (List Cell))
    (cycleCompleted : Bool) : State :=
  if cycleCompleted then
    { st with
      pi
      sharedState := some (shared.zipIdx.map fun (ps, i) =>
        match pi[i]? with
        | some inputs => { ps with inputs, link := .connected }
        | none => ps) }
  else { st with pi }

/-- The errors of a sample whose quality is bad. -/
inductive Refusal where
  | text (s : String)
  /-- `decode error: {e}` -/
  | decode (e : DecodeError)

structure Sample where
  raw : List Cell := []
  value : Option Value := none
  bad : Option Refusal := none

def badSample (error : String) : Sample := { bad := some (.text error) }

def extractBitfield (bytes : List UInt8) (endianness : Endianness) (wordOrder : WordOrder)
    (startBit bitCount : Nat) : Nat :=
  let acc := fromBeBytes (Codec.reorder bytes endianness wordOrder)
  if bitCount = 0 ∨ bitCount ≥ 64 then acc % 2 ^ 64 else acc / 2 ^ startBit % 2 ^ bitCount

def goodSample (model : ProfibusPoint) (raw : List Cell) (value : Option Value) : Sample :=
  let transformed := value.map fun
    | .number n => .number (model.transform n)
    | value => value
  { raw, value := transformed }

/-- `decode_point`. Taking the rest of a buffer from behind its end panics. -/
def decodePoint (model : ProfibusPoint) (buffer : List Cell) : Option Sample :=
  let start := model.byteOffset
  match model.bits with
  | some (bitOff, bitCnt) =>
    match buffer[start]? with
    | none => some (badSample "byte_offset out of range for input buffer")
    | some cell =>
      match model.mode with
      | .raw => some (goodSample model [cell] none)
      | .typed =>
        let n := extractBitfield [cell.byte] model.endianness model.wordOrder bitOff bitCnt
        let value := if bitCnt = 1 then Value.bool (n != 0) else .number (Binary64.ofInt n)
        some (goodSample model [cell] (some value))
  | none =>
    match model.datatype with
    | none =>
      match model.mode with
      | .raw =>
        if start > buffer.length then none else some (goodSample model (buffer.drop start) none)
      | .typed => some (badSample "typed point has no datatype")
    | some dt =>
      match dt.byteLen with
      | none => some (badSample "unsupported variable-length datatype")
      | some byteLen =>
        let stop := start + byteLen
        if stop > buffer.length then
          some (badSample
            s!"point needs bytes {start}..{stop} but buffer is only {buffer.length} bytes")
        else
          let bytes := (buffer.drop start).take byteLen
          match model.mode with
          | .raw => some (goodSample model bytes none)
          | .typed =>
            let wire := bytes.map Cell.byte
            match Codec.decodePrimitive wire dt model.endianness model.wordOrder with
            | .ok value => some (goodSample model bytes (some value))
            | .error e => some { bad := some (.decode e) }

/-- `read_points`, of one point; nothing where it panics. -/
def readPoint (st : State) (device : Nat) (model : Option ProfibusPoint) : Option Sample :=
  if st.inputBytes.length ≤ device then some (badSample "unknown device")
  else
    match model with
    | none => some (badSample "unknown point")
    | some model =>
      if !model.isInput then some (badSample "point direction is output")
      else
        match st.sharedState with
        | none => some (badSample "not connected")
        | some shared =>
          match shared[device]? with
          | none => some (badSample "device not in shared state")
          | some ps =>
            match ps.link with
            | .fault msg => some (badSample s!"peripheral fault: {msg}")
            | .unknown => some (badSample "peripheral not yet in data exchange")
            | .connected => decodePoint model ps.inputs

def step (st : State) : Event → State × Option Sample
  | .connect =>
    let shared := st.inputBytes.map fun len =>
      { inputs := zeroed len, link := PeripheralLinkState.unknown }
    ({ st with sharedState := some shared, pi := st.inputBytes.map zeroed }, none)
  | .disconnect => ({ st with sharedState := none }, none)
  | .poll _ pi cycleCompleted =>
    match st.sharedState with
    | some shared => (poll st shared pi cycleCompleted, none)
    -- the bus thread has stopped
    | none => (st, none)
  | .read device model => (st, readPoint st device model)

/-- A good sample is made of bytes that the peripheral has returned. -/
def Returned (st : State) (event : Event) : Prop :=
  ∀ sample, (step st event).2 = some sample → sample.bad = none → AllReturned sample.raw

/-- What profirust does with the inputs of a peripheral: a reply to a Data_Exchange request that has
as many bytes as the peripheral is configured for replaces them, and nothing else changes them. -/
structure Keeps (before after : List Cell) (reply : Option (List UInt8)) : Prop where
  taken : ∀ bytes, reply = some bytes → bytes.length = before.length → after = returned bytes
  kept : after = before ∨ ∃ bytes, reply = some bytes ∧ after = returned bytes

/-- The inputs that the master keeps after a poll are those of the replies, or as before. -/
def MasterKeeps (st : State) : Event → Prop
  | .poll replies pi _ => pi.length = st.pi.length ∧
      ∀ i before after, st.pi[i]? = some before → pi[i]? = some after →
        Keeps before after (replies.getD i none)
  | _ => True

/-- Where a cycle completes, each peripheral has replied to a Data_Exchange request, now or before. -/
def InExchange (st : State) : Event → Prop
  | .poll replies _ true => st.sharedState.isSome → ∀ i cells, st.pi[i]? = some cells →
      AllReturned cells ∨
        ∃ bytes, replies.getD i none = some bytes ∧ bytes.length = cells.length
  | _ => True

/-- A device that is reported connected has returned its inputs. -/
def Sound (st : State) : Prop :=
  ∀ shared, st.sharedState = some shared → shared.length ≤ st.pi.length ∧
    ∀ ps ∈ shared, ps.link = .connected → AllReturned ps.inputs

theorem allReturned_returned (reply : List UInt8) : AllReturned (returned reply) := by
  intro cell hcell
  obtain ⟨byte, -, rfl⟩ := List.mem_map.mp hcell
  rfl

/-- The inputs of a peripheral that has replied, now or before, are returned ones. -/
theorem Keeps.allReturned {before after : List Cell} {reply : Option (List UInt8)}
    (h : Keeps before after reply)
    (hreplied : AllReturned before ∨ ∃ bytes, reply = some bytes ∧ bytes.length = before.length) :
    AllReturned after := by
  rcases hreplied with hbefore | ⟨bytes, hreply, hlength⟩
  · rcases h.kept with rfl | ⟨bytes, -, rfl⟩
    · exact hbefore
    · exact allReturned_returned bytes
  · rw [h.taken bytes hreply hlength]
    exact allReturned_returned bytes

theorem poll_sound {st : State} {shared : List PeripheralState}
    {replies : List (Option (List UInt8))} {pi : List (List Cell)} (hsound : Sound st)
    (hshared : st.sharedState = some shared) (hkeeps : MasterKeeps st (.poll replies pi true))
    (hexchange : InExchange st (.poll replies pi true)) : Sound (poll st shared pi true) := by
  obtain ⟨hlength, -⟩ := hsound shared hshared
  obtain ⟨hsame, hkept⟩ := hkeeps
  have hreplied := hexchange (by rw [hshared]; rfl)
  rintro _ ⟨⟩
  refine ⟨by simpa [poll, hsame] using hlength, ?_⟩
  intro ps hps hconnected
  obtain ⟨⟨old, i⟩, hmem, rfl⟩ := List.mem_map.mp hps
  obtain ⟨-, hi, -⟩ := List.mem_zipIdx hmem
  -- the master keeps the inputs of every device
  have hbefore : i < st.pi.length := by omega
  have hafter : i < pi.length := hsame ▸ hbefore
  simp only [List.getElem?_eq_getElem hafter]
  have hkeeps := hkept i _ _ (List.getElem?_eq_getElem hbefore) (List.getElem?_eq_getElem hafter)
  exact hkeeps.allReturned (hreplied i _ (List.getElem?_eq_getElem hbefore))

/-- Every event of the Rust connector keeps its snapshots. -/
theorem step_sound {st : State} {event : Event} (hkeeps : MasterKeeps st event)
    (hexchange : InExchange st event) (hsound : Sound st) : Sound (step st event).1 := by
  cases event with
  | connect =>
    rintro _ ⟨⟩
    refine ⟨by simp [step], fun ps hps hconnected => ?_⟩
    obtain ⟨len, -, rfl⟩ := List.mem_map.mp hps
    cases hconnected
  | disconnect => rintro _ ⟨⟩
  | poll replies pi cycleCompleted =>
    simp only [step]
    cases hshared : st.sharedState with
    | none =>
      exact hsound
    | some shared =>
      cases cycleCompleted with
      | true => exact poll_sound hsound hshared hkeeps hexchange
      | false =>
        intro other hother
        obtain ⟨hlength, hall⟩ := hsound other hother
        exact ⟨by simpa [poll, hkeeps.1] using hlength, hall⟩
  | read device model => exact hsound

/-- A good sample is taken from the buffer. -/
theorem decodePoint_raw {model : ProfibusPoint} {buffer : List Cell} {sample : Sample}
    (h : decodePoint model buffer = some sample) (hgood : sample.bad = none)
    (hbuffer : AllReturned buffer) : AllReturned sample.raw := by
  have hdrop : AllReturned (buffer.drop model.byteOffset) :=
    fun cell hcell => hbuffer cell (List.mem_of_mem_drop hcell)
  unfold decodePoint at h
  simp only at h
  split at h
  · -- some bits of a byte
    split at h
    · cases h
      cases hgood
    · next cell hcell =>
      have hone : AllReturned [cell] := by
        intro other hother
        obtain rfl := List.mem_singleton.mp hother
        exact hbuffer _ (List.mem_of_getElem? hcell)
      split at h <;> cases h <;> exact hone
  · split at h
    · -- a raw point without a datatype
      split at h
      · split at h
        · cases h
        · cases h
          exact hdrop
      · cases h
        cases hgood
    · split at h
      · cases h
        cases hgood
      · split at h
        · cases h
          cases hgood
        · have hslice := hbuffer.slice model.byteOffset
          split at h
          · cases h
            exact hslice _
          · split at h
            · cases h
              exact hslice _
            · cases h
              cases hgood

/-- So a point that reads good reads what was returned. -/
theorem readPoint_returned {st : State} (hsound : Sound st) {device : Nat}
    {model : Option ProfibusPoint} {sample : Sample}
    (h : readPoint st device model = some sample) (hgood : sample.bad = none) :
    AllReturned sample.raw := by
  have hbad : ∀ error, some (badSample error) = some sample → AllReturned sample.raw := by
    rintro error ⟨⟩
    cases hgood
  unfold readPoint at h
  split at h
  · exact hbad _ h
  · split at h
    · exact hbad _ h
    · split at h
      · exact hbad _ h
      · split at h
        · exact hbad _ h
        · next shared hshared =>
          split at h
          · exact hbad _ h
          · next ps hps =>
            obtain ⟨-, hall⟩ := hsound shared hshared
            split at h
            · exact hbad _ h
            · exact hbad _ h
            · next hconnected =>
              exact decodePoint_raw h hgood (hall ps (List.mem_of_getElem? hps) hconnected)

/-- And what the Rust connector does. -/
theorem step_returned {st : State} {event : Event} (hsound : Sound st) : Returned st event := by
  intro sample h hgood
  cases event with
  | read device model => exact readPoint_returned hsound h hgood
  | poll replies pi cycleCompleted =>
    simp only [step] at h
    split at h <;> cases h
  | connect => cases h
  | disconnect => cases h

end Rust

/-! ## Runs -/

/-- In every run in which the C connector takes for replies only replies to a data exchange, and in
every run in which profirust keeps the replies and no peripheral is missing from a cycle of the Rust
connector, a good sample is made of bytes that the peripheral has returned in a data exchange. -/
theorem inputs_returned (nslaves : Nat) (station : Nat → UInt8) (inputLen : Nat → Nat)
    (inputBytes : List Nat) :
    (∀ events, AllSteps C.step C.Genuine (C.State.configured nslaves station inputLen) events →
      AllSteps C.step C.Returned (C.State.configured nslaves station inputLen) events) ∧
    (∀ events,
      AllSteps Rust.step (fun st event => Rust.MasterKeeps st event ∧ Rust.InExchange st event)
        (Rust.State.configured inputBytes) events →
      AllSteps Rust.step Rust.Returned (Rust.State.configured inputBytes) events) := by
  constructor
  · intro events hgenuine
    apply allSteps_of_allSteps (P := C.Sound) _ _ hgenuine
    · exact ⟨nofun, nofun⟩
    · exact fun st event hgenuine hsound => C.step_sound hgenuine hsound
    · exact fun st event _ hsound => C.step_returned hsound
  · intro events hexchange
    apply allSteps_of_allSteps (P := Rust.Sound) _ _ hexchange
    · rintro shared ⟨⟩
    · exact fun st event hexchange hsound => Rust.step_sound hexchange.1 hexchange.2 hsound
    · exact fun st event _ hsound => Rust.step_returned hsound

def inputByte : Point :=
  { isInput := true, byteOffset := 0, bits := none, datatype := some .uint8, endianness := .big,
    wordOrder := .big, transform := id }

namespace C

def ack : Arrival := .frame { kind := .sc, sa := 0, pdu := [], answers := none }

/-- A diagnosis of station 3: ready for data exchange. -/
def diagnosis : Arrival :=
  .frame { kind := .sd2, sa := 3, pdu := [0, 4, 0, 2, 0, 42], answers := some (3, .diag) }

def inputsOf (pdu : List UInt8) : Arrival :=
  .frame { kind := .sd2, sa := 3, pdu, answers := some (3, .dataExchange) }

/-- Station 3, with one byte of inputs, comes into data exchange and is read. -/
def firstRead (arrivals : List Arrival) : List Event :=
  [.connect 0, .openSocket none, .turn 0, .visit arrivals, .report, .read 0 inputByte]

end C

/-- One input byte, exchanged and read. -/
theorem inputs_returned_read :
    AllSteps C.step C.Returned (C.State.configured 1 (fun _ => 3) fun _ => 1)
      (C.firstRead [C.diagnosis, C.ack, C.ack, C.diagnosis, C.inputsOf [9]]) ∧
    AllSteps Rust.step Rust.Returned (Rust.State.configured [1])
      [.connect, .poll [some [9]] [[⟨9, true⟩]] true,
        .read 0 (some { inputByte with mode := .typed })] := by
  constructor
  · apply (inputs_returned 1 (fun _ => 3) (fun _ => 1) [1]).1
    refine ⟨trivial, trivial, trivial, ?_, trivial, trivial, trivial⟩
    rintro i link f ⟨⟩ hreply
    obtain rfl := Except.ok.inj hreply
    exact ⟨fun _ => rfl, by decide⟩
  · apply (inputs_returned 1 (fun _ => 3) (fun _ => 1) [1]).2
    refine ⟨⟨trivial, trivial⟩, ⟨⟨rfl, ?_⟩, ?_⟩, ⟨trivial, trivial⟩, trivial⟩
    · rintro (_ | i) before after hbefore hafter <;> cases hbefore
      cases hafter
      exact ⟨fun bytes hreply _ => by cases hreply; rfl, .inr ⟨[9], rfl, rfl⟩⟩
    · rintro - (_ | i) cells hcells <;> cases hcells
      exact .inr ⟨[9], rfl, rfl⟩

/-- A diagnosis that comes twice is published as inputs, and so are the zeros of a peripheral that
never replied. -/
theorem diagnosis_published :
    (¬ AllSteps C.step C.Returned (C.State.configured 1 (fun _ => 3) fun _ => 1)
      (C.firstRead [C.diagnosis, C.ack, C.ack, C.diagnosis, C.diagnosis])) ∧
    ∃ events, AllSteps Rust.step Rust.MasterKeeps (Rust.State.configured [1]) events ∧
      ¬ AllSteps Rust.step Rust.Returned (Rust.State.configured [1]) events := by
  constructor
  · rintro ⟨-, -, -, -, -, hread, -⟩
    have hreturned := hread true _ rfl rfl
    exact absurd hreturned (by decide)
  · refine ⟨[.connect, .poll [none] [[⟨0, false⟩]] true,
      .read 0 (some { inputByte with mode := .typed })],
      ⟨trivial, ⟨rfl, ?_⟩, trivial, trivial⟩, ?_⟩
    · rintro (_ | i) before after hbefore hafter <;> cases hbefore
      cases hafter
      exact ⟨fun bytes hreply => (by cases hreply), .inl rfl⟩
    · rintro ⟨-, -, hread, -⟩
      have hreturned := hread _ rfl rfl
      exact absurd hreturned (by decide)

end TedgeDot.Profibus
