import Mathlib.Data.Nat.Digits.Defs
import TedgeDot.Lib.Convert
import TedgeDot.Lib.Except
import TedgeDot.Sdk.Decode

/-!
# SNMP notifications

`notification.rs` and the values of `value.rs`: which messages are notifications, what they say, and
the samples they make. A message is taken as the library has parsed it; a varbind of it, as
`Varbind::from_library` converts it.
-/

namespace TedgeDot.Snmp

inductive IpAddr where
  | v4 (addr : UInt32)
  | v6 (addr : BitVec 128)
deriving DecidableEq

abbrev Oid := List UInt32

/-! ## Values -/

inductive ValueType where
  | integer
  | octetString
  | null
  | oid
  | ipAddress
  | counter32
  | gauge32
  | timeTicks
  | opaqueValue
  | counter64
  | noSuchObject
  | noSuchInstance
  | endOfMibView
  | unknown (tag : UInt8)
deriving DecidableEq

def ValueType.name : ValueType → String
  | .integer => "integer"
  | .octetString => "octet_string"
  | .null => "null"
  | .oid => "oid"
  | .ipAddress => "ip_address"
  | .counter32 => "counter32"
  | .gauge32 => "gauge32"
  | .timeTicks => "timeticks"
  | .opaqueValue => "opaque"
  | .counter64 => "counter64"
  | .noSuchObject => "no_such_object"
  | .noSuchInstance => "no_such_instance"
  | .endOfMibView => "end_of_mib_view"
  | .unknown _ => "unknown"

inductive Decoded where
  | signed (v : Int64)
  | unsigned (v : UInt64)
  | oid (arcs : Oid)
  | ipAddress (addr : UInt32)
  | octets
deriving DecidableEq

structure VarValue where
  kind : ValueType
  raw : List UInt8
  decoded : Decoded
deriving DecidableEq

structure Varbind where
  name : Oid
  value : VarValue
deriving DecidableEq

def datatypeName : DataType → String
  | .bool => "bool"
  | .int8 => "int8"
  | .uint8 => "uint8"
  | .int16 => "int16"
  | .uint16 => "uint16"
  | .int32 => "int32"
  | .uint32 => "uint32"
  | .int64 => "int64"
  | .uint64 => "uint64"
  | .float32 => "float32"
  | .float64 => "float64"
  | .string => "string"
  | .bytes => "bytes"

/-- An object identifier in dotted decimal. -/
def dotted (arcs : Oid) : String := String.intercalate "." (arcs.map fun arc => toString arc.toNat)

def dottedIp (addr : UInt32) : String :=
  let octet := fun (shift : UInt32) => toString ((addr >>> shift) &&& 0xFF).toNat
  String.intercalate "." [octet 24, octet 16, octet 8, octet 0]

def integerRange : DataType → Option (Int × Int)
  | .int8 => some (-2 ^ 7, 2 ^ 7 - 1)
  | .uint8 => some (0, 2 ^ 8 - 1)
  | .int16 => some (-2 ^ 15, 2 ^ 15 - 1)
  | .uint16 => some (0, 2 ^ 16 - 1)
  | .int32 => some (-2 ^ 31, 2 ^ 31 - 1)
  | .uint32 => some (0, 2 ^ 32 - 1)
  | .int64 => some (-2 ^ 63, 2 ^ 63 - 1)
  | .uint64 => some (0, 2 ^ 64 - 1)
  | _ => none

namespace VarValue

variable (v : VarValue) (datatype : DataType)

def cannot : String := s!"cannot convert a {v.kind.name} value to {datatypeName datatype}"

def convertNumber (number : Int) : Except String Value :=
  match datatype with
  | .bool => .ok (.bool (number != 0))
  | .float32 => .ok (.number (Binary64.widen (Binary64.narrow (Binary64.ofInt number))))
  | .float64 => .ok (.number (Binary64.ofInt number))
  | .string => .ok (.text (toString number))
  | datatype =>
    match integerRange datatype with
    | none => .error (v.cannot datatype)
    | some (low, high) =>
      if number < low ∨ number > high then
        .error s!"{v.kind.name} value {number} is out of range for {datatypeName datatype}"
      else if number.natAbs > 2 ^ 53 - 1 then .ok (.text (toString number))
      else .ok (.number (Binary64.ofInt number))

def convert : Except String Value :=
  match v.decoded with
  | .signed n => v.convertNumber datatype n.toInt
  | .unsigned n => v.convertNumber datatype n.toNat
  | .oid arcs =>
    if datatype = .string then .ok (.text (dotted arcs)) else .error (v.cannot datatype)
  | .ipAddress addr =>
    if datatype = .string then .ok (.text (dottedIp addr)) else .error (v.cannot datatype)
  | .octets =>
    if v.kind = .octetString ∧ datatype = .string then
      match String.fromUTF8? (ByteArray.mk v.raw.toArray) with
      | some s => .ok (.text s)
      | none => .error "OCTET STRING is not valid UTF-8; read it with mode = \"raw\""
    else .error (v.cannot datatype)

end VarValue

/-! ## Messages -/

inductive Version where
  | v1
  | v2c
  | v3
deriving DecidableEq

inductive MessageType where
  | getRequest
  | getNextRequest
  | getBulkRequest
  | response
  | setRequest
  | informRequest
  | trap
  | report
  | trapV1
deriving DecidableEq

/-- What `Debug` prints. -/
def MessageType.debug : MessageType → String
  | .getRequest => "GetRequest"
  | .getNextRequest => "GetNextRequest"
  | .getBulkRequest => "GetBulkRequest"
  | .response => "Response"
  | .setRequest => "SetRequest"
  | .informRequest => "InformRequest"
  | .trap => "Trap"
  | .report => "Report"
  | .trapV1 => "TrapV1"

/-- The header of an SNMPv1 trap. -/
structure V1TrapInfo where
  /-- `Oid::from_library` of the enterprise. -/
  enterprise : Except String Oid
  genericTrap : Int64
  specificTrap : Int64
  agentAddr : IpAddr
  timestamp : UInt32

/-- A message as the library parses it. -/
structure Pdu where
  /-- Nothing where the library knows no version. -/
  version : Option Version
  community : List UInt8
  messageType : MessageType
  reqId : Int32
  errorStatus : UInt32
  errorIndex : UInt32
  v1TrapInfo : Option V1TrapInfo
  varbinds : List (Except String Varbind)

inductive PduKind where
  | trap
  | inform
deriving DecidableEq

structure Notification where
  version : Version
  /-- The community, or the name of the user. -/
  community : List UInt8
  pdu : PduKind
  requestId : Option Int
  agentAddr : Option UInt32
  uptime : Option UInt32
  trap : Oid
  varbinds : List Varbind
deriving DecidableEq

def MAX_VARBINDS : Nat := 256

def MAX_ARCS : Nat := 128

def SYS_UPTIME : Oid := [1, 3, 6, 1, 2, 1, 1, 3, 0]

def SNMP_TRAP_OID : Oid := [1, 3, 6, 1, 6, 3, 1, 1, 4, 1, 0]

def SNMP_TRAP_ADDRESS : Oid := [1, 3, 6, 1, 6, 3, 18, 1, 3, 0]

def GENERIC_TRAPS : Oid := [1, 3, 6, 1, 6, 3, 1, 1, 5]

def Notification.trapAddress (n : Notification) : Option IpAddr :=
  match n.varbinds.reverse.find? (·.name == SNMP_TRAP_ADDRESS) with
  | some { name := _, value := { kind := _, raw := _, decoded := .ipAddress addr } } =>
    some (.v4 addr)
  | _ => none

/-- The varbinds of a message, converted one after the other up to the limit. -/
def takeVarbinds : List Varbind → List (Except String Varbind) → Except String (List Varbind)
  | taken, [] => .ok taken
  | taken, varbind :: rest =>
    if taken.length = MAX_VARBINDS then .error s!"more than {MAX_VARBINDS} varbinds"
    else
      match varbind with
      | .ok v => takeVarbinds (taken ++ [v]) rest
      | .error e => .error e

/-- `Oid::parse` of arcs in dotted decimal. -/
def parseArcs (arcs : Oid) : Except String Oid :=
  let text := dotted arcs
  if arcs.length < 2 then .error s!"OID '{text}' needs at least two arcs"
  else if arcs.length > MAX_ARCS then .error s!"OID '{text}' has more than {MAX_ARCS} arcs"
  else
    let first := arcs.getD 0 0
    if first > 2 then .error s!"OID '{text}' must start with 0, 1 or 2"
    else if arcs.getD 1 0 > (if first = 2 then 4294967295 - 80 else 39) then
      .error s!"OID '{text}' has a second arc out of range"
    else .ok arcs

def v1Trap (v1 : V1TrapInfo) : Except String Oid :=
  let generic := v1.genericTrap.toInt
  if 0 ≤ generic ∧ generic ≤ 5 then .ok (GENERIC_TRAPS ++ [UInt32.ofNat (generic.toNat + 1)])
  else if generic = 6 then
    let specific := v1.specificTrap.toInt
    if specific < 0 ∨ specific ≥ 2 ^ 32 then
      .error "specific-trap is not a 32-bit unsigned integer"
    else do
      let enterprise ← v1.enterprise
      let arcs := enterprise ++ [0, UInt32.ofNat specific.toNat]
      if arcs.length > MAX_ARCS then .error "trap OID has too many arcs" else .ok arcs
  else .error "generic-trap out of range"

/-- The kind of a message that is a notification. -/
def kindOf (pdu : Pdu) (version : Version) : Except String PduKind :=
  match version, pdu.messageType with
  | .v1, .trapV1 => .ok .trap
  | .v1, _ => .error "SNMPv1 message is not a Trap-PDU"
  | _, .trap => .ok .trap
  | _, .informRequest => .ok .inform
  | _, _ => .error "not a notification PDU"

def fromPdu (pdu : Pdu) (version : Version) : Except String Notification := do
  let kind ← kindOf pdu version
  let varbinds ← takeVarbinds [] pdu.varbinds
  match pdu.v1TrapInfo with
  | some v1 =>
    let trap ← v1Trap v1
    match v1.agentAddr with
    | .v6 _ => .error "agent-addr is not IPv4"
    | .v4 agent =>
      let trap ← parseArcs trap
      return { version, community := pdu.community, pdu := kind, requestId := none,
               agentAddr := some agent, uptime := some v1.timestamp, trap, varbinds }
  | none =>
    match varbinds.find? (·.name == SNMP_TRAP_OID) with
    | none => .error "notification has no snmpTrapOID.0"
    | some named =>
      match named.value.decoded with
      | .oid trap =>
        let uptime := (varbinds.find? (·.name == SYS_UPTIME)).bind fun v =>
          match v.value.kind, v.value.decoded with
          | .timeTicks, .unsigned t => if t.toNat < 2 ^ 32 then some t.toUInt32 else none
          | _, _ => none
        return { version, community := pdu.community, pdu := kind,
                 requestId := some pdu.reqId.toInt, agentAddr := none, uptime, trap, varbinds }
      | _ => .error "snmpTrapOID.0 is not an OID"

/-- The kind of a notification is that of its PDU. -/
theorem kindOf_of_fromPdu {pdu : Pdu} {version : Version} {n : Notification}
    (h : fromPdu pdu version = .ok n) : kindOf pdu version = .ok n.pdu := by
  unfold fromPdu at h
  obtain ⟨kind, hkind, h⟩ := bind_ok h
  obtain ⟨varbinds, -, h⟩ := bind_ok h
  rw [hkind]
  split at h
  · obtain ⟨trap, -, h⟩ := bind_ok h
    split at h
    · cases h
    · obtain ⟨arcs, -, h⟩ := bind_ok h
      cases h
      rfl
  · split at h
    · cases h
    · split at h
      · cases h
        rfl
      · cases h

/-! ## Samples -/

inductive PointKind where
  | object
  | trap (traps : List Oid)
  | varbind (traps : List Oid) (oid : Oid)

/-- A point, as far as notifications use it. -/
structure Point where
  id : String
  kind : PointKind
  mode : Mode
  datatype : Option DataType
  unit : Option String
  transform : Value → Value

def Point.traps (p : Point) : List Oid :=
  match p.kind with
  | .trap traps | .varbind traps _ => traps
  | .object => []

/-- The `addr` of a sample. -/
structure Addr where
  source : IpAddr
  version : Version
  pdu : PduKind
  trap : Oid
  oid : Option Oid
  forwarder : Option IpAddr
  agentAddr : Option UInt32

def address (n : Notification) (source : IpAddr) (forwarder : Option IpAddr)
    (varbind : Option Oid) : Addr :=
  { source, version := n.version, pdu := n.pdu, trap := n.trap, oid := varbind, forwarder,
    agentAddr := n.agentAddr }

structure Sample where
  ts : Nat
  device : String
  point : String
  mode : Mode
  datatype : Option DataType
  value : Option Value
  raw : List UInt8
  quality : Quality
  unit : Option String
  addr : Addr
  error : Option String

def sample (device : String) (p : Point) (ts : Nat) (addr : Addr) (raw : List UInt8)
    (value : Except String Value) : Sample :=
  let (value, quality, error, datatype) := match p.mode, value with
    | .raw, .error e => (none, Quality.bad, some e, none)
    | .raw, .ok _ => (none, .good, none, none)
    | .typed, .ok v => (some v, .good, none, p.datatype)
    | .typed, .error e => (none, .bad, some e, p.datatype)
  { ts, device, point := p.id, mode := p.mode, datatype, value, raw, quality, unit := p.unit, addr,
    error }

/-- The content octets of an object identifier: seven bits in each octet. -/
def pushSubid (value : Nat) : List UInt8 :=
  let digits := (Nat.digits 128 value).reverse
  let digits := if digits.isEmpty then [0] else digits
  digits.dropLast.map (fun d => UInt8.ofNat (d + 128)) ++ digits.getLast?.toList.map UInt8.ofNat

/-- `encode`. -/
def encodeOid (arcs : Oid) : List UInt8 :=
  pushSubid ((arcs.getD 0 0).toNat * 40 + (arcs.getD 1 0).toNat) ++
    (arcs.drop 2).flatMap fun arc => pushSubid arc.toNat

/-- The sample of one point of `samples_for`. -/
def sampleFor (device : String) (n : Notification) (source : IpAddr) (forwarder : Option IpAddr)
    (ts : Nat) (p : Point) : Option Sample :=
  match p.kind with
  | .object => none
  | .trap _ =>
    let value := match p.datatype with
      | some .bool => Value.bool true
      | _ => .text (dotted n.trap)
    some (sample device p ts (address n source forwarder none) (encodeOid n.trap) (.ok value))
  | .varbind _ oid =>
    match n.varbinds.find? fun v => oid.isPrefixOf v.name with
    | some vb =>
      -- a raw point never runs the typed conversion
      let value := match p.mode, p.datatype with
        | .raw, some _ => .ok (.bool false)
        | .typed, some datatype => (vb.value.convert datatype).map p.transform
        | _, none => .ok (.bool false)
      some (sample device p ts (address n source forwarder (some vb.name)) vb.value.raw value)
    | none =>
      some (sample device p ts (address n source forwarder none) []
        (.error s!"notification {dotted n.trap} carried no varbind under {dotted oid}"))

def samplesFor (device : String) (points : List Point) (n : Notification) (source : IpAddr)
    (forwarder : Option IpAddr) (ts : Nat) : List Sample :=
  (points.filter fun p => p.traps.any (·.isPrefixOf n.trap)).filterMap
    (sampleFor device n source forwarder ts)

end TedgeDot.Snmp
