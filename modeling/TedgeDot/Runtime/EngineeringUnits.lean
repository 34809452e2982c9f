import TedgeDot.Map.WriteBack
import TedgeDot.Sdk.Config

/-!
# Engineering units and raw units

A write request carries engineering units: the SDK maps its value back through the point's value
map and its transform before a connector sees it (`raw_unit_request`). A request with raw octets
is handed on as it is. The connectors choose for themselves which member of a request they encode:
five of them take the octets where there are any, AVEVA PI takes the value, and OPC UA knows
nothing else, so a request with both members reaches those two with a value nobody mapped back.
-/

namespace TedgeDot.EngineeringUnits

open Map (ValueMap)

/-! ## Transforms -/

/-- Why `Transform::invert` has no raw value. -/
inductive InvertError where
  | notInvertible (multiplierZero : Bool)
  | notFinite
deriving DecidableEq

def Transform.isIdentity (t : Transform) : Bool :=
  t.multiplier == 1.0 && t.divisor == 1.0 && t.decimalShift == 0 && t.offset == 0.0

section Inverse

-- `10f64.powi`, whose rounding the standard library leaves open
variable (powi : Int → Float)

def Transform.invert (t : Transform) (value : Value) : Except InvertError Value :=
  match value with
  | .number n =>
    if t.isIdentity then .ok value
    else
      let divisor := if t.divisor == 0.0 then 1.0 else t.divisor
      let scale := t.multiplier * powi t.decimalShift
      if scale == 0.0 || !scale.isFinite then .error (.notInvertible (t.multiplier == 0.0))
      else
        let raw := (n - t.offset) * divisor / scale
        if raw.isFinite then .ok (.number raw) else .error .notFinite
  | other => .ok other

/-- `integer_json`: a whole double as a JSON integer where 64 bits hold it. -/
def integerJson (n : Float) : Json :=
  if 0.0 ≤ n ∧ n < 18446744073709551616.0 then .number (.posInt n.toUInt64)
  else if -9223372036854775808.0 ≤ n ∧ n < 0.0 then .number (.negInt n.toInt64)
  else .number (.float n)

/-! ## Requests -/

/-- `PointRef`, with the point's value map. -/
structure Point where
  id : String
  mode : Mode := .typed
  datatype : Option DataType := none
  access : Access := .readWrite
  transform : Transform := {}
  valueMap : Option ValueMap := none

structure CommandRequest where
  point : String
  value : Option Json := none
  valueRepr : Option String := none
  raw : Option String := none

inductive WriteError where
  | unmapped (point : String) (e : Map.InvertError)
  | untransformed (point : String) (e : InvertError)
  /-- `ConnectorError`, by its text. -/
  | connector (reason : String)

/-- The raw JSON number of an inverted one. -/
def rawNumber (datatype : Option DataType) (raw : Float) : Json :=
  if datatype.any DataType.isInteger then integerJson raw.round
  else (Value.number raw).toJson

def CommandRequest.toRawUnits (r : CommandRequest) (p : Point) : Except WriteError CommandRequest :=
  match r.value with
  | some (.number n) =>
    if r.raw.isNone && p.mode == .typed && !p.transform.isIdentity then
      match p.transform.invert powi (.number n.asF64) with
      | .ok (.number raw) => .ok { r with value := some (rawNumber p.datatype raw) }
      | .ok _ => .ok r
      | .error e => .error (.untransformed p.id e)
    else .ok r
  | _ => .ok r

-- `Value::to_string` of `serde_json`, of what is no scalar
variable (compact : Json → String)

/-- `raw_unit_request`, for a point of the configuration. -/
def rawUnitRequest (p : Point) (r : CommandRequest) : Except WriteError CommandRequest :=
  if !p.access.canWrite then .ok r
  else
    match p.valueMap, r.value with
    | some map, some value =>
      if r.raw.isNone && p.mode == .typed then
        match map.invert compact value p.datatype with
        | .ok deviceValue =>
          CommandRequest.toRawUnits powi { r with value := some deviceValue, valueRepr := none } p
        | .error e => .error (.unmapped p.id e)
      else r.toRawUnits powi p
    | _, _ => r.toRawUnits powi p

/-! ## The inverse of a point -/

/-- The inverse of a point's value map. -/
def unmap (p : Point) (value : Json) : Except WriteError Json :=
  match p.valueMap with
  | some map =>
    if p.mode == .typed then
      match map.invert compact value p.datatype with
      | .ok deviceValue => .ok deviceValue
      | .error e => .error (.unmapped p.id e)
    else .ok value
  | none => .ok value

/-- The inverse of a point's transform: a number of a typed point goes through it, and everything
else is left alone, as `apply` leaves it. -/
def untransform (p : Point) (value : Json) : Except WriteError Json :=
  match value with
  | .number n =>
    if p.mode == .typed && !p.transform.isIdentity then
      match p.transform.invert powi (.number n.asF64) with
      | .ok (.number raw) => .ok (rawNumber p.datatype raw)
      | .ok _ => .ok value
      | .error e => .error (.untransformed p.id e)
    else .ok value
  | _ => .ok value

/-- The raw units of a value in engineering units: the map's inverse, then the transform's. -/
def inverse (p : Point) (value : Json) : Except WriteError Json :=
  match unmap compact p value with
  | .error e => .error e
  | .ok value => untransform powi p value

end Inverse

/-! ## The connectors -/

/-- What a connector encodes of a request. -/
inductive Sent where
  | octets (raw : String)
  | value (v : Json)

/-- The connectors with writable points. -/
inductive Connector where
  | modbus
  | canopen
  | canbus
  | profibus
  | snmp
  | avevaPi
  | opcua
deriving DecidableEq

/-- What a connector knows of a point and its device besides the SDK's settings: whether the point
is of a kind that takes writes (a writable table, an output, an SNMP object of a known type), is a
single coil or a bit field, the device is connected, and the encoder, for what the device holds,
takes what is encoded. -/
structure Device where
  writable : Bool := true
  coil : Bool := false
  bits : Bool := false
  connected : Bool := true
  encodes : Sent → Bool

def Device.encode (d : Device) (sent : Sent) : Except String Sent :=
  if d.encodes sent then .ok sent else .error "decode error"

/-- `execute` and `write_point` of the Modbus connector. -/
def modbusWrite (d : Device) (p : Point) (r : CommandRequest) : Except String Sent :=
  if !p.access.canWrite || !d.writable then .error "access denied"
  else if !d.connected then .error "not connected"
  else if d.coil then
    match r.raw with
    | some raw => d.encode (.octets raw)
    | none =>
      match r.value with
      | some (.bool b) => d.encode (.value (.bool b))
      | some (.number n) => d.encode (.value (.number n))
      | _ => .error "coil write needs a boolean"
  else
    match r.raw with
    | some raw => d.encode (.octets raw)
    | none =>
      match p.datatype with
      | none => .error "typed write needs a datatype"
      | some _ =>
        match r.value.bind fun v => (Connector.jsonToValue v).map fun _ => v with
        | some v => d.encode (.value v)
        | none => .error "missing or invalid value"

/-- `platform_execute` of the CANopen and the CAN bus connector. -/
def canWrite (d : Device) (p : Point) (r : CommandRequest) : Except String Sent :=
  if !p.access.canWrite then .error "access denied"
  else if !d.connected then .error "not connected"
  else
    match r.raw, r.value with
    | some raw, _ => d.encode (.octets raw)
    | none, some v =>
      match p.datatype with
      | none => .error "typed write requires datatype on the point"
      | some _ => d.encode (.value v)
    | none, none => .error "write command must supply either 'value' or 'raw'"

/-- `execute` and `encode_point` of the PROFIBUS connector. A field of bits needs no datatype. -/
def profibusWrite (d : Device) (p : Point) (r : CommandRequest) : Except String Sent :=
  if !p.access.canWrite || !d.writable then .error "access denied"
  else if !d.connected then .error "not connected"
  else
    match r.raw with
    | some raw => d.encode (.octets raw)
    | none =>
      match r.value.bind fun v => (Connector.jsonToValue v).map fun _ => v with
      | none => .error "missing or invalid value"
      | some v =>
        if d.bits then d.encode (.value v)
        else
          match p.datatype with
          | none => .error "typed write requires a datatype"
          | some _ => d.encode (.value v)

/-- `execute` and `encode_write` of the SNMP connector. -/
def snmpWrite (d : Device) (p : Point) (r : CommandRequest) : Except String Sent :=
  if !d.writable then .error "a notification point cannot be written"
  else if !p.access.canWrite then .error "access denied"
  else
    match r.raw with
    | some raw => d.encode (.octets raw)
    | none =>
      match r.value with
      | some v => d.encode (.value v)
      | none => .error "a write needs `value` or `raw`"

/-- `execute` of the AVEVA PI connector. -/
def avevaPiWrite (d : Device) (p : Point) (r : CommandRequest) : Except String Sent :=
  if !p.access.canWrite then .error "access denied"
  else if !d.connected then .error "not connected"
  else
    match r.value, r.raw with
    | some v, _ => d.encode (.value v)
    | none, some raw => d.encode (.octets raw)
    | none, none => .error "the write has no value"

/-- `execute` of the OPC UA connector, up to `build_variant`. -/
def opcuaWrite (d : Device) (p : Point) (r : CommandRequest) : Except String Sent :=
  if !p.access.canWrite then .error "access denied"
  else
    match p.datatype with
    | none => .error "write requires a point datatype"
    | some _ =>
      match r.value with
      | none => .error "write requires a value"
      | some v => if d.connected then d.encode (.value v) else .error "not connected"

/-- `Connector::execute` with `write`. -/
def Connector.write (c : Connector) (d : Device) (p : Point) (r : CommandRequest) :
    Except String Sent :=
  match c with
  | .modbus => modbusWrite d p r
  | .canopen => canWrite d p r
  | .canbus => canWrite d p r
  | .profibus => profibusWrite d p r
  | .snmp => snmpWrite d p r
  | .avevaPi => avevaPiWrite d p r
  | .opcua => opcuaWrite d p r

/-- `execute_write`, up to what the connector encodes. -/
def executeWrite (powi : Int → Float) (compact : Json → String) (c : Connector) (d : Device)
    (p : Point) (r : CommandRequest) : Except WriteError Sent :=
  match rawUnitRequest powi compact p r with
  | .error e => .error e
  | .ok raw =>
    match c.write d p raw with
    | .error e => .error (.connector e)
    | .ok sent => .ok sent

/-! ## Which member is encoded -/

/-- The connectors that take the value of a request with both members. -/
def Connector.takesValue : Connector → Bool
  | .avevaPi => true
  | .opcua => true
  | _ => false

def only (point : String) : Sent → CommandRequest
  | .octets raw => { point, raw := some raw }
  | .value v => { point, value := some v }

section Choice

variable {c : Connector} {d : Device} {p : Point} {r : CommandRequest}

theorem write_of_raw (hc : c.takesValue = false) {raw : String} (hraw : r.raw = some raw) :
    c.write d p r = c.write d p (only r.point (.octets raw)) := by
  obtain ⟨point, value, repr, raw'⟩ := r
  obtain rfl : raw' = some raw := hraw
  cases c with
  | avevaPi => cases hc
  | opcua => cases hc
  | _ => rfl

theorem write_of_value (hraw : r.raw = none ∨ c.takesValue = true) {v : Json}
    (hvalue : r.value = some v) : c.write d p r = c.write d p (only r.point (.value v)) := by
  obtain ⟨point, value, repr, raw⟩ := r
  obtain rfl : value = some v := hvalue
  rcases hraw with hraw | hc
  · obtain rfl : raw = none := hraw
    cases c <;> rfl
  · cases c with
    | avevaPi => rfl
    | opcua => rfl
    | _ => cases hc

theorem write_of_neither (hraw : r.raw = none) (hvalue : r.value = none) (sent : Sent) :
    c.write d p r ≠ .ok sent := by
  obtain ⟨point, value, repr, raw⟩ := r
  obtain rfl : raw = none := hraw
  obtain rfl : value = none := hvalue
  cases c <;>
    simp only [Connector.write, modbusWrite, EngineeringUnits.canWrite, profibusWrite, snmpWrite,
      avevaPiWrite, opcuaWrite, Option.bind_none] <;>
    repeat' split
  all_goals simp

theorem opcua_of_raw (hvalue : r.value = none) (sent : Sent) :
    Connector.opcua.write d p r ≠ .ok sent := by
  simp only [Connector.write, opcuaWrite, hvalue]
  repeat' split
  all_goals simp

theorem encode_ok {sent sent' : Sent} (h : d.encode sent = .ok sent') : sent' = sent := by
  unfold Device.encode at h
  split at h
  · exact (Except.ok.inj h).symm
  · cases h

/-- A plain write sends what it is given. -/
theorem sent_of_only {point : String} {sent sent' : Sent}
    (h : c.write d p (only point sent) = .ok sent') : sent' = sent := by
  cases sent with
  | octets raw =>
    cases c <;>
      simp only [Connector.write, only, modbusWrite, EngineeringUnits.canWrite, profibusWrite,
        snmpWrite, avevaPiWrite, opcuaWrite] at h <;>
      repeat' split at h
    all_goals first
      | exact encode_ok h
      | cases h
  | value v =>
    cases v <;> cases c <;>
      simp only [Connector.write, only, modbusWrite, EngineeringUnits.canWrite, profibusWrite,
        snmpWrite, avevaPiWrite, opcuaWrite, Option.bind_some, TedgeDot.Connector.jsonToValue,
        Option.map_some, Option.map_none] at h <;>
      repeat' split at h
    all_goals first
      | exact encode_ok h
      | cases h

theorem write_denied (haccess : p.access.canWrite = false) (sent : Sent) :
    c.write d p r ≠ .ok sent := by
  cases c <;> cases hwritable : d.writable <;>
    simp [Connector.write, modbusWrite, EngineeringUnits.canWrite, profibusWrite, snmpWrite,
      avevaPiWrite, opcuaWrite, haccess, hwritable]

end Choice

/-! ## What the SDK hands on -/

section Sdk

variable {powi : Int → Float} {compact : Json → String} {p : Point} {r : CommandRequest}

theorem rawUnitRequest_of_raw {raw : String} (hraw : r.raw = some raw) :
    rawUnitRequest powi compact p r = .ok r := by
  have hunits : r.toRawUnits powi p = .ok r := by
    unfold CommandRequest.toRawUnits
    split
    · simp [hraw]
    · rfl
  unfold rawUnitRequest
  split
  · rfl
  · split
    · simp [hraw, hunits]
    · exact hunits

/-- A value in units becomes a value in the device's own. -/
theorem rawUnitRequest_of_value (haccess : p.access.canWrite = true) (hraw : r.raw = none) {v : Json}
    (hvalue : r.value = some v) {r' : CommandRequest}
    (h : rawUnitRequest powi compact p r = .ok r') :
    r'.raw = none ∧ ∃ v', r'.value = some v' ∧ inverse powi compact p v = .ok v' := by
  obtain ⟨point, value, repr, raw⟩ := r
  obtain rfl : raw = none := hraw
  obtain rfl : value = some v := hvalue
  -- the transform, on whatever value the map's inverse left
  have hunits {w : Json} {repr : Option String} {r' : CommandRequest}
      (h : CommandRequest.toRawUnits powi ⟨point, some w, repr, none⟩ p = .ok r') :
      r'.raw = none ∧ ∃ v', r'.value = some v' ∧ untransform powi p w = .ok v' := by
    unfold CommandRequest.toRawUnits at h
    unfold untransform
    cases w with
    | number n =>
      simp only [Option.isNone_none, Bool.true_and] at h ⊢
      split at h
      · rename_i hscaled
        rw [if_pos hscaled]
        split at h
        · obtain rfl := Except.ok.inj h
          exact ⟨rfl, _, rfl, rfl⟩
        · obtain rfl := Except.ok.inj h
          exact ⟨rfl, _, rfl, rfl⟩
        · cases h
      · rename_i hscaled
        obtain rfl := Except.ok.inj h
        rw [if_neg hscaled]
        exact ⟨rfl, _, rfl, rfl⟩
    | _ =>
      obtain rfl := Except.ok.inj h
      exact ⟨rfl, _, rfl, rfl⟩
  unfold rawUnitRequest at h
  rw [haccess] at h
  simp only [Bool.not_true, Bool.false_eq_true, if_false, Option.isNone_none, Bool.true_and] at h
  unfold inverse unmap
  cases hmap : p.valueMap with
  | none =>
    rw [hmap] at h
    exact hunits h
  | some map =>
    rw [hmap] at h
    dsimp only at h ⊢
    by_cases htyped : (p.mode == .typed) = true
    · rw [if_pos htyped] at h ⊢
      cases hinvert : map.invert compact v p.datatype with
      | error e =>
        rw [hinvert] at h
        cases h
      | ok deviceValue =>
        rw [hinvert] at h
        exact hunits h
    · rw [if_neg htyped] at h ⊢
      exact hunits h

theorem rawUnitRequest_of_neither (hvalue : r.value = none) :
    rawUnitRequest powi compact p r = .ok r := by
  have hunits : r.toRawUnits powi p = .ok r := by
    unfold CommandRequest.toRawUnits
    rw [hvalue]
  unfold rawUnitRequest
  split
  · rfl
  · rw [hvalue]
    split
    · rename_i heq
      cases heq
    · exact hunits

end Sdk

/-! ## The law -/

/-- What is encoded of a request is honest: the octets of a request that has them, and the value
of any other after the inverse of the point's map and transform. -/
def Honest (powi : Int → Float) (compact : Json → String) (p : Point) (r : CommandRequest)
    (sent : Sent) : Prop :=
  match r.raw with
  | some raw => sent = .octets raw
  | none => ∃ v v', r.value = some v ∧ inverse powi compact p v = .ok v' ∧ sent = .value v'

/-- A request with both members, to a connector that takes its value and would write it. -/
def Mixed (c : Connector) (d : Device) (p : Point) (r : CommandRequest) : Prop :=
  c.takesValue = true ∧ r.raw.isSome = true ∧
    ∃ v, r.value = some v ∧ c.write d p (only r.point (.value v)) = .ok (.value v)

/-- **Engineering units are never sent as raw units**, for every connector, point and request,
unless the request has both members and goes to AVEVA PI or OPC UA. -/
theorem units_kept_iff (powi : Int → Float) (compact : Json → String) (c : Connector) (d : Device)
    (p : Point) (r : CommandRequest) :
    (∀ sent, executeWrite powi compact c d p r = .ok sent → Honest powi compact p r sent) ↔
      ¬ Mixed c d p r := by
  unfold Honest
  cases hraw : r.raw with
  | some raw =>
    have hexecute (sent : Sent) :
        executeWrite powi compact c d p r = .ok sent ↔ c.write d p r = .ok sent := by
      unfold executeWrite
      rw [rawUnitRequest_of_raw hraw]
      dsimp only
      cases c.write d p r <;> simp
    simp only [hexecute]
    cases hc : c.takesValue with
    | false =>
      -- the octets are taken, so the value is never looked at
      refine ⟨fun _ hmixed => ?_, fun _ sent hsent => ?_⟩
      · rw [Mixed, hc] at hmixed
        exact Bool.false_ne_true hmixed.1
      · rw [write_of_raw hc hraw] at hsent
        exact sent_of_only hsent
    | true =>
      cases hvalue : r.value with
      | some v =>
        rw [write_of_value (.inr hc) hvalue]
        constructor
        · intro hhonest hmixed
          obtain ⟨-, -, v', hv', hwrites⟩ := hmixed
          obtain rfl := Option.some.inj (hvalue.symm.trans hv')
          cases hhonest _ hwrites
        · intro hmixed sent hsent
          obtain rfl := sent_of_only hsent
          exact absurd ⟨hc, by rw [hraw]; rfl, v, hvalue, hsent⟩ hmixed
      | none =>
        refine ⟨fun _ hmixed => ?_, fun _ sent hsent => ?_⟩
        · obtain ⟨-, -, v, hv, -⟩ := hmixed
          rw [hvalue] at hv
          cases hv
        · cases c with
          | avevaPi =>
            obtain ⟨point, value, repr, raw'⟩ := r
            obtain rfl : raw' = some raw := hraw
            obtain rfl : value = none := hvalue
            exact sent_of_only
              (show Connector.avevaPi.write d p (only point (.octets raw)) = .ok sent from hsent)
          | opcua => exact absurd hsent (opcua_of_raw hvalue sent)
          | _ => cases hc
  | none =>
    refine ⟨fun _ hmixed => ?_, fun _ sent hsent => ?_⟩
    · rw [Mixed, hraw] at hmixed
      cases hmixed.2.1
    · unfold executeWrite at hsent
      cases hunits : rawUnitRequest powi compact p r with
      | error e =>
        rw [hunits] at hsent
        cases hsent
      | ok r' =>
        rw [hunits] at hsent
        dsimp only at hsent
        cases hwrite : c.write d p r' with
        | error e =>
          rw [hwrite] at hsent
          cases hsent
        | ok sent' =>
          rw [hwrite] at hsent
          obtain rfl := Except.ok.inj hsent
          cases haccess : p.access.canWrite with
          | false => exact absurd hwrite (write_denied haccess sent')
          | true =>
            cases hvalue : r.value with
            | none =>
              rw [rawUnitRequest_of_neither hvalue] at hunits
              obtain rfl := Except.ok.inj hunits
              exact absurd hwrite (write_of_neither hraw hvalue sent')
            | some v =>
              obtain ⟨hraw', v', hv', hinverse⟩ := rawUnitRequest_of_value haccess hraw hvalue hunits
              rw [write_of_value (.inl hraw') hv'] at hwrite
              exact ⟨v, v', rfl, hinverse, sent_of_only hwrite⟩

/-! ### A request with both members -/

/-- A temperature in tenths of a degree. -/
def tenths : Point where
  id := "temp"
  datatype := some .float64
  transform := { multiplier := 0.1 }

/-- 21.5 degrees, and the octets of something else. -/
def bothMembers : CommandRequest where
  point := "temp"
  value := some (.number (.float 21.5))
  raw := some "00"

def willing : Device where
  encodes _ := true

/-- OPC UA writes 21.5 where the device counts tenths. -/
theorem degrees_sent_as_tenths :
    executeWrite (fun _ => 1.0) (fun _ => "") .opcua willing tenths bothMembers =
        .ok (.value (.number (.float 21.5))) ∧
      ¬ ∀ sent, executeWrite (fun _ => 1.0) (fun _ => "") .opcua willing tenths bothMembers =
        .ok sent → Honest (fun _ => 1.0) (fun _ => "") tenths bothMembers sent := by
  refine ⟨rfl, fun hhonest => ?_⟩
  have hocts : Sent.value (.number (.float 21.5)) = .octets "00" := hhonest _ rfl
  cases hocts

end TedgeDot.EngineeringUnits
