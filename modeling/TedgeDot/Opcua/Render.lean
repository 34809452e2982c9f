import TedgeDot.Opcua.Reader

/-!
# Rendering a decoded value

`structure.rs`: a decoded value as the point's datatype, with its `raw` bytes: big-endian for the
numeric forms, the UTF-8 of the text forms, the bytes themselves for a ByteString.
-/

namespace TedgeDot.Opcua

open Binary64

/-- Ticks (100 ns) between the OPC UA epoch (1601-01-01) and the Unix epoch. -/
def UNIX_EPOCH_TICKS : Int := 116444736000000000

def MAX_TICKS : Int := 2650467743999999999

def MAX_SAFE_INT : Int := 9007199254740991

/-! ## Texts -/

/-- `{n:0width}` of a number that is not negative. -/
def padded (width : Nat) (n : Int) : String :=
  let digits := Nat.toDigits 10 n.toNat
  String.ofList (List.replicate (width - digits.length) '0' ++ digits)

def hex (bytes : List UInt8) : String :=
  String.ofList (bytes.flatMap fun b => [Nat.digitChar (b.toNat / 16), Nat.digitChar (b.toNat % 16)])

/-- `civil_from_days`. The day is far within the range of an `i64`. -/
def civilFromDays (z : Int) : Int × Int × Int :=
  let z := z + 719468
  let era := z / 146097
  let doe := z % 146097
  let yoe := (doe - doe / 1460 + doe / 36524 - doe / 146096) / 365
  let doy := doe - (365 * yoe + yoe / 4 - yoe / 100)
  let mp := (5 * doy + 2) / 153
  let d := doy - (153 * mp + 2) / 5 + 1
  let m := if mp < 10 then mp + 3 else mp - 9
  let y := yoe + era * 400 + if m ≤ 2 then 1 else 0
  (y, m, d)

/-- `datetime_text`: RFC 3339 UTC with up to 7 fraction digits, of clamped ticks. -/
def datetimeText (ticks : Int) : String :=
  let secs := ticks / 10000000 - UNIX_EPOCH_TICKS / 10000000
  let frac := ticks % 10000000
  let (y, mo, d) := civilFromDays (secs / 86400)
  let sod := secs % 86400
  let date := padded 4 y ++ "-" ++ padded 2 mo ++ "-" ++ padded 2 d
  let time := padded 2 (sod / 3600) ++ ":" ++ padded 2 (sod / 60 % 60) ++ ":" ++ padded 2 (sod % 60)
  let fraction :=
    if frac ≠ 0 then
      "." ++ String.ofList ((padded 7 frac).toList.reverse.dropWhile (· == '0')).reverse
    else ""
  date ++ "T" ++ time ++ fraction ++ "Z"

/-- `guid_text`: the first three numbers are little-endian. -/
def guidText (g : List UInt8) : String :=
  hex (g.take 4).reverse ++ "-" ++ hex ((g.drop 4).take 2).reverse ++ "-" ++
    hex ((g.drop 6).take 2).reverse ++ "-" ++ hex ((g.drop 8).take 2) ++ "-" ++
    hex ((g.drop 10).take 6)

def base64Alphabet : List Char :=
  "ABCDEFGHIJKLMNOPQRSTUVWXYZabcdefghijklmnopqrstuvwxyz0123456789+/".toList

/-- The four characters of up to three bytes. -/
def base64Chunk (chunk : List UInt8) : List Char :=
  let n := fromBeBytes chunk * 256 ^ (3 - chunk.length)
  (List.range 4).map fun i =>
    if i ≤ chunk.length then (base64Alphabet[n / 64 ^ (3 - i) % 64]?).getD '=' else '='

def base64Chunks : List UInt8 → List Char
  | a :: b :: c :: rest => base64Chunk [a, b, c] ++ base64Chunks rest
  | [] => []
  | chunk => base64Chunk chunk

def base64 (bytes : List UInt8) : String := String.ofList (base64Chunks bytes)

def identifierText : Identifier → String
  | .numeric n => s!"i={n.toNat}"
  | .string s => "s=" ++ s.getD ""
  | .guid g => "g=" ++ guidText g
  | .bytes b => "b=" ++ base64 (b.getD [])

/-- `node_id_text`, with `nsu=<uri>;` for a namespace other than 0 that the server lists. -/
def nodeIdText (n : NodeId) (namespaces : List String) : String :=
  let pre :=
    if n.ns = 0 then ""
    else
      match namespaces[n.ns.toNat]? with
      | some uri => s!"nsu={uri};"
      | none => s!"ns={n.ns.toNat};"
  pre ++ identifierText n.id

/-! ## Values -/

/-- `int64_value`. The magnitude of the least `i64` is not an `i64`. -/
def int64Value (i : Int64) : Except (Fault String) Value :=
  if i = Int64.minValue then .error .panic
  else if (i.toInt.natAbs : Int) ≤ MAX_SAFE_INT then .ok (.number (ofInt i.toInt))
  else .ok (.text (toString i.toInt))

def uint64Value (u : UInt64) : Value :=
  if (u.toNat : Int) ≤ MAX_SAFE_INT then .number (ofInt u.toNat) else .text (toString u.toNat)

/-- A text, whose `raw` bytes are its UTF-8. -/
def rendered (s : String) : Except (Fault String) (Value × List UInt8) :=
  .ok (.text s, Utf8.encode s)

section Render

-- `SubStatusCode::from_value` and `name` of the OPC UA library
variable (statusName : UInt32 → Option String)

def statusCodeText (code : UInt32) : String :=
  let digit := fun i => (Nat.digitChar (code.toNat / 16 ^ (7 - i) % 16)).toUpper
  let unnamed := "0x" ++ String.ofList ((List.range 8).map digit)
  if code &&& 0xFFFF = 0 then (statusName code).getD unnamed else unnamed

def render (dt : DataType) (namespaces : List String) :
    Scalar → Except (Fault String) (Value × List UInt8)
  | .bool b => .ok (.bool b, [if b then 1 else 0])
  | .i8 v => .ok (.number (ofInt v.toInt), toBeBytes 1 v.toUInt8.toNat)
  | .u8 v => .ok (.number (ofInt v.toNat), [v])
  | .i16 v => .ok (.number (ofInt v.toInt), toBeBytes 2 v.toUInt16.toNat)
  | .u16 v => .ok (.number (ofInt v.toNat), toBeBytes 2 v.toNat)
  | .i32 v | .enum v => .ok (.number (ofInt v.toInt), toBeBytes 4 v.toUInt32.toNat)
  | .u32 v => .ok (.number (ofInt v.toNat), toBeBytes 4 v.toNat)
  | .i64 v => do
    let value ← int64Value v
    return (value, toBeBytes 8 v.toUInt64.toNat)
  | .u64 v => .ok (uint64Value v, toBeBytes 8 v.toNat)
  | .f32 bits => .ok (.number (widen (Float32.ofBits bits)), toBeBytes 4 bits.toNat)
  | .f64 bits => .ok (.number (Float.ofBits bits), toBeBytes 8 bits.toNat)
  | .text s => rendered (s.getD "")
  | .dateTime ticks =>
    let ticks := max 0 (min ticks.toInt MAX_TICKS)
    if dt = .int64 then do
      let value ← int64Value (Int64.ofInt ((ticks - UNIX_EPOCH_TICKS) / 10000))
      return (value, toBeBytes 8 ticks.toNat)
    else rendered (datetimeText ticks)
  | .statusCode code =>
    if dt = .uint32 then .ok (.number (ofInt code.toNat), toBeBytes 4 code.toNat)
    else rendered (statusCodeText statusName code)
  | .guid g => rendered (guidText g)
  | .byteString b => .ok (.text (hex (b.getD [])), b.getD [])
  | .nodeId n => rendered (nodeIdText n namespaces)
  | .expandedNodeId node uri server =>
    let svr := if server ≠ 0 then s!"svr={server.toNat};" else ""
    match uri with
    | some uri => rendered (svr ++ s!"nsu={uri};" ++ identifierText node.id)
    | none => rendered (svr ++ nodeIdText node namespaces)
  | .qualifiedName ns name =>
    rendered (if ns = 0 then name.getD "" else s!"{ns.toNat}:" ++ name.getD "")

end Render

theorem int64Value_error {i : Int64} {e : Fault String} (h : int64Value i = .error e) :
    e = .panic ∧ i = Int64.minValue := by
  unfold int64Value at h
  split at h
  · rename_i hmin
    cases h
    exact ⟨rfl, hmin⟩
  · split at h <;> cases h

theorem millis_ne_minValue (ticks : Int) :
    Int64.ofInt ((max 0 (min ticks MAX_TICKS) - UNIX_EPOCH_TICKS) / 10000) ≠ Int64.minValue := by
  intro h
  have h := congrArg Int64.toInt h
  unfold MAX_TICKS UNIX_EPOCH_TICKS at h
  rw [Int64.toInt_ofInt_of_le (by omega) (by omega), Int64.toInt_minValue] at h
  omega

section Render

variable {statusName : UInt32 → Option String} {dt : DataType} {namespaces : List String}
  {s : Scalar}

/-- Only the least Int64 cannot be rendered. -/
theorem render_error {e : Fault String} (h : render statusName dt namespaces s = .error e) :
    e = .panic ∧ s = .i64 Int64.minValue := by
  cases s with
  | i64 v =>
    have h : (do let value ← int64Value v; return (value, toBeBytes 8 v.toUInt64.toNat)) =
      Except.error e := h
    cases hvalue : int64Value v with
    | error e' =>
      rw [hvalue] at h
      cases h
      obtain ⟨rfl, rfl⟩ := int64Value_error hvalue
      exact ⟨rfl, rfl⟩
    | ok value =>
      rw [hvalue] at h
      cases h
  | dateTime ticks =>
    simp only [render] at h
    split at h
    · cases hvalue : int64Value
          (Int64.ofInt ((max 0 (min ticks.toInt MAX_TICKS) - UNIX_EPOCH_TICKS) / 10000)) with
      | error e' => exact absurd (int64Value_error hvalue).2 (millis_ne_minValue _)
      | ok value =>
        rw [hvalue] at h
        cases h
    · cases h
  | statusCode code =>
    simp only [render] at h
    split at h <;> cases h
  | expandedNodeId node uri server =>
    cases uri <;> cases h
  | _ => cases h

theorem render_ok (h : s ≠ .i64 Int64.minValue) :
    ∃ out, render statusName dt namespaces s = .ok out := by
  cases hres : render statusName dt namespaces s with
  | ok out => exact ⟨out, rfl⟩
  | error e => exact absurd (render_error hres).2 h

theorem render_minValue :
    render statusName dt namespaces (.i64 Int64.minValue) = .error .panic := rfl

end Render

end TedgeDot.Opcua
