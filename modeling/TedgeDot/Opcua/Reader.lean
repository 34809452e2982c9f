import TedgeDot.Lib.Bytes
import TedgeDot.Lib.Reading
import TedgeDot.Lib.Utf8
import TedgeDot.Opcua.Definitions
import TedgeDot.Sdk.Codec

/-!
# Reading the binary encoding

`structure.rs`: the reader of a structure body. Every function takes the name of the field that is
read, for its messages. A value that is nested is read one level deeper, up to `MAX_DEPTH`; `frames`
are the levels that the stack holds.
-/

namespace TedgeDot.Opcua

open Reading

/-- How deep nested structures, Variants and DiagnosticInfos may go before a body is refused. -/
def MAX_DEPTH : Nat := 32

inductive Identifier where
  | numeric (n : UInt32)
  | string (s : Option String)
  | guid (g : List UInt8)
  /-- `Opaque`. -/
  | bytes (b : Option (List UInt8))
deriving DecidableEq

structure NodeId where
  ns : UInt16
  id : Identifier
deriving DecidableEq

/-- A decoded value of one of the built-in types a point can read. -/
inductive Scalar where
  | bool (b : Bool)
  | i8 (v : Int8)
  | u8 (v : UInt8)
  | i16 (v : Int16)
  | u16 (v : UInt16)
  | i32 (v : Int32)
  | u32 (v : UInt32)
  | i64 (v : Int64)
  | u64 (v : UInt64)
  /-- By its bits. -/
  | f32 (bits : UInt32)
  /-- By its bits. -/
  | f64 (bits : UInt64)
  /-- String or LocalizedText's text; nothing is the null encoding. -/
  | text (s : Option String)
  /-- 100 ns ticks since 1601-01-01. -/
  | dateTime (ticks : Int64)
  /-- The 16 bytes as encoded. -/
  | guid (g : List UInt8)
  | byteString (b : Option (List UInt8))
  | statusCode (code : UInt32)
  | nodeId (n : NodeId)
  | expandedNodeId (node : NodeId) (uri : Option String) (server : UInt32)
  | qualifiedName (ns : UInt16) (name : Option String)
  | enum (v : Int32)
deriving DecidableEq

/-! ## Primitives -/

section Primitives

variable (ctx : String)

def take (n : Nat) : Reading String (List UInt8) :=
  Reading.take s!"structure body truncated while reading \"{ctx}\"" n

def array (n : Nat) : Reading String (List UInt8) :=
  Reading.array s!"structure body truncated while reading \"{ctx}\"" n

def u8 : Reading String UInt8 :=
  Reading.byte s!"structure body truncated while reading \"{ctx}\""

def u16 : Reading String UInt16 := do
  let bytes ← array ctx 2
  pure (UInt16.ofNat (fromLeBytes bytes))

def u32 : Reading String UInt32 := do
  let bytes ← array ctx 4
  pure (UInt32.ofNat (fromLeBytes bytes))

def i32 : Reading String Int32 := do
  let v ← u32 ctx
  pure v.toInt32

def u64 : Reading String UInt64 := do
  let bytes ← array ctx 8
  pure (UInt64.ofNat (fromLeBytes bytes))

def i64 : Reading String Int64 := do
  let v ← u64 ctx
  pure v.toInt64

/-- An Int32 length prefix: -1 is null (no elements), anything below that is invalid. -/
def len : Reading String Nat := do
  let n ← i32 ctx
  if n = -1 then pure 0
  else if n < 0 then throw s!"invalid length {n.toInt} while reading \"{ctx}\""
  else pure n.toInt.toNat

/-- A length-prefixed byte run; nothing for the null encoding. -/
def bytes : Reading String (Option (List UInt8)) := do
  let n ← i32 ctx
  if n = -1 then pure none
  else if n < 0 then throw s!"invalid length {n.toInt} while reading \"{ctx}\""
  else do
    let run ← take ctx n.toInt.toNat
    pure (some run)

/-- `String::from_utf8`. -/
def utf8 (run : List UInt8) : Reading String (Option String) :=
  if Utf8.encode (Utf8.fromUtf8Lossy run) = run then pure (some (Utf8.fromUtf8Lossy run))
  else throw s!"invalid UTF-8 while reading \"{ctx}\""

def string : Reading String (Option String) := do
  let run ← bytes ctx
  match run with
  | none => pure none
  | some run => utf8 ctx run

def badEncoding (what : String) (byte : UInt8) : String :=
  let hex := String.ofList [Nat.digitChar (byte.toNat / 16), Nat.digitChar (byte.toNat % 16)]
  s!"invalid {what} encoding 0x{hex} while reading \"{ctx}\""

def deeper (depth : Nat) : Reading String Nat :=
  if depth ≥ MAX_DEPTH then throw s!"nesting too deep while reading \"{ctx}\""
  else pure (depth + 1)

end Primitives

def given {α : Type} (mask bit : UInt8) (x : Reading String α) (default : α) : Reading String α :=
  if mask &&& bit ≠ 0 then x else pure default

/-! ## Node ids -/

section NodeIds

variable (ctx : String)

/-- `node_id_body`. Only the low 6 bits of the encoding byte select the form. -/
def nodeIdBody (enc : UInt8) : Reading String NodeId :=
  match (enc &&& 0x3F).toNat with
  | 0 => do
    let n ← u8 ctx
    pure { ns := 0, id := .numeric n.toUInt32 }
  | 1 => do
    let ns ← u8 ctx
    let n ← u16 ctx
    pure { ns := ns.toUInt16, id := .numeric n.toUInt32 }
  | 2 => do
    let ns ← u16 ctx
    let n ← u32 ctx
    pure { ns, id := .numeric n }
  | 3 => do
    let ns ← u16 ctx
    let s ← string ctx
    pure { ns, id := .string s }
  | 4 => do
    let ns ← u16 ctx
    let g ← array ctx 16
    pure { ns, id := .guid g }
  | 5 => do
    let ns ← u16 ctx
    let b ← bytes ctx
    pure { ns, id := .bytes b }
  | _ => throw (badEncoding ctx "NodeId" enc)

/-- A NodeId, whose encoding byte has no flags. -/
def nodeId : Reading String NodeId := do
  let enc ← u8 ctx
  if enc &&& 0xC0 ≠ 0 then throw (badEncoding ctx "NodeId" enc) else nodeIdBody ctx enc

def expandedNodeId : Reading String Scalar := do
  let enc ← u8 ctx
  let node ← nodeIdBody ctx enc
  let uri ← given enc 0x80 (string ctx) none
  let server ← given enc 0x40 (u32 ctx) 0
  pure (.expandedNodeId node uri server)

end NodeIds

/-! ## Skipping -/

section Skipping

variable (ctx : String)

/-- The rounds of a loop that does not stop early. -/
def each (x : Reading String Unit) : Reading String Bool := do
  x
  pure true

/-- An array within a Variant: its length, and a loop over the elements. -/
def skipArray (x : Reading String Unit) : Reading String Unit := do
  let count ← len ctx
  loop count (each x)

def skipBuiltin : Nat → Nat → Builtin → Reading String Unit
  | 0, _, _ => fault .stack
  | frames + 1, depth, b =>
    match b with
    | .boolean | .sByte | .byte => drop (take ctx 1)
    | .int16 | .uint16 => drop (take ctx 2)
    | .int32 | .uint32 | .float | .statusCode => drop (take ctx 4)
    | .int64 | .uint64 | .double | .dateTime => drop (take ctx 8)
    | .guid => drop (take ctx 16)
    | .string | .byteString | .xmlElement => drop (bytes ctx)
    | .nodeId => drop (nodeId ctx)
    | .expandedNodeId => drop (expandedNodeId ctx)
    | .qualifiedName => do
      drop (take ctx 2)
      drop (bytes ctx)
    | .localizedText => do
      let mask ← u8 ctx
      given mask 0x01 (drop (bytes ctx)) ()
      given mask 0x02 (drop (bytes ctx)) ()
    | .extensionObject => do
      drop (nodeId ctx)
      let enc ← u8 ctx
      if enc = 0 then pure ()
      else if enc = 1 ∨ enc = 2 then drop (bytes ctx)
      else throw (badEncoding ctx "ExtensionObject" enc)
    | .dataValue => do
      let depth ← deeper ctx depth
      let mask ← u8 ctx
      given mask 0x01 (skipBuiltin frames depth .variant) ()
      given mask 0x02 (drop (take ctx 4)) ()
      given mask 0x04 (drop (take ctx 8)) ()
      given mask 0x10 (drop (take ctx 2)) ()
      given mask 0x08 (drop (take ctx 8)) ()
      given mask 0x20 (drop (take ctx 2)) ()
    | .variant => do
      let depth ← deeper ctx depth
      let mask ← u8 ctx
      if (mask &&& 0x3F).toNat = 0 then pure ()
      else
        match Builtin.fromId (mask &&& 0x3F).toNat with
        | none => throw (badEncoding ctx "Variant" mask)
        | some inner =>
          if mask &&& 0x80 ≠ 0 then do
            skipArray ctx (skipBuiltin frames depth inner)
            given mask 0x40 (skipArray ctx (drop (take ctx 4))) ()
          else skipBuiltin frames depth inner
    | .diagnosticInfo => do
      let depth ← deeper ctx depth
      let mask ← u8 ctx
      given mask 0x01 (drop (take ctx 4)) ()
      given mask 0x02 (drop (take ctx 4)) ()
      given mask 0x04 (drop (take ctx 4)) ()
      given mask 0x08 (drop (take ctx 4)) ()
      given mask 0x10 (drop (bytes ctx)) ()
      given mask 0x20 (drop (take ctx 4)) ()
      given mask 0x40 (skipBuiltin frames depth .diagnosticInfo) ()

/-- `1 << bit`, of a `u32`. -/
def shiftOne (bit : Nat) : Reading String UInt32 :=
  if bit < 32 then pure (1 <<< UInt32.ofNat bit) else fault .panic

/-- The fields of a structure with optional fields, from a bit of the mask on; with the next bit. -/
def skipMasked (skipField : Field → Reading String Unit) (mask : UInt32) :
    Nat → List Field → Reading String Nat
  | bit, [] => pure bit
  | bit, f :: fields =>
    if f.isOptional then do
      let flag ← shiftOne bit
      if mask &&& flag ≠ 0 then skipField f else pure ()
      skipMasked skipField mask (bit + 1) fields
    else do
      skipField f
      skipMasked skipField mask bit fields

/-- The fields of a structure, all of them. -/
def skipAll (skipField : Field → Reading String Unit) : List Field → Reading String Unit
  | [] => pure ()
  | f :: fields => do
    skipField f
    skipAll skipField fields

/-- `skip_elements`. Once an element consumed no bytes every remaining one is the same. -/
def skipElements (skipValue : FieldType → Reading String Unit) (ty : FieldType) (count : Nat) :
    Reading String Unit :=
  loop count do
    let before ← position
    skipValue ty
    let pos ← position
    pure (pos ≠ before)

def skipField (skipValue : FieldType → Reading String Unit) (f : Field) : Reading String Unit :=
  if f.array then do
    let count ← len ctx
    skipElements skipValue f.ty count
  else skipValue f.ty

def skipStruct (skipField : Field → Reading String Unit) (d : StructDef) : Reading String Unit :=
  match d.kind with
  | .struct => skipAll skipField d.fields
  | .optionalFields => do
    let mask ← u32 ctx
    drop (skipMasked skipField mask 0 d.fields)
  | .union => do
    let s ← u32 ctx
    if s = 0 then pure ()
    else if s.toNat ≤ d.fields.length then do
      let f ← index d.fields (s.toNat - 1)
      skipField f
    else throw s!"invalid union switch {s.toNat} in {d.name}"

def skipValue (types : TypeSet) : Nat → Nat → FieldType → Reading String Unit
  | 0, _, _ => fault .stack
  | frames + 1, depth, ty =>
    match ty with
    | .builtin b => skipBuiltin ctx (frames + 1) depth b
    | .enum _ => drop (take ctx 4)
    | .struct key => do
      let depth ← deeper ctx depth
      let d ← ofExcept (types.get key)
      skipStruct ctx (skipField ctx (skipValue types frames depth)) d

end Skipping

/-! ## Reading a leaf -/

def scalar (ctx : String) : Leaf → Reading String Scalar
  | .enum _ => do
    let v ← i32 ctx
    pure (.enum v)
  | .builtin b =>
    match b with
    | .boolean => do
      let v ← u8 ctx
      pure (.bool (v ≠ 0))
    | .sByte => do
      let v ← u8 ctx
      pure (.i8 v.toInt8)
    | .byte => do
      let v ← u8 ctx
      pure (.u8 v)
    | .int16 => do
      let v ← u16 ctx
      pure (.i16 v.toInt16)
    | .uint16 => do
      let v ← u16 ctx
      pure (.u16 v)
    | .int32 => do
      let v ← i32 ctx
      pure (.i32 v)
    | .uint32 => do
      let v ← u32 ctx
      pure (.u32 v)
    | .int64 => do
      let v ← i64 ctx
      pure (.i64 v)
    | .uint64 => do
      let v ← u64 ctx
      pure (.u64 v)
    | .float => do
      let v ← u32 ctx
      pure (.f32 v)
    | .double => do
      let v ← u64 ctx
      pure (.f64 v)
    | .string => do
      let s ← string ctx
      pure (.text s)
    | .dateTime => do
      let v ← i64 ctx
      pure (.dateTime v)
    | .guid => do
      let g ← array ctx 16
      pure (.guid g)
    | .byteString => do
      let b ← bytes ctx
      pure (.byteString b)
    | .statusCode => do
      let v ← u32 ctx
      pure (.statusCode v)
    | .nodeId => do
      let n ← nodeId ctx
      pure (.nodeId n)
    | .expandedNodeId => expandedNodeId ctx
    | .qualifiedName => do
      let ns ← u16 ctx
      let name ← string ctx
      pure (.qualifiedName ns name)
    | .localizedText => do
      let mask ← u8 ctx
      given mask 0x01 (drop (string ctx)) ()
      let text ← given mask 0x02 (string ctx) none
      pure (.text text)
    | .xmlElement | .extensionObject | .dataValue | .variant | .diagnosticInfo =>
      throw s!"{b.name} cannot be read as a point"

end TedgeDot.Opcua
