import TedgeDot.Opcua.Reader

/-!
# The binary encoding

OPC UA Part 6 §5.2 as languages: the byte strings that encode a value of each built-in type and of
each type of the definitions. `wire n` are the encodings of the values of a built-in type that are
nested at most `n` deep, `wireValue n` those of a type of the definitions. A Boolean may be any byte,
and bits that a mask does not define may be set.

`scalarWire` tells the encodings of each value that a point can read.
-/

namespace TedgeDot.Opcua

open Reading

/-! ## Numbers, runs and texts -/

def one (v : UInt8) : Language UInt8 := {[v]}

def two (v : UInt16) : Language UInt8 := {toLeBytes 2 v.toNat}

def four (v : UInt32) : Language UInt8 := {toLeBytes 4 v.toNat}

def eight (v : UInt64) : Language UInt8 := {toLeBytes 8 v.toNat}

/-- A number of elements, or the null encoding of none. -/
def lengthPrefix (n : Nat) : Language UInt8 :=
  {w | (n < 2 ^ 31 ∧ w = toLeBytes 4 n) ∨ (n = 0 ∧ w = toLeBytes 4 (2 ^ 32 - 1))}

/-- A run of bytes, or its null encoding. -/
def runOf : Option (List UInt8) → Language UInt8
  | none => {toLeBytes 4 (2 ^ 32 - 1)}
  | some run => {w | run.length < 2 ^ 31 ∧ w = toLeBytes 4 run.length ++ run}

def textOf (s : Option String) : Language UInt8 := runOf (s.map Utf8.encode)

def anyRun : Language UInt8 := ⨆ run, runOf run

def ifGiven (mask bit : UInt8) (L : Language UInt8) : Language UInt8 :=
  choice (mask &&& bit ≠ 0) L 1

def valueIfGiven {α : Type} (mask bit : UInt8) (G : α → Language UInt8) (default : α) :
    α → Language UInt8 :=
  fun a => choice (mask &&& bit ≠ 0) (G a) (only (a = default) 1)

/-! ## Node ids -/

/-- A NodeId after its encoding byte, in one of the six forms. -/
def nodeIdForm (enc : UInt8) : NodeId → Language UInt8 :=
  match (enc &&& 0x3F).toNat with
  | 0 => mapped (fun n => { ns := 0, id := .numeric n.toUInt32 }) one
  | 1 => pair (fun ns n => { ns := ns.toUInt16, id := .numeric n.toUInt32 }) one two
  | 2 => pair (fun ns n => { ns, id := .numeric n }) two four
  | 3 => pair (fun ns s => { ns, id := .string s }) two textOf
  | 4 => pair (fun ns g => { ns, id := .guid g }) two (ofLength 16)
  | 5 => pair (fun ns b => { ns, id := .bytes b }) two runOf
  | _ => fun _ => 0

def nodeIdOf (id : NodeId) : Language UInt8 :=
  ⨆ enc, one enc * only (enc &&& 0xC0 = 0) (nodeIdForm enc id)

def expandedNodeIdOf : Scalar → Language UInt8 :=
  fun s => ⨆ enc, one enc * ⨆ node, nodeIdForm enc node *
    pair (.expandedNodeId node) (valueIfGiven enc 0x80 textOf none) (valueIfGiven enc 0x40 four 0) s

/-! ## Values that a point can read -/

/-- The encodings of a value of a leaf. -/
def scalarWire : Leaf → Scalar → Language UInt8
  | .enum _ => mapped .enum fun v => four v.toUInt32
  | .builtin b =>
    match b with
    | .boolean => mapped (fun v => .bool (v ≠ 0)) one
    | .sByte => mapped (fun v => .i8 v.toInt8) one
    | .byte => mapped .u8 one
    | .int16 => mapped (fun v => .i16 v.toInt16) two
    | .uint16 => mapped .u16 two
    | .int32 => mapped .i32 fun v => four v.toUInt32
    | .uint32 => mapped .u32 four
    | .int64 => mapped .i64 fun v => eight v.toUInt64
    | .uint64 => mapped .u64 eight
    | .float => mapped .f32 four
    | .double => mapped .f64 eight
    | .string => mapped .text textOf
    | .dateTime => mapped .dateTime fun v => eight v.toUInt64
    | .guid => mapped .guid (ofLength 16)
    | .byteString => mapped .byteString runOf
    | .statusCode => mapped .statusCode four
    | .nodeId => mapped .nodeId nodeIdOf
    | .expandedNodeId => expandedNodeIdOf
    | .qualifiedName => pair .qualifiedName two textOf
    | .localizedText => fun s => ⨆ mask, one mask *
        (ifGiven mask 0x01 (⨆ locale, textOf locale) *
          mapped .text (valueIfGiven mask 0x02 textOf none) s)
    | .xmlElement | .extensionObject | .dataValue | .variant | .diagnosticInfo => fun _ => 0

/-! ## Built-in types -/

/-- The built-in types that nest no values. -/
def flat : Builtin → Language UInt8
  | .boolean | .sByte | .byte => fixed 1
  | .int16 | .uint16 => fixed 2
  | .int32 | .uint32 | .float | .statusCode => fixed 4
  | .int64 | .uint64 | .double | .dateTime => fixed 8
  | .guid => fixed 16
  | .string | .byteString | .xmlElement => anyRun
  | .nodeId => ⨆ id, nodeIdOf id
  | .expandedNodeId => ⨆ s, expandedNodeIdOf s
  | .qualifiedName => fixed 2 * anyRun
  | .localizedText => ⨆ mask, one mask * (ifGiven mask 0x01 anyRun * ifGiven mask 0x02 anyRun)
  | .extensionObject => (⨆ id, nodeIdOf id) * ⨆ enc, one enc *
      choice (enc = 0) 1 (choice (enc = 1 ∨ enc = 2) anyRun 0)
  | .dataValue | .variant | .diagnosticInfo => 0

/-- An array: its length, and the elements one after the other. -/
def arrayOf (L : Language UInt8) : Language UInt8 := ⨆ n, lengthPrefix n * L ^ n

/-- A Variant's value, of a built-in type: an array, perhaps with dimensions, or one value. -/
def variantOf (mask : UInt8) (L : Language UInt8) : Language UInt8 :=
  choice (mask &&& 0x80 ≠ 0) (arrayOf L * ifGiven mask 0x40 (arrayOf (fixed 4))) L

/-- The built-in types that nest values, which are encoded by `below`. -/
def nested (below : Builtin → Language UInt8) : Builtin → Language UInt8
  | .dataValue => ⨆ mask, one mask * (ifGiven mask 0x01 (below .variant) *
      (ifGiven mask 0x02 (fixed 4) * (ifGiven mask 0x04 (fixed 8) * (ifGiven mask 0x10 (fixed 2) *
        (ifGiven mask 0x08 (fixed 8) * ifGiven mask 0x20 (fixed 2))))))
  | .variant => ⨆ mask, one mask *
      choice ((mask &&& 0x3F).toNat = 0) 1
        (⨆ b, only (Builtin.fromId (mask &&& 0x3F).toNat = some b) (variantOf mask (below b)))
  | .diagnosticInfo => ⨆ mask, one mask * (ifGiven mask 0x01 (fixed 4) *
      (ifGiven mask 0x02 (fixed 4) * (ifGiven mask 0x04 (fixed 4) * (ifGiven mask 0x08 (fixed 4) *
        (ifGiven mask 0x10 anyRun * (ifGiven mask 0x20 (fixed 4) *
          ifGiven mask 0x40 (below .diagnosticInfo)))))))
  | _ => 0

/-- The values of a built-in type, nested at most to a depth. -/
def wire : Nat → Builtin → Language UInt8
  | 0, b => flat b
  | n + 1, b => flat b + nested (wire n) b

/-! ## Types of the definitions -/

/-- A field, of the values of its type. -/
def wireField (value : FieldType → Language UInt8) (f : Field) : Language UInt8 :=
  choice (f.array = true) (arrayOf (value f.ty)) (value f.ty)

def hasBit (mask : UInt32) (bit : Nat) : Prop := mask &&& (1 <<< UInt32.ofNat bit) ≠ 0

instance instDecidableHasBit (mask : UInt32) (bit : Nat) : Decidable (hasBit mask bit) :=
  inferInstanceAs (Decidable (_ ≠ _))

def wireAll (field : Field → Language UInt8) : List Field → Language UInt8
  | [] => 1
  | f :: fields => field f * wireAll field fields

/-- The fields that a mask tells present, from a bit on. A mask has 32 bits. -/
def wireMasked (field : Field → Language UInt8) (mask : UInt32) : Nat → List Field → Language UInt8
  | _, [] => 1
  | bit, f :: fields =>
    if f.isOptional then
      only (bit < 32) (choice (hasBit mask bit) (field f) 1 * wireMasked field mask (bit + 1) fields)
    else field f * wireMasked field mask bit fields

/-- A structure, a structure with optional fields, or a union. -/
def wireStruct (field : Field → Language UInt8) (d : StructDef) : Language UInt8 :=
  match d.kind with
  | .struct => wireAll field d.fields
  | .optionalFields => ⨆ mask, four mask * wireMasked field mask 0 d.fields
  | .union => ⨆ s : UInt32, four s *
      choice (s = 0) 1 (⨆ f, only (d.fields[s.toNat - 1]? = some f) (field f))

/-- The values of a type, nested at most to a depth. -/
def wireValue (types : TypeSet) : Nat → FieldType → Language UInt8
  | 0, .builtin b => wire 0 b
  | 0, .enum _ => fixed 4
  | 0, .struct _ => 0
  | n + 1, .builtin b => wire (n + 1) b
  | _ + 1, .enum _ => fixed 4
  | n + 1, .struct key =>
    ⨆ d, only (types.find key = some d) (wireStruct (wireField (wireValue types n)) d)

end TedgeDot.Opcua
