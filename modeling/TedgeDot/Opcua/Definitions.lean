import TedgeDot.Lib.Except
import TedgeDot.Sdk.Decode

/-!
# Structure definitions and field paths

`structure.rs`: the built-in types, the definitions of the structures that a server describes, and
how a point's field path is checked against them once, which gives a plan (`compile`). What a plan
says of the definitions is `Follows`.
-/

namespace TedgeDot.Opcua

/-- The OPC UA built-in types, numbered from 1 on as on the wire. -/
inductive Builtin where
  | boolean
  | sByte
  | byte
  | int16
  | uint16
  | int32
  | uint32
  | int64
  | uint64
  | float
  | double
  | string
  | dateTime
  | guid
  | byteString
  | xmlElement
  | nodeId
  | expandedNodeId
  | statusCode
  | qualifiedName
  | localizedText
  | extensionObject
  | dataValue
  | variant
  | diagnosticInfo
deriving DecidableEq

namespace Builtin

def BUILTINS : List Builtin :=
  [.boolean, .sByte, .byte, .int16, .uint16, .int32, .uint32, .int64, .uint64, .float, .double,
    .string, .dateTime, .guid, .byteString, .xmlElement, .nodeId, .expandedNodeId, .statusCode,
    .qualifiedName, .localizedText, .extensionObject, .dataValue, .variant, .diagnosticInfo]

def fromId (id : Nat) : Option Builtin := if id = 0 then none else BUILTINS[id - 1]?

def name : Builtin → String
  | .boolean => "Boolean"
  | .sByte => "SByte"
  | .byte => "Byte"
  | .int16 => "Int16"
  | .uint16 => "UInt16"
  | .int32 => "Int32"
  | .uint32 => "UInt32"
  | .int64 => "Int64"
  | .uint64 => "UInt64"
  | .float => "Float"
  | .double => "Double"
  | .string => "String"
  | .dateTime => "DateTime"
  | .guid => "Guid"
  | .byteString => "ByteString"
  | .xmlElement => "XmlElement"
  | .nodeId => "NodeId"
  | .expandedNodeId => "ExpandedNodeId"
  | .statusCode => "StatusCode"
  | .qualifiedName => "QualifiedName"
  | .localizedText => "LocalizedText"
  | .extensionObject => "ExtensionObject"
  | .dataValue => "DataValue"
  | .variant => "Variant"
  | .diagnosticInfo => "DiagnosticInfo"

end Builtin

/-- The type of a structure field. -/
inductive FieldType where
  | builtin (b : Builtin)
  /-- An Enumeration, encoded as Int32. Carries the type's display name. -/
  | enum (name : String)
  /-- A structure, by its key in the `TypeSet`. -/
  | struct (key : String)
deriving DecidableEq

structure Field where
  name : String
  ty : FieldType
  /-- ValueRank 1. -/
  array : Bool
  /-- `optional`. -/
  isOptional : Bool
deriving DecidableEq

inductive StructureKind where
  | struct
  | optionalFields
  | union
deriving DecidableEq

structure StructDef where
  name : String
  kind : StructureKind
  fields : List Field
deriving DecidableEq

/-- Every structure definition, by its key. -/
structure TypeSet where
  structs : List (String × StructDef)

namespace TypeSet

/-- `structs.get`. -/
def find (types : TypeSet) (key : String) : Option StructDef :=
  (types.structs.find? fun s => s.1 == key).map Prod.snd

def get (types : TypeSet) (key : String) : Except String StructDef :=
  match types.find key with
  | some d => .ok d
  | none => .error s!"no definition for structure type {key}"

def typeName (types : TypeSet) : FieldType → String
  | .builtin b => b.name
  | .enum name => name
  | .struct key => ((types.find key).map StructDef.name).getD key

end TypeSet

/-! ## Paths -/

/-- One segment of a `field` path: a field name, optionally with an element index. -/
structure Segment where
  name : String
  /-- A `u32`. -/
  index : Option Nat
deriving DecidableEq

def Segment.text (seg : Segment) : String :=
  match seg.index with
  | some i => s!"{seg.name}[{i}]"
  | none => seg.name

/-- What a point finally reads: a built-in type or an Enumeration. -/
inductive Leaf where
  | builtin (b : Builtin)
  | enum (name : String)
deriving DecidableEq

def Leaf.name : Leaf → String
  | .builtin b => b.name
  | .enum name => name

/-- The datatypes a point may declare for a value of this type; empty when no point can read it. -/
def accepted : Leaf → List DataType
  | .enum _ => [.int32]
  | .builtin b =>
    match b with
    | .boolean => [.bool]
    | .sByte => [.int8]
    | .byte => [.uint8]
    | .int16 => [.int16]
    | .uint16 => [.uint16]
    | .int32 => [.int32]
    | .uint32 => [.uint32]
    | .int64 => [.int64]
    | .uint64 => [.uint64]
    | .float => [.float32]
    | .double => [.float64]
    | .string => [.string]
    | .dateTime => [.string, .int64]
    | .statusCode => [.uint32, .string]
    | .localizedText | .guid | .nodeId | .expandedNodeId | .qualifiedName => [.string]
    | .byteString => [.bytes]
    | .xmlElement | .extensionObject | .dataValue | .variant | .diagnosticInfo => []

def datatypeName : DataType → String
  | .bool => "bool"
  | .int8 => "int8"
  | .uint8 => "uint8"
  | .int16 => "int16"
  | .uint16 => "uint16"
  | .int32 => "int32"
  | .uint32 => "uint32"
  | .int64 => "int64"
  | .uint64 => "uint64"
  | .float32 => "float32"
  | .float64 => "float64"
  | .string => "string"
  | .bytes => "bytes"

def checkDatatype (leaf : Leaf) (dt : DataType) (subject : String) : Except String Unit :=
  if (accepted leaf).isEmpty then
    .error s!"{subject} is {leaf.name}, which a point cannot read"
  else if (accepted leaf).contains dt then .ok ()
  else
    let list := ", ".intercalate ((accepted leaf).map datatypeName)
    .error s!"{subject} is {leaf.name}, point declares {datatypeName dt} (accepted: {list})"

structure Step where
  /-- The structure this step reads from. -/
  key : String
  /-- The position of the selected field in it. -/
  field : Nat
  index : Option Nat
deriving DecidableEq

/-- A point's path, checked against the definitions: which field to take at each level. -/
structure Plan where
  steps : List Step
  leaf : Leaf
  datatype : DataType
deriving DecidableEq

/-- The field with a name, with its position. -/
def StructDef.position (d : StructDef) (name : String) : Option (Field × Nat) :=
  d.fields.zipIdx.find? fun f => f.1.name == name

/-- `compile`, from a structure on: the segments before it and the steps they gave. -/
def compileFrom (types : TypeSet) (dt : DataType) (key : String) (before : List Segment)
    (steps : List Step) : List Segment → Except String Plan
  | [] => .error "field path is empty"
  | seg :: rest => do
    let d ← types.get key
    match d.position seg.name with
    | none =>
      let names := ", ".intercalate (d.fields.map Field.name)
      .error s!"field \"{seg.name}\" not found in {d.name} (fields: {names})"
    | some (field, pos) =>
      let soFar := ".".intercalate ((before ++ [seg]).map Segment.text)
      let steps := steps ++ [{ key, field := pos, index := seg.index }]
      match field.array, seg.index with
      | false, some _ => .error s!"field \"{field.name}\" is not an array"
      | true, none =>
        let ty := types.typeName field.ty
        .error s!"field \"{field.name}\" is an array of {ty}; select one element, e.g. \"{soFar}[0]\""
      | _, _ =>
        match field.ty, rest with
        | .struct next, _ :: _ => compileFrom types dt next (before ++ [seg]) steps rest
        | other, _ :: _ =>
          .error s!"field \"{field.name}\" is {types.typeName other}, not a structure"
        | .struct next, [] => do
          let inner ← types.get next
          let first := ((inner.fields.head?).map Field.name).getD ""
          .error s!"field \"{field.name}\" is a structure ({inner.name}); select one of its fields, e.g. \"{soFar}.{first}\""
        | .builtin b, [] => do
          checkDatatype (.builtin b) dt s!"field \"{field.name}\""
          return { steps, leaf := .builtin b, datatype := dt }
        | .enum name, [] => do
          checkDatatype (.enum name) dt s!"field \"{field.name}\""
          return { steps, leaf := .enum name, datatype := dt }

def compile (types : TypeSet) (root : String) (path : List Segment) (dt : DataType) :
    Except String Plan :=
  compileFrom types dt root [] [] path

/-! ## What a plan says -/

/-- The leaf that a field of a type is. -/
def FieldType.leaf : FieldType → Option Leaf
  | .builtin b => some (.builtin b)
  | .enum name => some (.enum name)
  | .struct _ => none

/-- The steps follow a path from a structure to a leaf. -/
inductive Follows (types : TypeSet) : String → List Segment → List Step → Leaf → Prop where
  | leaf {key d seg pos field leaf} (hfind : types.find key = some d)
      (hpos : d.position seg.name = some (field, pos)) (harray : field.array = seg.index.isSome)
      (hleaf : field.ty.leaf = some leaf) :
      Follows types key [seg] [{ key, field := pos, index := seg.index }] leaf
  | step {key d seg pos field next path steps leaf} (hfind : types.find key = some d)
      (hpos : d.position seg.name = some (field, pos)) (harray : field.array = seg.index.isSome)
      (hnext : field.ty = .struct next) (hrest : Follows types next path steps leaf) :
      Follows types key (seg :: path) ({ key, field := pos, index := seg.index } :: steps) leaf

theorem get_ok {types : TypeSet} {key : String} {d : StructDef} :
    types.get key = .ok d ↔ types.find key = some d := by
  unfold TypeSet.get
  cases types.find key with
  | none => simp
  | some d' => simp

theorem checkDatatype_ok {leaf : Leaf} {dt : DataType} {subject : String}
    (h : checkDatatype leaf dt subject = .ok ()) : dt ∈ accepted leaf := by
  unfold checkDatatype at h
  split at h
  · cases h
  · split at h
    · rename_i hcontains
      exact List.contains_iff_mem.mp hcontains
    · cases h

theorem position_spec {d : StructDef} {name : String} {field : Field} {pos : Nat}
    (h : d.position name = some (field, pos)) : d.fields[pos]? = some field := by
  have hmem := List.mem_of_find?_eq_some h
  exact List.mem_zipIdx_iff_getElem?.mp hmem

/-- A compiled plan follows its path to a leaf that accepts the datatype. -/
theorem compileFrom_spec {types : TypeSet} {dt : DataType} {key : String} {before : List Segment}
    {steps : List Step} {path : List Segment} {plan : Plan}
    (h : compileFrom types dt key before steps path = .ok plan) :
    ∃ rest, plan.steps = steps ++ rest ∧ Follows types key path rest plan.leaf ∧
      plan.datatype = dt ∧ dt ∈ accepted plan.leaf := by
  induction path generalizing key before steps with
  | nil => cases h
  | cons seg path ih =>
    rw [compileFrom] at h
    obtain ⟨d, hd, h⟩ := bind_ok h
    have hfind := get_ok.mp hd
    split at h
    · cases h
    rename_i field pos hpos
    have harray : field.array = seg.index.isSome := by
      cases hindex : seg.index with
      | none =>
        cases harr : field.array with
        | false => rfl
        | true =>
          simp only [harr, hindex] at h
          cases h
      | some i =>
        cases harr : field.array with
        | false =>
          simp only [harr, hindex] at h
          cases h
        | true => rfl
    split at h
    · cases h
    · cases h
    cases hty : field.ty with
    | struct next =>
      simp only [hty] at h
      cases path with
      | nil =>
        obtain ⟨inner, -, h⟩ := bind_ok h
        cases h
      | cons seg' path =>
        -- a field of a structure: the path goes on in it
        obtain ⟨rest, hsteps, hfollows, hdt, haccepted⟩ := ih h
        refine ⟨_ :: rest, ?_, .step hfind hpos harray hty hfollows, hdt, haccepted⟩
        rw [hsteps, List.append_assoc]
        rfl
    | builtin b =>
      simp only [hty] at h
      cases path with
      | cons seg' path => cases h
      | nil =>
        obtain ⟨_, hcheck, h⟩ := bind_ok h
        cases h
        exact ⟨_, rfl, .leaf hfind hpos harray (by rw [hty]; rfl), rfl, checkDatatype_ok hcheck⟩
    | enum name =>
      simp only [hty] at h
      cases path with
      | cons seg' path => cases h
      | nil =>
        obtain ⟨_, hcheck, h⟩ := bind_ok h
        cases h
        exact ⟨_, rfl, .leaf hfind hpos harray (by rw [hty]; rfl), rfl, checkDatatype_ok hcheck⟩

/-- **Compilation**: a plan follows the path, to a leaf that may be read as the datatype. -/
theorem compile_spec {types : TypeSet} {root : String} {path : List Segment} {dt : DataType}
    {plan : Plan} (h : compile types root path dt = .ok plan) :
    Follows types root path plan.steps plan.leaf ∧ plan.datatype = dt ∧ dt ∈ accepted plan.leaf := by
  obtain ⟨rest, hsteps, hspec⟩ := compileFrom_spec h
  rw [hsteps]
  exact hspec

end TedgeDot.Opcua
