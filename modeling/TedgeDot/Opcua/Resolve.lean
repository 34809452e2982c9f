import TedgeDot.Opcua.Reader

/-!
# Resolving the definitions of a server

`resolve.rs`: the structures that a plan crosses are loaded from the server, each with the types of
its fields. A definition is refused for its kind or for the rank of a field. Calls nest as deep as
the server's definitions do: `fuel` bounds them, and nothing comes back where it does not suffice.
-/

namespace TedgeDot.Opcua

/-- Supertype hops followed to find the built-in type behind a simple subtype. -/
def MAX_SUPERTYPES : Nat := 8

inductive StructureType where
  | struct
  | structureWithOptionalFields
  | union
  /-- By the name that it prints. -/
  | other (name : String)
deriving DecidableEq

structure FieldDefinition where
  name : String
  dataType : NodeId
  valueRank : Int
  isOptional : Bool
deriving DecidableEq

structure StructureDefinition where
  structureType : StructureType
  defaultEncodingId : NodeId
  fields : Option (List FieldDefinition)
deriving DecidableEq

inductive Definition where
  | struct (d : StructureDefinition)
  | enum
deriving DecidableEq

/-- What a server answers, as far as resolving asks for it. -/
structure Server where
  /-- `definition`: a DataType node's browse name and definition, if it has one. -/
  definition : NodeId → Except String (String × Option Definition)
  /-- `supertype`. -/
  supertype : NodeId → Except String NodeId
  /-- `to_string` of a node id. -/
  display : NodeId → String

/-- `Resolver`, without the session. -/
structure Resolver where
  types : TypeSet
  encodings : List (String × NodeId)
  failed : List (String × String)
  loading : List String

def Resolver.init : Resolver :=
  { types := { structs := [] }, encodings := [], failed := [], loading := [] }

/-- A step of resolving: it may fail, and runs where there is fuel. -/
abbrev Resolving (α : Type) : Type := ExceptT String (StateT Resolver Option) α

/-- `NodeId::is_null`: the numeric id 0 of namespace 0. -/
def NodeId.isNull (id : NodeId) : Bool := id = { ns := 0, id := .numeric 0 }

/-- `builtin_of`: the built-in types and their common simple subtypes, of namespace 0. -/
def builtinOf (dt : NodeId) : Option Builtin :=
  if dt.ns ≠ 0 then none
  else
    match dt.id with
    | .numeric id =>
      let id := id.toNat
      if (1 ≤ id ∧ id ≤ 21) ∨ id = 23 ∨ id = 25 then Builtin.fromId id
      else if id = 22 then some .extensionObject
      else if id = 24 ∨ (26 ≤ id ∧ id ≤ 28) then some .variant
      else if id ∈ [288, 289, 17588, 20998] then some .uint32
      else if id = 290 then some .double
      else if id ∈ [293, 294] then some .dateTime
      else if id ∈ [291, 292, 295, 23751, 24263] ∨ (12877 ≤ id ∧ id ≤ 12881) then some .string
      else if id ∈ [30, 311, 521, 16307] ∨ (2000 ≤ id ∧ id ≤ 2003) then some .byteString
      else if id = 388 then some .nodeId
      else if id = 11737 then some .uint64
      else none
    | _ => none

namespace Resolving

variable {α : Type}

def ofExcept (x : Except String α) : Resolving α := fun r => some (x, r)

def modify (f : Resolver → Resolver) : Resolving Unit := fun r => some (.ok (), f r)

/-- What a step comes to, whether or not it fails. -/
def attempt (x : Resolving α) : Resolving (Except String α) := fun r => do
  let (result, r) ← x r
  return (.ok result, r)

end Resolving

section Resolve

variable (server : Server)

/-- The built-in type or Enumeration behind a simple subtype, within a number of hops. -/
def behind (name : String) (dt : NodeId) : Nat → NodeId → Except String FieldType
  | 0, _ => .error s!"{name} ({server.display dt}) has no definition and no built-in supertype"
  | hops + 1, current => do
    let current ← server.supertype current
    if current = { ns := 0, id := .numeric 29 } then return .enum name
    match builtinOf current with
    | some b => return .builtin b
    | none => behind name dt hops current

/-- `field_type`, where `resolve` resolves a structure. -/
def fieldType (resolve : NodeId → Resolving String) (dt : NodeId) : Resolving FieldType :=
  match builtinOf dt with
  | some b => pure (.builtin b)
  | none => do
    let (name, definition) ← Resolving.ofExcept (server.definition dt)
    match definition with
    | some (.struct _) => do
      let key ← resolve dt
      pure (.struct key)
    | some .enum => pure (.enum name)
    | none => Resolving.ofExcept (behind server name dt MAX_SUPERTYPES dt)

/-- The fields of a definition, one after the other. -/
def loadFields (resolve : NodeId → Resolving String) (name : String) :
    List FieldDefinition → Resolving (List Field)
  | [] => pure []
  | f :: fields => do
    let array ←
      if f.valueRank = -1 then pure false
      else if f.valueRank = 1 then pure true
      else throw s!"field \"{f.name}\" of {name} has ValueRank {f.valueRank}, which is not supported"
    let found ← Resolving.attempt (fieldType server resolve f.dataType)
    match found with
    | .error e => throw s!"field \"{f.name}\" of {name}: {e}"
    | .ok ty => do
      let rest ← loadFields resolve name fields
      pure ({ name := f.name, ty, array, isOptional := f.isOptional } :: rest)

/-- The definition of a structure type, or why there is none. -/
def structureDefinition (dt : NodeId) : Except String (String × StructureDefinition) := do
  let (name, definition) ← server.definition dt
  match definition with
  | some (.struct d) => .ok (name, d)
  | some .enum => .error s!"{name} is an Enumeration, not a structure"
  | none =>
    match builtinOf dt with
    | some b => .error s!"the value's DataType is {b.name}, not a structure"
    | none => .error s!"{name} ({server.display dt}) has no DataTypeDefinition"

def structureKind (name : String) : StructureType → Except String StructureKind
  | .struct => .ok .struct
  | .structureWithOptionalFields => .ok .optionalFields
  | .union => .ok .union
  | .other t => .error s!"{name} is a {t}, which is not supported"

/-- `load_structure`. While its fields are loaded, the structure is among those that are. -/
def loadStructure (resolve : NodeId → Resolving String) (dt : NodeId) (key : String) :
    Resolving StructDef := do
  let (name, definition) ← Resolving.ofExcept (structureDefinition server dt)
  let kind ← Resolving.ofExcept (structureKind name definition.structureType)
  if definition.defaultEncodingId.isNull then pure ()
  else Resolving.modify fun r =>
    { r with encodings := (key, definition.defaultEncodingId) :: r.encodings }
  Resolving.modify fun r => { r with loading := key :: r.loading }
  let loaded ← Resolving.attempt (loadFields server resolve name (definition.fields.getD []))
  Resolving.modify fun r => { r with loading := r.loading.filter (· ≠ key) }
  match loaded with
  | .error e => throw e
  | .ok fields => pure { name, kind, fields }

/-- `structure`: a structure type and every type it contains; with its key. -/
def resolveStructure : Nat → NodeId → Resolving String
  | 0, _ => fun _ => none
  | fuel + 1, dt => fun r =>
    let key := server.display dt
    if (r.types.find key).isSome ∨ key ∈ r.loading then some (.ok key, r)
    else
      match r.failed.lookup key with
      | some e => some (.error e, r)
      | none =>
        match loadStructure server (resolveStructure fuel) dt key r with
        | none => none
        | some (.ok d, r) =>
          some (.ok key, { r with types := { structs := r.types.structs ++ [(key, d)] } })
        | some (.error e, r) => some (.error e, { r with failed := (key, e) :: r.failed })

/-- `resolve`: the structures of the points, one after the other. -/
def resolveAll (fuel : Nat) : List NodeId → Resolver → Option Resolver
  | [], r => some r
  | dt :: dts, r => do
    let (_, r) ← resolveStructure server fuel dt r
    resolveAll fuel dts r

/-- The type sets that the resolver builds from a server's definitions. -/
def Resolved (types : TypeSet) : Prop :=
  ∃ fuel dts r, resolveAll server fuel dts Resolver.init = some r ∧ r.types = types

end Resolve

end TedgeDot.Opcua
