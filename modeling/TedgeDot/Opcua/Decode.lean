import TedgeDot.Opcua.Render

/-!
# Decoding the selected value

`structure.rs`: a plan walks a structure body, skips every field before the selected one, and reads
the leaf.
-/

namespace TedgeDot.Opcua

open Reading

/-- The levels of nested values that skipping may enter. -/
def FRAMES : Nat := MAX_DEPTH + 1

section Decode

variable (statusName : UInt32 → Option String) (types : TypeSet) (namespaces : List String)

/-- A field before the selected one is skipped. -/
def skipBefore (f : Field) : Reading String Unit :=
  skipField f.name (skipValue f.name types FRAMES 0) f

/-- The name of the active field of a union. -/
def activeName (d : StructDef) (s : Nat) : Reading String String :=
  if s = 0 then pure "none"
  else do
    let f ← index d.fields (s - 1)
    pure s!"\"{f.name}\""

/-- Up to the selected field of a structure. -/
def enter (d : StructDef) (field : Field) (pos : Nat) : Reading String Unit :=
  match d.kind with
  | .struct => do
    let before ← upTo d.fields pos
    skipAll (skipBefore types) before
  | .optionalFields => do
    let mask ← u32 field.name
    let before ← upTo d.fields pos
    let bit ← skipMasked (skipBefore types) mask 0 before
    if field.isOptional then do
      let flag ← shiftOne bit
      if mask &&& flag = 0 then throw s!"optional field \"{field.name}\" is absent" else pure ()
    else pure ()
  | .union => do
    let s ← u32 field.name
    if s.toNat > d.fields.length then throw s!"invalid union switch {s.toNat} in {d.name}"
    else if s.toNat ≠ pos + 1 then do
      let active ← activeName d s.toNat
      throw s!"union field \"{field.name}\" is not set (active: {active})"
    else pure ()

/-- Up to the selected element of an array. -/
def element (field : Field) : Option Nat → Reading String Unit
  | none => pure ()
  | some i => do
    let count ← len field.name
    if i ≥ count then
      throw s!"index {i} out of range for \"{field.name}\" (length {count})"
    else skipElements (skipValue field.name types FRAMES 0) field.ty i

/-- One step of a plan, up to what it selects; with the field. -/
def walk (step : Step) : Reading String Field := do
  let d ← ofExcept (types.get step.key)
  let field ← index d.fields step.field
  enter types d field step.field
  element types field step.index
  pure field

/-- The steps of a plan that are left, and the leaf. -/
def decodeSteps (plan : Plan) : List Step → Reading String (Value × List UInt8)
  | [] => throw "field path is empty"
  | [step] => do
    let field ← walk types step
    let leaf ← scalar field.name plan.leaf
    lift (render statusName plan.datatype namespaces leaf)
  | step :: steps => do
    let _ ← walk types step
    decodeSteps plan steps

/-- What a reading of a whole buffer comes to. -/
def run {α : Type} (x : Reading String α) (body : List UInt8) : Traced Loop (Fault String) α := do
  let r ← x body 0
  pure r.1

def decode (plan : Plan) (body : List UInt8) : Traced Loop (Fault String) (Value × List UInt8) :=
  run (decodeSteps statusName types namespaces plan plan.steps) body

def decodeBuiltin (b : Builtin) (body : List UInt8) (dt : DataType) :
    Traced Loop (Fault String) (Value × List UInt8) :=
  run (do
    ofExcept (checkDatatype (.builtin b) dt "value")
    let leaf ← scalar "value" (.builtin b)
    lift (render statusName dt namespaces leaf)) body

end Decode

/-- The body of an ExtensionObject, after its encoding byte. -/
def extensionBody (id : NodeId) (enc : UInt8) : Reading String (NodeId × List UInt8) :=
  if enc = 0 then pure (id, [])
  else if enc = 1 then do
    let body ← bytes "value"
    pure (id, body.getD [])
  else if enc = 2 then throw "the value is an XML-encoded structure, which is not supported"
  else throw (badEncoding "value" "ExtensionObject" enc)

def splitExtensionObject (body : List UInt8) : Traced Loop (Fault String) (NodeId × List UInt8) :=
  run (do
    let id ← nodeId "value"
    let enc ← u8 "value"
    extensionBody id enc) body

def readNodeId (body : List UInt8) : Traced Loop (Fault String) NodeId :=
  run (do
    let enc ← u8 "NodeId"
    nodeIdBody "NodeId" enc) body

end TedgeDot.Opcua
