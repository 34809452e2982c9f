import TedgeDot.Lib.Shortest
import TedgeDot.Map.ValueMap
import TedgeDot.Sdk.Duration

/-!
# Applying and inverting maps

`map.rs`: what a map makes of a decoded value, and the device value that a write of a mapped value
sends. The `as` conversion goes both ways between the kinds.
-/

namespace TedgeDot

open Binary64

/-- `Number::from` of an `i64`. -/
def Number.ofI64 (n : Int64) : Number :=
  if 0 ≤ n then .posInt n.toUInt64 else .negInt n

namespace Map

/-- Why a value has no mapped value. -/
inductive ApplyError where
  /-- `no mapping for value {}` -/
  | noMapping (value : Value)
  /-- `cannot convert {} to {}` -/
  | cannotConvert (value : Value) (kind : Kind)
deriving DecidableEq

/-- Why a value cannot be written. -/
inductive InvertError where
  /-- `cannot write {}: the point's mapped values are {}s` -/
  | wrongKind (value : Json) (kind : Kind)
  /-- `cannot write {}: {e}` -/
  | cannotConvert (value : Json) (e : ApplyError)
  /-- `cannot write {}: the point's map has no writable values` -/
  | readOnly (value : Json)
  /-- `cannot write {}; accepted values: {}` -/
  | notAccepted (value : Json) (accepted : List Json)

def Kind.ofDatatype : DataType → Kind
  | .bool => .bool
  | .string | .bytes => .string
  | _ => .number

/-! ## Texts -/

/-- `parse_number`. The grammar, spelled out, is the one of `Decimal.unsigned` after a sign. -/
def parseNumber (text : String) : Option Float :=
  let s := trimC text.toList
  if (Decimal.unsigned (Decimal.sign s).2).isSome then
    (Decimal.parseF64 (String.ofList s)).filter Float.isFinite
  else none

def parseBool (text : String) : Option Bool :=
  let s := String.ofList ((trimC text.toList).map Char.toLower)
  if s == "true" || s == "1" || s == "on" || s == "yes" then some true
  else if s == "false" || s == "0" || s == "off" || s == "no" then some false
  else none

def formatNumber (n : Float) : Option String :=
  if !n.isFinite then none
  else if n == ofInt 0 then some "0"
  else Decimal.display n

/-! ## JSON and values -/

/-- `json_equal`, of the scalars that outputs and written values are. -/
def jsonEqual : Json → Json → Bool
  | .number x, .number y => x.asF64 == y.asF64
  | .string a, .string b => a == b
  | .bool a, .bool b => a == b
  | _, _ => false

/-- `value_to_json`. A number that is not finite is `null`. -/
def valueToJson : Value → Json
  | .bool b => .bool b
  | .text t => .string t
  | .number n =>
    if integral n && n.abs < ofInt 9007199254740992 then .number (Number.ofI64 (toI64 n))
    else if n.isFinite then .number (.float n)
    else .null

/-! ## Conversion -/

/-- `convert`. `big` marks a 64-bit integer carried as text. -/
def convert (value : Value) (kind : Kind) (big : Bool) : Except ApplyError Value :=
  let fail := ApplyError.cannotConvert value kind
  match kind, value with
  | .number, .number n => .ok (.number n)
  | .number, .bool b => .ok (.number (ofInt (if b then 1 else 0)))
  | .number, .text t =>
    match parseNumber t with
    | some n => .ok (.number n)
    | none => .error fail
  | .string, .text t => .ok (.text t)
  | .string, .bool b => .ok (.text (if b then "true" else "false"))
  | .string, .number n =>
    match formatNumber n with
    | some t => .ok (.text t)
    | none => .error fail
  | .bool, .bool b => .ok (.bool b)
  | .bool, .number n => if n.isNaN then .error fail else .ok (.bool (n != ofInt 0))
  | .bool, .text t =>
    match if big then (bigInteger t).map (· != 0) else parseBool t with
    | some b => .ok (.bool b)
    | none => .error fail

/-! ## Maps -/

section ValueMap

-- `Value::to_string` of `serde_json`, of what is no scalar
variable (compact : Json → String)

def jsonToValue : Json → Value
  | .bool b => .bool b
  | .number n => .number n.asF64
  | .string s => .text s
  | other => .text (compact other)

def ValueMap.apply (map : ValueMap) (value : Value) (datatype : Option DataType) :
    Except ApplyError Value :=
  match map.firstCase value datatype with
  | some case => .ok (jsonToValue compact case.output)
  | none =>
    match map.default with
    | some default => .ok (jsonToValue compact default)
    | none =>
      match map.convert with
      | some kind => Map.convert value kind (isBig datatype)
      | none => .error (.noMapping value)

/-- The value that a write of a case's output sends, if the case can be written. -/
def Matcher.written : Matcher → Option Json
  | .eq values => values.head?
  | .range _ _ write => write

/-- Whether a write accepts the output of a case. -/
def Matcher.writable : Matcher → Bool
  | .eq _ => true
  | .range _ _ write => write.isSome

def ValueMap.writableOutputs (map : ValueMap) : List Json :=
  map.cases.foldl (fun out case =>
    if case.matcher.writable && !out.any (jsonEqual · case.output) then out ++ [case.output]
    else out) []

/-- `ValueMap::invert`. A range without a `write` is read-only; a later case may write its output. -/
def ValueMap.invert (map : ValueMap) (value : Json) (datatype : Option DataType) :
    Except InvertError Json :=
  if Kind.of value ≠ some map.outputKind then .error (.wrongKind value map.outputKind)
  else
    match map.cases.findSome? fun case =>
      if jsonEqual case.output value then case.matcher.written else none with
    | some device => .ok device
    | none =>
      match map.convert with
      | some kind =>
        let native := (datatype.map Kind.ofDatatype).getD kind
        match Map.convert (jsonToValue compact value) native false with
        | .ok converted => .ok (valueToJson converted)
        | .error e => .error (.cannotConvert value e)
      | none =>
        if map.writableOutputs.isEmpty then .error (.readOnly value)
        else .error (.notAccepted value map.writableOutputs)

end ValueMap

end Map

end TedgeDot
