import TedgeDot.Lib.Binary64
import TedgeDot.Lib.Decimal
import TedgeDot.Sdk.Decode
import TedgeDot.Sdk.Document

/-!
# Value maps

`map.rs`: how a point's `map` table is parsed, and when one of its cases matches a value. A bound of
a range is read as a double; the entries of an `eq` list stay as they were written.
-/

namespace TedgeDot

def Number.asU64 : Number → Option UInt64
  | .posInt n => some n
  | _ => none

def Json.asF64 : Json → Option Float
  | .number n => some n.asF64
  | _ => none

namespace Map

/-- The JSON type of a value, as `value_repr` names it. -/
inductive Kind where
  | number
  | string
  | bool
deriving DecidableEq

namespace Kind

def of : Json → Option Kind
  | .number _ => some .number
  | .string _ => some .string
  | .bool _ => some .bool
  | _ => none

def parse (name : String) : Option Kind :=
  if name == "number" then some .number
  else if name == "string" then some .string
  else if name == "bool" then some .bool
  else none

def noun : Kind → String
  | .number => "a number"
  | .string => "a string"
  | .bool => "a bool"

end Kind

/-- How one case matches a value. -/
inductive Matcher where
  /-- Any of these values (a scalar `eq` is a list of one). -/
  | eq (values : List Json)
  /-- A numeric range, both bounds inclusive, either open. -/
  | range (min max : Option Float) (write : Option Json)

/-- One entry of `map.cases`. -/
structure Case where
  matcher : Matcher
  /-- `to`. -/
  output : Json

/-- A point's parsed `map`. -/
structure ValueMap where
  cases : List Case
  default : Option Json
  convert : Option Kind

/-! ## Parsing -/

/-- A bound or a `write`: a finite number, if there is one. -/
def number (case : JsonMap) (key : String) : Except String (Option Float) :=
  match case.get key with
  | none => .ok none
  | some v =>
    match v.asF64.filter Float.isFinite with
    | some n => .ok (some n)
    | none => .error s!".{key} must be a number"

/-- The values of an `eq`, which are scalars. -/
def eqValues (values : List Json) : Except String Matcher :=
  if values.any fun v => (Kind.of v).isNone then
    .error ".eq must be a number, a string, a bool or a list of them"
  else .ok (.eq values)

/-- The matcher of a case with an `eq`. -/
def parseEq (case : JsonMap) (eq : Json) : Except String Matcher :=
  if case.containsKey "write" then
    .error ".write is only for a range (the eq value is what is written)"
  else
    match eq with
    | .array [] => .error ".eq must not be an empty list"
    | .array items => eqValues items
    | scalar => eqValues [scalar]

/-- `lo > hi`, where a range has both. -/
def crossed : Option Float → Option Float → Bool
  | some lo, some hi => lo > hi
  | _, _ => false

def parseRange (case : JsonMap) (min max : Option Float) : Except String Matcher :=
  if crossed min max then .error ".min must not be greater than .max"
  else
    match case.get "write" with
    | none => .ok (.range min max none)
    | some w =>
      match w.asF64.filter Float.isFinite with
      | none => .error ".write must be a number"
      | some n =>
        if min.any (fun lo => n < lo) || max.any (fun hi => n > hi) then
          .error ".write must lie within the case's range"
        else .ok (.range min max (some w))

/-- How a case matches: by `eq`, or by a range. -/
def parseMatcher (case : JsonMap) (min max : Option Float) : Except String Matcher :=
  match case.get "eq", min.isSome || max.isSome with
  | some _, true => .error " cannot have both eq and min/max"
  | none, false => .error " needs eq, or min and/or max"
  | some eq, false => parseEq case eq
  | none, true => parseRange case min max

/-- `parse_case`. The error suffix names the key after `map.cases[i]`. -/
def parseCase (item : Json) : Except String Case :=
  match item.asObject with
  | none => .error " must be a table"
  | some case =>
    match case.get "to" with
    | none => .error " needs a to"
    | some output =>
      if (Kind.of output).isNone then .error ".to must be a number, a string or a bool"
      else do
        let min ← number case "min"
        let max ← number case "max"
        let matcher ← parseMatcher case min max
        return { matcher, output }

/-- The cases of a map, from the case of a number on. -/
def parseCases (i : Nat) : List Json → Except String (List Case)
  | [] => .ok []
  | item :: items =>
    match parseCase item with
    | .error e => .error s!"map.cases[{i}]{e}"
    | .ok case => do
      let cases ← parseCases (i + 1) items
      return case :: cases

def ValueMap.outputKind (map : ValueMap) : Kind :=
  (map.convert.or ((map.cases.head?.bind fun c => Kind.of c.output).or
    (map.default.bind Kind.of))).getD .string

def ValueMap.checkOutputKinds (map : ValueMap) : Except String Unit :=
  match map.cases.zipIdx.find? fun c => Kind.of c.1.output != some map.outputKind with
  | some (_, i) =>
    .error s!"map.cases[{i}].to must be {map.outputKind.noun} like the map's other outputs"
  | none =>
    match map.default with
    | some default =>
      if Kind.of default != some map.outputKind then
        .error s!"map.default must be {map.outputKind.noun} like the map's other outputs"
      else .ok ()
    | none => .ok ()

/-- The `as` of a map. -/
def parseAs (map : JsonMap) : Except String (Option Kind) :=
  match map.get "as" with
  | none => .ok none
  | some v =>
    match v.asStr.bind Kind.parse with
    | some kind => .ok (some kind)
    | none => .error "map.as must be one of \"number\", \"string\", \"bool\""

/-- The `default` of a map. -/
def parseDefault (map : JsonMap) : Except String (Option Json) :=
  match map.get "default" with
  | none => .ok none
  | some v =>
    if (Kind.of v).isSome then .ok (some v)
    else .error "map.default must be a number, a string or a bool"

/-- The items of `map.cases`. -/
def caseItems (map : JsonMap) : Except String (List Json) :=
  match map.get "cases" with
  | none => .ok []
  | some (.array items) => .ok items
  | some _ => .error "map.cases must be an array of tables"

/-- `ValueMap::parse`. Nothing for an empty table. -/
def ValueMap.parse (table : Json) : Except String (Option ValueMap) :=
  match table.asObject with
  | none => .error "map must be a table"
  | some map =>
    if map.isEmpty then .ok none
    else do
      let convert ← parseAs map
      let default ← parseDefault map
      if default.isSome && convert.isSome then throw "map.default and map.as cannot be combined"
      let items ← caseItems map
      let cases ← parseCases 0 items
      if cases.isEmpty && default.isNone && convert.isNone then
        throw "map needs cases, a default or as"
      let parsed : ValueMap := { cases, default, convert }
      parsed.checkOutputKinds
      return some parsed

/-! ## Matching -/

/-- An `i128`. -/
def isI128 (i : Int) : Bool := -2 ^ 127 ≤ i ∧ i < 2 ^ 127

/-- `text.parse::<i128>()`. -/
def parseI128 (text : String) : Option Int :=
  match text.toList with
  | '-' :: rest => ((Decimal.digits rest).map fun n : Nat => -(n : Int)).filter isI128
  | '+' :: rest => ((Decimal.digits rest).map fun n : Nat => (n : Int)).filter isI128
  | rest => ((Decimal.digits rest).map fun n : Nat => (n : Int)).filter isI128

def bigInteger (text : String) : Option Int := parseI128 text

/-- An `eq` number against a 64-bit integer carried as text. -/
def eqBig (a : Number) (text : String) : Bool :=
  match bigInteger text, a.asI64, a.asU64 with
  | some v, some i, _ => v == i.toInt
  | some v, none, some u => v == u.toNat
  | some v, none, none => a.asF64 == Binary64.ofInt v
  | none, _, _ => false

/-- One value of an `eq` list against the value. -/
def eqMatches (eq : Json) (value : Value) (big : Bool) : Bool :=
  match eq, value with
  | .bool a, .bool b => a == b
  | .string a, .text b => !big && a == b
  | .number a, .text text => big && eqBig a text
  | .number a, .number n => a.asF64 == n
  | _, _ => false

/-- The value as a number, when it is one: a 64-bit integer carried as text counts. -/
def asNumber (value : Value) (big : Bool) : Option Float :=
  match value with
  | .number n => some n
  | .text text => if big then (bigInteger text).map Binary64.ofInt else none
  | .bool _ => none

def caseMatches (matcher : Matcher) (value : Value) (big : Bool) : Bool :=
  match matcher with
  | .eq values => values.any fun eq => eqMatches eq value big
  | .range min max _ =>
    match asNumber value big with
    | some n => min.all (fun lo => lo ≤ n) && max.all (fun hi => n ≤ hi)
    | none => false

/-- Whether a point of the datatype may carry its value as text. -/
def isBig (datatype : Option DataType) : Bool :=
  datatype == some .int64 || datatype == some .uint64

/-- The first case that matches, as `ValueMap::apply` looks for it. -/
def ValueMap.firstCase (map : ValueMap) (value : Value) (datatype : Option DataType) :
    Option Case :=
  map.cases.find? fun case => caseMatches case.matcher value (isBig datatype)

end Map

end TedgeDot
