import TedgeDot.Lib.Binary64
import TedgeDot.Lib.Decimal
import TedgeDot.Sdk.Decode
import TedgeDot.Sdk.Toml

/-!
# The value maps of the C SDK

`map.c`: the same maps, read from the TOML table itself. An `eq` number keeps its integer beside its
double; the bounds of a range are doubles. A 64-bit integer carried as text is read into a signed or
an unsigned 64-bit integer, by its sign.
-/

namespace TedgeDot.TdotMap

/-- `tdot_map_kind_t`. -/
inductive TdotKind where
  | number
  | string
  | bool
deriving DecidableEq

/-- `tdot_map_val_t`. -/
inductive Val where
  | number (isInt : Bool) (i : Int64) (num : Float)
  | string (s : String)
  | bool (b : Bool)

def Val.kind : Val → TdotKind
  | .number _ _ _ => .number
  | .string _ => .string
  | .bool _ => .bool

/-- `tdot_map_case_t`. -/
structure TdotCase where
  eq : List Val
  range : Bool
  min : Option Float
  max : Option Float
  write : Option Val
  /-- `to`. -/
  output : Val

/-- `tdot_map_t`. -/
structure Tdot where
  cases : List TdotCase
  default : Option Val
  convert : Option TdotKind

/-! ## Parsing -/

/-- `scalar_in` and `scalar_at`. -/
def scalar : Toml → Option Val
  | .string s => some (.string s)
  | .boolean b => some (.bool b)
  | .integer i => some (.number true i (Binary64.ofInt i.toInt))
  | .float f => some (.number false 0 f)
  | _ => none

/-- A finite number, as `number_in` reads one. -/
def finite : Toml → Option Float
  | .integer i => some (Binary64.ofInt i.toInt)
  | .float f => if f.isFinite then some f else none
  | _ => none

/-- `number_in`, with the error of its callers. -/
def numberIn (t : TomlTable) (key : String) : Except String (Option Float) :=
  match t.get key with
  | none => .ok none
  | some v =>
    match finite v with
    | some n => .ok (some n)
    | none => .error s!".{key} must be a number"

/-- The values of an `eq`. -/
def scalars (items : List Toml) : Except String (List Val) :=
  match items.mapM scalar with
  | some values => .ok values
  | none => .error ".eq must be a number, a string, a bool or a list of them"

/-- The `eq` of a case. -/
def parseEq (t : TomlTable) (eq : Toml) : Except String (List Val) :=
  if t.containsKey "write" then
    .error ".write is only for a range (the eq value is what is written)"
  else
    match eq with
    | .array [] => .error ".eq must not be an empty list"
    | .array items => scalars items
    | v => scalars [v]

/-- `c->min > c->max`, where a range has both. -/
def crossed : Option Float → Option Float → Bool
  | some lo, some hi => lo > hi
  | _, _ => false

/-- The `write` of a range. -/
def parseWrite (t : TomlTable) (min max : Option Float) : Except String (Option Val) := do
  if crossed min max then throw ".min must not be greater than .max"
  match ← numberIn t "write" with
  | none => return none
  | some w =>
    if min.any (fun lo => w < lo) || max.any (fun hi => w > hi) then
      throw ".write must lie within the case's range"
    return (t.get "write").bind scalar

def parseCase (t : TomlTable) : Except String TdotCase :=
  match t.get "to" with
  | none => .error " needs a to"
  | some to' =>
    match scalar to' with
    | none => .error ".to must be a number, a string or a bool"
    | some output => do
      let min ← numberIn t "min"
      let max ← numberIn t "max"
      match t.get "eq", min.isSome || max.isSome with
      | some _, true => throw " cannot have both eq and min/max"
      | none, false => throw " needs eq, or min and/or max"
      | some eq, false =>
        let values ← parseEq t eq
        return { eq := values, range := false, min := none, max := none, write := none, output }
      | none, true =>
        let write ← parseWrite t min max
        return { eq := [], range := true, min, max, write, output }

/-- The cases of a map, from the case of a number on. -/
def parseCases (i : Nat) : List Toml → Except String (List TdotCase)
  | [] => .ok []
  | item :: items =>
    match item.asTable with
    | none => .error s!"map.cases[{i}] must be a table"
    | some t =>
      match parseCase t with
      | .error e => .error s!"map.cases[{i}]{e}"
      | .ok case => do
        let cases ← parseCases (i + 1) items
        return case :: cases

def parseKind (name : String) : Option TdotKind :=
  if name == "number" then some .number
  else if name == "string" then some .string
  else if name == "bool" then some .bool
  else none

def noun : TdotKind → String
  | .number => "a number"
  | .string => "a string"
  | .bool => "a bool"

/-- `tdot_map_output_kind`. -/
def Tdot.outputKind (map : Tdot) : TdotKind :=
  (map.convert.or ((map.cases.head?.map fun c => c.output.kind).or
    (map.default.map Val.kind))).getD .string

/-- The check of the kinds at the end of `tdot_map_parse`. -/
def Tdot.checkOutputKinds (map : Tdot) : Except String Unit :=
  match map.cases.zipIdx.find? fun c => c.1.output.kind != map.outputKind with
  | some (_, i) =>
    .error s!"map.cases[{i}].to must be {noun map.outputKind} like the map's other outputs"
  | none =>
    if map.default.any fun default => default.kind != map.outputKind then
      .error s!"map.default must be {noun map.outputKind} like the map's other outputs"
    else .ok ()

/-- The `as` of a map. -/
def parseAs (table : TomlTable) : Except String (Option TdotKind) :=
  match table.get "as" with
  | none => .ok none
  | some v =>
    match v.asStr.bind parseKind with
    | some kind => .ok (some kind)
    | none => .error "map.as must be one of \"number\", \"string\", \"bool\""

/-- The `default` of a map. -/
def parseDefault (table : TomlTable) : Except String (Option Val) :=
  match table.get "default" with
  | none => .ok none
  | some v =>
    match scalar v with
    | some default => .ok (some default)
    | none => .error "map.default must be a number, a string or a bool"

/-- The items of `map.cases`. -/
def caseItems (table : TomlTable) : Except String (List Toml) :=
  match table.get "cases" with
  | none => .ok []
  | some v =>
    match v.asArray with
    | some items => .ok items
    | none => .error "map.cases must be an array of tables"

/-- `tdot_map_parse`. Nothing for an empty table. -/
def parse (table : TomlTable) : Except String (Option Tdot) :=
  if table.isEmpty then .ok none
  else do
    let convert ← parseAs table
    let default ← parseDefault table
    if default.isSome && convert.isSome then throw "map.default and map.as cannot be combined"
    let items ← caseItems table
    let cases ← parseCases 0 items
    if cases.isEmpty && default.isNone && convert.isNone then
      throw "map needs cases, a default or as"
    let map : Tdot := { cases, default, convert }
    map.checkOutputKinds
    return some map

/-! ## Matching -/

/-- What `big_integer` fills: a negative integer, or one that is not. -/
inductive Big where
  | neg (n : Int64)
  | pos (n : UInt64)

/-- `strtoull`, of digits. -/
def strtoull (s : List Char) : Option Big :=
  match Decimal.digits s with
  | some n => if n < 2 ^ 64 then some (.pos (UInt64.ofNat n)) else none
  | none => none

/-- `strtoll`, of a minus sign and digits. -/
def strtollNeg (s : List Char) : Option Big :=
  match Decimal.digits s with
  | some 0 => some (.pos 0)
  | some n => if n ≤ 2 ^ 63 then some (.neg (Int64.ofInt (-n))) else none
  | none => none

def bigInteger (text : String) : Option Big :=
  match text.toList with
  | '-' :: rest => strtollNeg rest
  | '+' :: rest => strtoull rest
  | rest => strtoull rest

/-- `(double)`. -/
def Big.toDouble : Big → Float
  | .neg n => Binary64.ofInt n.toInt
  | .pos n => Binary64.ofInt n.toNat

/-- An `eq` integer against a 64-bit integer carried as text. -/
def Big.equals (i : Int64) : Big → Bool
  | .neg n => i == n
  | .pos n => 0 ≤ i && i.toUInt64 == n

def valMatches (eq : Val) (v : Value) (big : Bool) : Bool :=
  match eq, v with
  | .bool b, .bool b' => b' == b
  | .string s, .text text => !big && text == s
  | .number _ _ num, .number n => num == n
  | .number isInt i num, .text text =>
    big && match bigInteger text with
      | none => false
      | some which => if isInt then which.equals i else num == which.toDouble
  | _, _ => false

/-- The number that a range is compared with. -/
def asDouble (v : Value) (big : Bool) : Option Float :=
  match v with
  | .number n => some n
  | .text text => if big then (bigInteger text).map Big.toDouble else none
  | .bool _ => none

def caseMatches (c : TdotCase) (v : Value) (big : Bool) : Bool :=
  if !c.range then c.eq.any fun eq => valMatches eq v big
  else
    match asDouble v big with
    | some n => c.min.all (fun lo => lo ≤ n) && c.max.all (fun hi => n ≤ hi)
    | none => false

def isBig (datatype : Option DataType) : Bool :=
  datatype == some .int64 || datatype == some .uint64

/-- The first case that matches, as `tdot_map_apply` looks for it. -/
def Tdot.firstCase (map : Tdot) (v : Value) (datatype : Option DataType) : Option TdotCase :=
  map.cases.find? fun c => caseMatches c v (isBig datatype)

end TedgeDot.TdotMap
