import TedgeDot.Lib.Binary64
import TedgeDot.Lib.Members
import TedgeDot.Sdk.Document

/-!
# JSON trees of the C SDK

The `cJSON` tree: every number is a double, and a string ends at its first NUL. An object is the
list of its members in order, and `cJSON_GetObjectItem` finds a key whatever its case.
-/

namespace TedgeDot

inductive CJson where
  | null
  | bool (b : Bool)
  | number (valuedouble : Float)
  | string (valuestring : String)
  | array (items : List CJson)
  | object (members : List (String × CJson))

/-- The members of a `cJSON` object. -/
abbrev CMembers := List (String × CJson)

/-- A C string: what stands before the first NUL. -/
def cString (s : String) : String := String.ofList (s.toList.takeWhile (· != '\x00'))

def NulFree (s : String) : Prop := '\x00' ∉ s.toList

theorem cString_of_nulFree {s : String} (h : NulFree s) : cString s = s := by
  have hall : s.toList.takeWhile (· != '\x00') = s.toList := by
    rw [List.takeWhile_eq_self_iff]
    intro c hc
    simpa using fun heq : c = '\x00' => h (heq ▸ hc)
  rw [cString, hall, String.ofList_toList]

namespace CJson

/-- `cJSON_IsString` and `valuestring`. -/
def asString : CJson → Option String
  | .string s => some s
  | _ => none

/-- `cJSON_IsObject`. -/
def asObject : CJson → Option CMembers
  | .object members => some members
  | _ => none

/-- `cJSON_IsArray`. -/
def asArray : CJson → Option (List CJson)
  | .array items => some items
  | _ => none

/-- `case_insensitive_strcmp`. -/
def sameName (name other : String) : Bool :=
  name.toList.map Char.toLower == other.toList.map Char.toLower

/-- `cJSON_GetObjectItem`: the case of a key is ignored. -/
def getObjectItem (v : CJson) (key : String) : Option CJson :=
  match v with
  | .object members => (members.find? fun m => sameName m.1 key).map Prod.snd
  | _ => none

/-- A member that `tomlc99` keeps as a key with a value. -/
def isScalar : CJson → Bool
  | .array _ => false
  | .object _ => false
  | _ => true

/-- `cJSON_IsArray`. -/
def isArray (v : CJson) : Bool := v.asArray.isSome

/-- `cJSON_IsObject`. -/
def isObject (v : CJson) : Bool := v.asObject.isSome

end CJson

/-! ## What the C runtime reads -/

/-- The order of `toml_key_in`: values, then arrays, then tables. -/
def keyOrder (members : CMembers) : CMembers :=
  members.filter (·.2.isScalar) ++
    ((members.filter fun m => !m.2.isScalar).filter (·.2.isArray) ++
      (members.filter fun m => !m.2.isScalar).filter fun m => !m.2.isArray)

namespace Toml

mutual

/-- A value of `toml_to_json_table`: a datetime is none of the kinds it copies. -/
def toCJson : Toml → Option CJson
  | .string s => some (.string (cString s))
  | .integer n => some (.number (Binary64.ofInt n.toInt))
  | .float f => some (.number f)
  | .boolean b => some (.bool b)
  | .datetime _ => none
  | .array items => some (.array (itemsToCJson items))
  | .table entries => some (.object (keyOrder (entriesToCJson entries)))

/-- `toml_to_json_array`. -/
def itemsToCJson : List Toml → List CJson
  | [] => []
  | item :: rest => item.toCJson.toList ++ itemsToCJson rest

/-- `toml_to_json_table`, in the order of the entries. -/
def entriesToCJson : List (String × Toml) → List (String × CJson)
  | [] => []
  | (key, value) :: rest =>
    (value.toCJson.toList.map fun j => (cString key, j)) ++ entriesToCJson rest

end

end Toml

/-- `toml_to_json_table`. -/
def TomlTable.toTree (table : TomlTable) : CJson :=
  .object (keyOrder (Toml.entriesToCJson table))

end TedgeDot
