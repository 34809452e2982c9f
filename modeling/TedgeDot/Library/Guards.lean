import TedgeDot.Sdk.Toml

/-!
# What a management command may not introduce

The two guards of `library.rs` that compare a document before and after a management command:
`reject_path_references` and `reject_local_only_settings`.
-/

namespace TedgeDot

namespace Toml

mutual

/-- `PartialEq` of `toml::Value`: doubles compare as doubles. -/
def beq (a b : Toml) : Bool :=
  match a with
  | .string s => match b with | .string s' => s == s' | _ => false
  | .integer n => match b with | .integer n' => n == n' | _ => false
  | .float f => match b with | .float f' => f == f' | _ => false
  | .boolean x => match b with | .boolean x' => x == x' | _ => false
  | .datetime s => match b with | .datetime s' => s == s' | _ => false
  | .array items => match b with | .array items' => beqItems items items' | _ => false
  | .table entries => match b with | .table entries' => beqEntries entries entries' | _ => false

def beqItems (as bs : List Toml) : Bool :=
  match as with
  | [] => bs.isEmpty
  | a :: as => match bs with | b :: bs => beq a b && beqItems as bs | [] => false

def beqEntries (as bs : List (String × Toml)) : Bool :=
  match as with
  | [] => bs.isEmpty
  | (k, a) :: as =>
    match bs with
    | (k', b) :: bs => k == k' && beq a b && beqEntries as bs
    | [] => false

end

/-- `==` of two optional values. -/
def same (a b : Option Toml) : Bool :=
  match a, b with
  | none, none => true
  | some a, some b => a.beq b
  | _, _ => false

end Toml

namespace Library

def devices (doc : Toml) : List Toml := ((doc.get "device").bind Toml.asArray).getD []

/-- The name of a device, if it is a string. -/
def deviceName (device : Toml) : Option String := (device.get "name").bind Toml.asStr

def deviceLabel (device : Toml) : String := (deviceName device).getD "<unnamed>"

/-- `is_path_reference`: a path rather than a library name. -/
def isPathReference (reference : String) : Bool :=
  ".toml".toList.isSuffixOf reference.toList || reference.toList.contains '/'

/-- The strings of a `points_from` array. -/
def references (device : Toml) : List String :=
  (((device.get "points_from").bind Toml.asArray).getD []).filterMap Toml.asStr

/-- `path_references`: every `(device, reference)` whose reference is a path. -/
def pathReferences (doc : Toml) : List (String × String) :=
  (devices doc).flatMap fun device =>
    ((references device).filter isPathReference).map fun reference => (deviceLabel device, reference)

def rejectPathReferences (before after : Toml) : Except String Unit :=
  match (pathReferences after).find? fun r => !(pathReferences before).contains r with
  | some (device, reference) => .error
      s!"device '{device}': points_from '{reference}' is a path; a management command may only name a point library, not a path"
  | none => .ok ()

mutual

/-- `collect_keys`: every `(path, value)` under `value` whose last key is one of `keys`. -/
def collectKeys (keys : List String) (value : Toml) : List (List String × Toml) :=
  match value with
  | .table entries => collectEntries keys entries
  | _ => []

def collectEntries (keys : List String) (entries : List (String × Toml)) :
    List (List String × Toml) :=
  match entries with
  | [] => []
  | (key, v) :: rest =>
    (if keys.contains key then [([key], v)]
      else (collectKeys keys v).map fun e => (key :: e.1, e.2)) ++ collectEntries keys rest

end

def lookup (value : Option Toml) (path : List String) : Option Toml :=
  path.foldl (fun v key => v.bind fun v => v.get key) value

/-- `changed_key`: the path of the first restricted key added, changed or removed. -/
def changedKey (before after : Option Toml) (keys : List String) : Option (List String) :=
  let old := (before.map (collectKeys keys)).getD []
  let new := (after.map (collectKeys keys)).getD []
  ((new.find? fun e => !Toml.same (lookup before e.1) (some e.2)).or
    (old.find? fun e => !Toml.same (lookup after e.1) (some e.2))).map Prod.fst

def localOnly (place : String) (path : List String) : String :=
  let path := String.intercalate "." path
  s!"{place}{path} may only be set in the configuration file, not by a management command"

/-- The `protocol_address` of the first device with a name. -/
def addressNamed (doc : Toml) (name : String) : Option Toml :=
  ((devices doc).find? fun d => deviceName d == some name).bind fun d => d.get "protocol_address"

/-- The restricted key a device of the new document changes. -/
def changedInDevice (before device : Toml) (keys : List String) : Option (List String) :=
  changedKey (addressNamed before (deviceLabel device)) (device.get "protocol_address") keys

def rejectLocalOnlySettings (before after : Toml) (keys : List String) : Except String Unit :=
  if keys.isEmpty then .ok ()
  else
    match changedKey (before.get "connection") (after.get "connection") keys with
    | some path => .error (localOnly "[connection] " path)
    | none =>
      match (devices after).findSome? fun device =>
        (changedInDevice before device keys).map fun path => (deviceLabel device, path) with
      | some (name, path) => .error (localOnly s!"device '{name}': protocol_address." path)
      | none => .ok ()

end Library

end TedgeDot
