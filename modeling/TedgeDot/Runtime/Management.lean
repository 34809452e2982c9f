import TedgeDot.Sdk.Document

/-!
# Management commands on the document

The three management verbs of `runtime.rs` as they patch the configuration document:
`set-config` merges an object into a section, `define-device` inserts or replaces a device,
`remove-device` deletes one.
-/

namespace TedgeDot.Management

mutual

/-- `merge_object_into_table`, from the first member on. -/
def mergeObject (table : EditTable) (patch : List (String × Json)) : Except String EditTable :=
  match patch with
  | [] => .ok table
  | (key, value) :: rest =>
    match mergeItem (table.get key) value with
    | .error e => .error e
    | .ok item => mergeObject (table.insert key item) rest

/-- The item a member leaves under its key: an object goes into a standard table that is there,
and everything else replaces. -/
def mergeItem (item : Option Item) (value : Json) : Except String Item :=
  match value with
  | .object members =>
    match item with
    | some (.table entries) =>
      match mergeObject entries members with
      | .error e => .error e
      | .ok entries => .ok (.table entries)
    | _ =>
      match Json.membersToEdit members with
      | .error e => .error e
      | .ok inline => .ok (.value (.table inline))
  | value =>
    match value.toEdit with
    | .error e => .error e
    | .ok v => .ok (.value v)

end

def isObject : Json → Bool
  | .object _ => true
  | _ => false

mutual

/-- `json_object_to_table`. -/
def objectToTable (members : List (String × Json)) : Except String EditTable :=
  match members with
  | [] => .ok []
  | (key, value) :: rest =>
    match itemOf value with
    | .error e => .error e
    | .ok item =>
      match objectToTable rest with
      | .error e => .error e
      | .ok table => .ok ((key, item) :: table)

/-- A member of a new device: an array of objects is an array of tables. -/
def itemOf (value : Json) : Except String Item :=
  match value with
  | .array items =>
    if !items.isEmpty && items.all isObject then
      match tablesOf items with
      | .error e => .error e
      | .ok tables => .ok (.arrayOfTables tables)
    else
      match Json.itemsToEdit items with
      | .error e => .error e
      | .ok items => .ok (.value (.array items))
  | value =>
    match value.toEdit with
    | .error e => .error e
    | .ok v => .ok (.value v)

def tablesOf (items : List Json) : Except String (List EditTable) :=
  match items with
  | [] => .ok []
  | .object members :: rest =>
    match objectToTable members with
    | .error e => .error e
    | .ok table =>
      match tablesOf rest with
      | .error e => .error e
      | .ok tables => .ok (table :: tables)
  | _ :: rest => tablesOf rest

end

def stripPrefix (start s : String) : Option String :=
  if start.toList.isPrefixOf s.toList then some (String.ofList (s.toList.drop start.length))
  else none

def deviceName (device : EditTable) : Option String := (device.get "name").bind Item.asStr

def findDevice (devices : List EditTable) (name : String) : Option Nat :=
  devices.findIdx? fun device => deviceName device == some name

/-- `apply_set_config`: deep-merge `config` into the section named by `target`. -/
def applySetConfig (json : Json) (doc : Document) : Except String Document :=
  match (json.get "target").bind Json.asStr with
  | none => .error "set-config requires a 'target'"
  | some target =>
    match (json.get "config").bind Json.asObject with
    | none => .error "set-config requires a 'config' object"
    | some patch =>
      match (if target == "connector" then
          ["service_name", "protocol"].find? fun key => patch.containsKey key
        else none) with
      | some key => .error
          s!"set-config cannot change connector.{key}: edit the configuration file and restart the connector"
      | none =>
        match stripPrefix "device:" target with
        | some name =>
          match (doc.get "device").bind Item.asArrayOfTables with
          | none => .error "no devices are configured"
          | some devices =>
            match findDevice devices name with
            | none => .error s!"device '{name}' not found"
            | some i =>
              match mergeObject (devices.getD i []) patch with
              | .error e => .error e
              | .ok device => .ok (doc.insert "device" (.arrayOfTables (devices.set i device)))
        | none =>
          if target == "connector" || target == "mqtt" || target == "connection" then
            match (doc.get target).getD (.table []) with
            | .table entries =>
              match mergeObject entries patch with
              | .error e => .error e
              | .ok entries => .ok (doc.insert target (.table entries))
            | _ => .error s!"config section '{target}' is not a table"
          else .error
            s!"unknown set-config target '{target}' (expected connector, mqtt, connection or device:<name>)"

/-- `apply_define_device`: insert or replace a `[[device]]` entry by name. -/
def applyDefineDevice (json : Json) (doc : Document) : Except String Document :=
  match (json.get "device").bind Json.asObject with
  | none => .error "define-device requires a 'device' object"
  | some device =>
    match (JsonMap.get device "name").bind Json.asStr with
    | none => .error "device requires a 'name'"
    | some name =>
      match objectToTable device with
      | .error e => .error e
      | .ok table =>
        match (doc.get "device").getD (.arrayOfTables []) with
        | .arrayOfTables devices =>
          match findDevice devices name with
          | some i => .ok (doc.insert "device" (.arrayOfTables (devices.set i table)))
          | none => .ok (doc.insert "device" (.arrayOfTables (devices ++ [table])))
        | _ => .error "'device' is not an array of tables"

/-- `apply_remove_device`: delete the named `[[device]]` entry. -/
def applyRemoveDevice (json : Json) (doc : Document) : Except String Document :=
  match (json.get "device").bind Json.asStr with
  | none => .error "remove-device requires a 'device' name string"
  | some name =>
    match (doc.get "device").bind Item.asArrayOfTables with
    | none => .error "no devices are configured"
    | some devices =>
      match findDevice devices name with
      | some i => .ok (doc.insert "device" (.arrayOfTables (devices.eraseIdx i)))
      | none => .error s!"device '{name}' not found"

def applyManagement (verb : String) (json : Json) (doc : Document) : Except String Document :=
  match verb with
  | "set-config" => applySetConfig json doc
  | "define-device" => applyDefineDevice json doc
  | "remove-device" => applyRemoveDevice json doc
  | other => .error s!"unsupported management verb '{other}'"

end TedgeDot.Management
