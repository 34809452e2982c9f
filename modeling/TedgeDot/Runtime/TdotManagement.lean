import TedgeDot.Runtime.Management
import TedgeDot.Sdk.CJson

/-!
# Management commands of the C runtime

`deep_merge`, `find_device` and `apply_management` of `runtime.c`: the same three verbs on the
`cJSON` tree of the configuration document. A node that is changed in place is its place in the list
of members and the function applied to it.
-/

namespace TedgeDot.TdotManagement

open CJson (sameName)

mutual

/-- `deep_merge`, from the first member of the patch on. -/
def deepMerge (target : CMembers) (patch : List (String × CJson)) : CMembers :=
  match patch with
  | [] => target
  | (key, x) :: rest =>
    deepMerge (Members.set target key (mergedItem (Members.get target key) x)) rest

/-- What a member of the patch leaves under its key. -/
def mergedItem (existing : Option CJson) (x : CJson) : CJson :=
  match x with
  | .object members =>
    match existing with
    | some (.object target) => .object (deepMerge target members)
    | _ => .object members
  | x => x

end

/-- `deep_merge` on a node. -/
def mergeInto (config : CMembers) : CJson → CJson
  | .object target => .object (deepMerge target config)
  | v => v

/-- `find_device`, as an index. -/
def findDevice (devices : List CJson) (name : String) : Option Nat :=
  devices.findIdx? fun d => (d.getObjectItem "name").bind CJson.asString == some name

/-- The item under a key, whatever its case, or an empty one that is added when it is not of the
kind: the document and the place of the item. -/
def ensure (doc : CMembers) (key : String) (kind : CJson → Bool) (empty : CJson) : CMembers × Nat :=
  match doc.findIdx? fun m => sameName m.1 key with
  | some i =>
    if doc[i]?.any fun m => kind m.2 then (doc, i) else (doc ++ [(key, empty)], doc.length)
  | none => (doc ++ [(key, empty)], doc.length)

def update (doc : CMembers × Nat) (f : CJson → CJson) : CMembers :=
  doc.1.modify doc.2 fun m => (m.1, f m.2)

def itemsAt (doc : CMembers × Nat) : List CJson :=
  ((doc.1[doc.2]?).bind fun m => m.2.asArray).getD []

def withDevices (doc : CMembers) : CMembers × Nat := ensure doc "device" CJson.isArray (.array [])

/-- `apply_management` with `set-config`. -/
def applySetConfig (doc : CMembers) (req : CJson) : Except String CMembers :=
  let doc := withDevices doc
  match (req.getObjectItem "target").bind CJson.asString,
      (req.getObjectItem "config").bind CJson.asObject with
  | some target, some config =>
    match (if target == "connector" then
        ["service_name", "protocol"].find? fun key => (Members.get config key).isSome
      else none) with
    | some key => .error
        s!"set-config cannot change connector.{key}: edit the configuration file and restart the connector"
    | none =>
      if target == "connector" || target == "mqtt" || target == "connection" then
        .ok (update (ensure doc.1 target CJson.isObject (.object [])) (mergeInto config))
      else
        match Management.stripPrefix "device:" target with
        | some name =>
          match findDevice (itemsAt doc) name with
          | some i => .ok (update doc fun _ => .array ((itemsAt doc).modify i (mergeInto config)))
          | none => .error s!"unknown device '{name}'"
        | none => .error
            s!"unknown target '{target}' (expected connector|mqtt|connection|device:<name>)"
  | _, _ => .error "set-config needs `target` (string) and `config` (object)"

/-- `apply_management` with `define-device`. -/
def applyDefineDevice (doc : CMembers) (req : CJson) : Except String CMembers :=
  let doc := withDevices doc
  match (req.getObjectItem "device").bind CJson.asObject with
  | none => .error "define-device needs a `device` object with a `name`"
  | some device =>
    match ((CJson.object device).getObjectItem "name").bind CJson.asString with
    | none => .error "define-device needs a `device` object with a `name`"
    | some name =>
      match findDevice (itemsAt doc) name with
      | some i => .ok (update doc fun _ => .array ((itemsAt doc).set i (.object device)))
      | none => .ok (update doc fun _ => .array (itemsAt doc ++ [.object device]))

/-- `apply_management` with `remove-device`. -/
def applyRemoveDevice (doc : CMembers) (req : CJson) : Except String CMembers :=
  let doc := withDevices doc
  match (req.getObjectItem "device").bind CJson.asString with
  | none => .error "remove-device needs `device` (the device name)"
  | some name =>
    match findDevice (itemsAt doc) name with
    | some i => .ok (update doc fun _ => .array ((itemsAt doc).eraseIdx i))
    | none => .error s!"unknown device '{name}'"

def applyManagement (doc : CMembers) (verb : String) (req : CJson) : Except String CMembers :=
  if verb = "set-config" then applySetConfig doc req
  else if verb = "define-device" then applyDefineDevice doc req
  else applyRemoveDevice doc req

end TedgeDot.TdotManagement
