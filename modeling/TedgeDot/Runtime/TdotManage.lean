import Mathlib.Data.Rat.Init
import Mathlib.Algebra.Order.Ring.Rat
import TedgeDot.Library.Guards
import TedgeDot.Runtime.TdotManagement

/-!
# Changing the running configuration of the C runtime

The two entry points of `runtime.c` that replace the running configuration: a management command
(`handle_management`) and a reload of the file (`reload_from_file`), with the refusals on the way.
The file is its text, which the loader reads again after every change; the module behind
`tdot_connector_configure` is a parameter, and so is what cJSON prints and compares.
-/

namespace TedgeDot.TdotManagement

/-- What the loader makes of a document: the point libraries it references, and what a running
connector cannot adopt in place. -/
structure TdotLoaded where
  libs : List CMembers := []
  protocol : String
  serviceName : String
  mqttHost : String := "127.0.0.1"
  mqttPort : Int := 1883
  /-- `stall_timeout_s`. -/
  stallTimeout : ℚ := 120

/-- `tdot_config_t`, with the document it was loaded from. -/
structure TdotConfig extends TdotLoaded where
  root : CMembers

/-- What the runtime calls. -/
structure TdotHost (M : Type) where
  /-- `tdot_connector_configure`, after the transports were released. -/
  configure : M → TdotConfig → M × Except String Unit
  localOnlySettings : List String
  /-- `cJSON_Compare`, case-sensitive. -/
  compare : CJson → CJson → Bool
  /-- `cJSON_PrintUnformatted`. -/
  print : CJson → String
  /-- `toml_emit`. -/
  emit : CMembers → String
  /-- `toml_parse`, as the document the loader keeps. -/
  parse : String → Except String CMembers

/-- What happens around one change: the loader's verdict on a document, which also depends on the
point libraries on disk, and whether the file next to the configuration is written and renamed. -/
structure TdotAround where
  resolve : CMembers → Except String TdotLoaded
  written : Bool := true
  renamed : Bool := true

/-- The running configuration, the text of its file, and the protocol module. -/
structure TdotState (M : Type) where
  config : TdotConfig
  /-- `cfg->path` is set. -/
  hasPath : Bool := true
  /-- `none` is a file that cannot be read. -/
  file : Option String
  connector : M

/-! ## The guards -/

/-- The items of a member of an object, when it is an array. -/
def itemsOf (v : CJson) (key : String) : List CJson :=
  ((v.getObjectItem key).bind CJson.asArray).getD []

def hasPathReference (doc : CJson) (device reference : String) : Bool :=
  let named := (itemsOf doc "device").find? fun dev =>
    (dev.getObjectItem "name").bind CJson.asString == some device
  named.any fun dev => (itemsOf dev "points_from").any fun ref => ref.asString == some reference

def rejectPathReferences (before after : CJson) : Except String Unit :=
  let introduced := (itemsOf after "device").findSome? fun dev =>
    let device := ((dev.getObjectItem "name").bind CJson.asString).getD "<unnamed>"
    ((itemsOf dev "points_from").filterMap CJson.asString).findSome? fun reference =>
      if Library.isPathReference reference && !hasPathReference before device reference then
        some (device, reference)
      else none
  match introduced with
  | some (device, reference) => .error
      s!"device '{device}': points_from '{reference}' is a path; a management command may only name a point library, not a path"
  | none => .ok ()

/-- `cJSON_GetObjectItemCaseSensitive`. -/
def memberOf (v : Option CJson) (key : String) : Option CJson :=
  (v.bind CJson.asObject).bind fun members => Members.get members key

def joinPath (path key : String) : String := if path = "" then key else path ++ "." ++ key

mutual

/-- `check_local_only`: the first restricted key that is not as before. -/
def checkLocalOnly (compare : CJson → CJson → Bool) (keys : List String) (node : CJson)
    (prev : Option CJson) (path : String) : Option String :=
  match node with
  | .object members => checkMembers compare keys members prev path
  | _ => none

def checkMembers (compare : CJson → CJson → Bool) (keys : List String)
    (members : List (String × CJson)) (prev : Option CJson) (path : String) : Option String :=
  match members with
  | [] => none
  | (key, item) :: rest =>
    let old := memberOf prev key
    (if keys.contains key then
        if old.any fun old => compare old item then none else some (joinPath path key)
      else checkLocalOnly compare keys item old (joinPath path key)).or
      (checkMembers compare keys rest prev path)

end

mutual

/-- `check_removed`: the first restricted key that is gone. -/
def checkRemoved (keys : List String) (prev : CJson) (node : Option CJson) (path : String) :
    Option String :=
  match prev with
  | .object members => removedMembers keys members node path
  | _ => none

def removedMembers (keys : List String) (members : List (String × CJson)) (node : Option CJson)
    (path : String) : Option String :=
  match members with
  | [] => none
  | (key, item) :: rest =>
    let now := memberOf node key
    (if keys.contains key then if now.isSome then none else some (joinPath path key)
      else checkRemoved keys item now (joinPath path key)).or (removedMembers keys rest node path)

end

def changedAt (compare : CJson → CJson → Bool) (keys : List String) (now prev : Option CJson) :
    Option String :=
  (now.bind fun node => checkLocalOnly compare keys node prev "").or
    (prev.bind fun prev => checkRemoved keys prev now "")

/-- `tdot_reject_local_only_settings`. -/
def rejectLocalOnlySettings (compare : CJson → CJson → Bool) (before after : CJson)
    (keys : List String) : Except String Unit :=
  if keys.isEmpty then .ok ()
  else
    match changedAt compare keys (memberOf (some after) "connection")
        (memberOf (some before) "connection") with
    | some path => .error
        s!"[connection] {path} may only be set in the configuration file, not by a management command"
    | none =>
      let devices := ((memberOf (some after) "device").bind CJson.asArray).getD []
      let oldDevices := ((memberOf (some before) "device").bind CJson.asArray).getD []
      let changed := devices.findSome? fun dev =>
        let device := ((memberOf (some dev) "name").bind CJson.asString).getD "<unnamed>"
        let prev := (oldDevices.find? fun d =>
          (memberOf (some d) "name").bind CJson.asString == some device).bind fun d =>
            memberOf (some d) "protocol_address"
        (changedAt compare keys (memberOf (some dev) "protocol_address") prev).map fun path =>
          (device, path)
      match changed with
      | some (device, path) => .error
          s!"device '{device}': protocol_address.{path} may only be set in the configuration file, not by a management command"
      | none => .ok ()

/-! ## The two entry points -/

variable {M : Type}

/-- `tdot_config_load`. -/
def load (h : TdotHost M) (around : TdotAround) (file : Option String) :
    Except String TdotConfig :=
  match file with
  | none => .error "cannot open"
  | some text =>
    match h.parse text with
    | .error e => .error e
    | .ok root =>
      match around.resolve root with
      | .error e => .error e
      | .ok loaded => .ok { loaded with root }

/-- The document a command leads to, or why it is refused: the command on the running document and
the two guards. -/
def patched (h : TdotHost M) (root : CMembers) (verb : String) (req : CJson) :
    Except String CMembers :=
  match applyManagement root verb req with
  | .error e => .error e
  | .ok doc =>
    match rejectPathReferences (.object root) (.object doc) with
    | .error e => .error e
    | .ok () =>
      match rejectLocalOnlySettings h.compare (.object root) (.object doc) h.localOnlySettings with
      | .error e => .error e
      | .ok () => .ok doc

/-- `try_configure`: the module with the candidate, or with the running configuration again. -/
def tryConfigure (h : TdotHost M) (s : TdotState M) (candidate : TdotConfig) :
    M × Except String Unit :=
  match h.configure s.connector candidate with
  | (m, .ok ()) => (m, .ok ())
  | (m, .error e) => ((h.configure m s.config).1, .error s!"configure failed: {e}")

/-- `handle_management`, and the reason a command was refused. -/
def handleManagement (h : TdotHost M) (around : TdotAround) (s : TdotState M) (verb : String)
    (req : CJson) : TdotState M × Except String Unit :=
  if !s.hasPath then (s, .error "configuration has no file path to persist to")
  else
    match patched h s.config.root verb req with
    | .error e => (s, .error e)
    | .ok doc =>
      let text := h.emit doc
      if !around.written then (s, .error "cannot write")
      else
        -- the candidate is loaded from the file next to the configuration
        match load h around (some text) with
        | .error e => (s, .error s!"resulting config is invalid: {e}")
        | .ok candidate =>
          match tryConfigure h s candidate with
          | (m, .error e) => ({ s with connector := m }, .error e)
          | (m, .ok ()) =>
            let file := if around.renamed then some text else s.file
            ({ s with config := candidate, file, connector := m }, .ok ())

def needsRestart (running candidate : TdotConfig) : Bool :=
  running.protocol != candidate.protocol || running.serviceName != candidate.serviceName ||
    running.mqttHost != candidate.mqttHost || running.mqttPort != candidate.mqttPort ||
      running.stallTimeout != candidate.stallTimeout

/-- `tdot_config_fingerprint`. -/
def fingerprint (h : TdotHost M) (config : TdotConfig) : String :=
  h.print (.array (.object config.root :: config.libs.map .object))

inductive Reloaded where
  | unchanged
  | kept
  | applied
  | restart
deriving DecidableEq

def reloadFromFile (h : TdotHost M) (around : TdotAround) (canRestart : Bool) (s : TdotState M) :
    TdotState M × Reloaded :=
  if !s.hasPath then (s, .unchanged)
  else
    match load h around s.file with
    | .error _ => (s, .kept)
    | .ok candidate =>
      if needsRestart s.config candidate then (s, if canRestart then .restart else .kept)
      else if fingerprint h s.config == fingerprint h candidate then (s, .unchanged)
      else
        match tryConfigure h s candidate with
        | (m, .error _) => ({ s with connector := m }, .kept)
        | (m, .ok ()) => ({ s with config := candidate, connector := m }, .applied)

end TedgeDot.TdotManagement
