import TedgeDot.Flows.ParameterNames

/-!
# `ot-command-forward`

A thin-edge command becomes a connector command: a generic `ot_<verb>` passes through, a
`parameter_update` is reshaped into one `write-batch`, and a management verb goes to the service of
one connector instance.
-/

namespace TedgeDot.Flows.CommandForward

/-! ## What is there -/

/-- What `ot-parameter-state` recorded in `context.mapper`. -/
structure Recorded where
  /-- `ot-protocol:<device>` -/
  protocol : String → Option String
  /-- `ot-parameter-point:<device>:<set>:<key>` -/
  point : String → String → String → Option String

/-- The command types of the flow's input topics. -/
def allowed : List String :=
  ["ot_write", "ot_write_coil", "ot_set_config", "ot_define_device", "ot_remove_device",
    "ot_call_method", "parameter_update"]

/-- The flow's input topics, `te/+/+/+/+/cmd/<command type>/+`. -/
def subscribed : Topic → Bool
  | ["te", _, _, _, _, "cmd", commandType, _] => allowed.contains commandType
  | _ => false

def internalPrefix : String := "ot--"

def managementVerbs : List String := ["set-config", "define-device", "remove-device"]

def parameterUpdate : String := "parameter_update"

/-! ## A parameter update -/

/-- What `parameterRequest` returns. -/
structure ParameterRequest where
  set : Option String := none
  value : Option Json := none
  values : Option Json := none
  error : Option String := none

/-- What a Cumulocity operation names as `set`. -/
def fragmentRequest (set : String) : Option Json → ParameterRequest
  | some (.object members) => { set := some set, values := some (.object members) }
  | some value =>
    if isScalar value then { set := some set, value := some value }
    else { set := some set, error := some s!"operation carries no '{set}' fragment" }
  | none => { set := some set, error := some s!"operation carries no '{set}' fragment" }

def markerPrefix : String := "c8y_ParameterUpdate_"

def parameterRequest (payload : JsonMap) : ParameterRequest :=
  match (payload.get "operation").filter isObject with
  | some op =>
    match (entries op).find? fun m => startsWith markerPrefix m.1 with
    | none => { error := some "c8y_ParameterUpdate operation names no parameter set" }
    | some (marker, _) =>
      fragmentRequest (slice markerPrefix.length marker)
        (property (entries op) (slice markerPrefix.length marker))
  | none =>
    match (payload.get "set").bind Json.asStr, (payload.get "parameters").filter isObject,
        payload.get "value" with
    | some set, some parameters, _ => { set := some set, values := some parameters }
    | some set, none, some value =>
      if isScalar value then { set := some set, value := some value }
      else { set := some set, error := some s!"'{set}' must be a number, string or bool" }
    | _, _, _ =>
      { error := some
          "unsupported parameter_update payload (expected operation, set+parameters or set+value)" }

/-- The point that claimed `key` of `set` on `device`. -/
def ownerOf (mapper : Recorded) (device set key : String) : Option String :=
  (mapper.point device set key).filter fun owner => owner != ""

def pointOf (mapper : Recorded) (device set key : String) : String :=
  (ownerOf mapper device set key).getD key

/-- The writes of a request for `set`, a point with its value each, or why there are none. -/
def parameterWrites (mapper : Recorded) (device set : String) (req : ParameterRequest) :
    Except String (List (String × Json)) :=
  match req.value, ownerOf mapper device set literalKey with
  | some _, none => .error s!"'{set}' is not a literal parameter of this device"
  | some value, some literal => .ok [(literal, value)]
  | none, some _ => .error s!"'{set}' is a literal parameter: send a value, not an object"
  | none, none =>
    .ok ((ownOrder (req.values.elim [] entries)).map fun m =>
      (pointOf mapper device set m.1, m.2))

def writeObject (write : String × Json) : Json :=
  .object [("point", .string write.1), ("value", write.2)]

/-- What a request is to be written as. -/
def planned (mapper : Recorded) (device : String) (req : ParameterRequest) :
    Except String (List (String × Json)) :=
  match req.error, req.set with
  | some error, _ => .error error
  | none, some set => parameterWrites mapper device set req
  | none, none => .ok []

/-- The `origin` of a batch. -/
def batchOrigin (req : ParameterRequest) (error : Option String) : JsonMap :=
  [("command", .string parameterUpdate), ("set", req.set.elim .null .string),
    match req.value with
    | some value => ("value", value)
    | none => ("parameters", req.values.getD .null)] ++
    (error.map fun e => ("error", Json.string e)).toList

def parameterBatch (mapper : Recorded) (device : String) (payload : JsonMap) : JsonMap :=
  let req := parameterRequest payload
  let out (writes : List (String × Json)) (error : Option String) : JsonMap :=
    [("status", .string "init"), ("writes", .array (writes.map writeObject)),
      ("origin", .object (batchOrigin req error))] ++
      ((payload.get "c8y-mapper").map fun v => ("c8y-mapper", v)).toList
  match planned mapper device req with
  | .ok writes => out writes none
  | .error error => out [] (some error)

/-! ## Forwarding -/

/-- The protocol a command of the device goes to; `fallback` is the configured one. -/
def protocolOf (mapper : Recorded) (fallback device : String) : String :=
  match (mapper.protocol device).filter fun p => p != "" with
  | some protocol => protocol
  | none => if fallback = "" then "modbus" else fallback

/-- `managementService`: the service the request names, else the default one; none where that is
not a topic level. -/
def managementService (payload : JsonMap) (protocol : String) : Option String :=
  match payload.get "service" with
  | none | some .null => some s!"tedge-dot-{protocol}"
  | some service => service.asStr

/-- The request of a management command: without its `service`, and with the device in its
`origin`. -/
def managementRequest (payload : JsonMap) (device : String) : JsonMap :=
  JsonMap.insert (payload.filter fun m => m.1 != "service") "origin"
    (.object (JsonMap.insert ((payload.get "origin").elim [] entries) "device" (.string device)))

def verbOf (commandType : String) : String :=
  if commandType = parameterUpdate then "write-batch"
  else splitJoin '_' '-' (slice "ot_".length commandType)

/-- `status`, of an object: a text, or nothing. -/
def isInit (payload : JsonMap) : Bool := ((payload.get "status").bind Json.asStr) == some "init"

def onMessage (mapper : Recorded) (fallback : String) (topic : Topic) (payload : Json) :
    Option Message :=
  let device := topic.getD 2 ""
  let commandType := topic.getD (topic.length - 2) ""
  let id := topic.getD (topic.length - 1) ""
  match payload with
  | .object members =>
    if (startsWith "ot_" commandType || commandType == parameterUpdate) && isInit members then
      let protocol := protocolOf mapper fallback device
      let verb := verbOf commandType
      if managementVerbs.contains verb then
        ((managementService members protocol).filter isTopicSegment).map fun service =>
          { topic := ["te", "device", "main", "service", service, "ot", "cmd", verb,
              internalPrefix ++ id]
            payload := managementRequest members device }
      else some
        { topic := ["te", "device", device, "ot", protocol, "cmd", verb, internalPrefix ++ id]
          payload := if commandType = parameterUpdate then parameterBatch mapper device members
            else members }
    else none
  | _ => none

end TedgeDot.Flows.CommandForward
