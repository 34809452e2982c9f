import TedgeDot.Sdk.Json

/-!
# Commands

How one instance takes a message on the command topics: `route_command` and `handle_command` of
`runtime.rs`. A topic is the list of its levels. What the protocol module answers, and how many of
the transitions are published before a publish fails, is given (`Work`).
-/

namespace TedgeDot.Commands

/-- An MQTT topic, split at `/`. -/
abbrev Topic := List String

/-- Who a message on the connector's command subscriptions is for. -/
inductive CommandRoute where
  | device (device verb : String)
  | service (verb : String)
  | elsewhere
deriving DecidableEq

def routeCommand (topic : Topic) (protocol service : String) (devices : List String) :
    CommandRoute :=
  match topic with
  | ["te", "device", device, "ot", p, "cmd", verb, _] =>
    if p == protocol then if devices.contains device then .device device verb else .elsewhere
    else .elsewhere
  | ["te", "device", "main", "service", s, "ot", "cmd", verb, _] =>
    if s == service then .service verb else .elsewhere
  | _ => .elsewhere

/-- The protocol-neutral management verbs. -/
def isManagementVerb (verb : String) : Bool :=
  verb == "set-config" || verb == "define-device" || verb == "remove-device"

/-- What the module answered to one write or call. -/
inductive Answer where
  | done (point : String) (value raw : Option Json)
  | refused (reason : String)

/-- What a command comes to: the module's answers, in order; for a management command why it
fails, or the devices the new configuration defines; and how many transitions are published. -/
structure Work where
  answers : List Answer := []
  management : Except String (List String) := .error ""
  published : Nat := 2

def withOrigin (payload : JsonMap) (origin : Option Json) : JsonMap :=
  match origin with
  | some origin => payload.insert "origin" origin
  | none => payload

/-- A payload that begins with its status. -/
def statusPayload (status : String) (members : JsonMap) : JsonMap :=
  ("status", .string status) :: members

/-- What a `done` answer adds to a payload. -/
def doneMembers (value raw : Option Json) : JsonMap :=
  (value.map fun v => ("value", v)).toList ++ (raw.map fun r => ("raw", r)).toList

/-- The terminal transition of a `write` or a module's own verb. -/
def writeResult (point : String) : Option Answer → JsonMap
  | some (.done point value raw) =>
    statusPayload "successful" (("point", .string point) :: doneMembers value raw)
  | some (.refused reason) =>
    statusPayload "failed" [("point", .string point), ("reason", .string reason)]
  | none => statusPayload "failed" [("point", .string point), ("reason", .string "")]

/-- The terminal transition of a `call-method`. -/
def callResult (point : String) : Option Answer → JsonMap
  | some (.done _ value _) =>
    statusPayload "successful" [("point", .string point), ("outputs", value.getD (.array []))]
  | some (.refused reason) =>
    statusPayload "failed" [("point", .string point), ("reason", .string reason)]
  | none => statusPayload "failed" [("point", .string point), ("reason", .string "")]

def asArray : Json → Option (List Json)
  | .array items => some items
  | _ => none

/-- The point of one entry of a `write-batch`, or why it is refused. -/
def parseWrite (i : Nat) (w : Json) : Except String String :=
  match ((w.get "point").bind Json.asStr).filter fun p => !p.isEmpty with
  | none => .error s!"writes[{i}] has no `point`"
  | some point =>
    if ((w.get "value").filter fun v => !v.isNull).isNone &&
        ((w.get "raw").bind Json.asStr).isNone then
      .error s!"writes[{i}] ({point}) has neither `value` nor `raw`"
    else .ok point

/-- `parse_batch_writes`, as the points. -/
def parseBatchWrites (json : Json) : Except String (List String) :=
  match (json.get "writes").bind asArray with
  | none => .error "write-batch request needs a `writes` array"
  | some [] => .error "write-batch request has no writes"
  | some writes => writes.zipIdx.mapM fun (w, i) => parseWrite i w

def attempt (point : String) : Answer → Json
  | .done point value raw =>
    .object (("point", .string point) :: ("status", .string "successful") :: doneMembers value raw)
  | .refused reason =>
    .object [("point", .string point), ("status", .string "failed"),
      ("reason", .string s!"write to {point} failed: {reason}")]

/-- The attempted writes, up to the first that fails, and its reason. -/
def attempts : List (String × Answer) → List Json × Option String
  | [] => ([], none)
  | (point, .refused reason) :: _ =>
    ([attempt point (.refused reason)], some s!"write to {point} failed: {reason}")
  | (point, answer) :: rest => (attempt point answer :: (attempts rest).1, (attempts rest).2)

def batchResult (results : List Json) : Option String → JsonMap
  | none => statusPayload "successful" [("results", .array results)]
  | some reason =>
    statusPayload "failed" [("reason", .string reason), ("results", .array results)]

/-- `handle_write_batch`. -/
def batchTransitions (json : Json) (answers : List Answer) : List JsonMap :=
  match parseBatchWrites json with
  | .error reason =>
    [statusPayload "failed" [("reason", .string reason), ("results", .array [])]]
  | .ok points =>
    [statusPayload "executing" [("points", .array (points.map Json.string))],
      batchResult (attempts (points.zip answers)).1 (attempts (points.zip answers)).2]

def requestPoint (json : Json) : String := ((json.get "point").bind Json.asStr).getD ""

/-- The transitions a command goes through. -/
def transitions (protocol service : String) (json : Json) (work : Work) :
    CommandRoute → List JsonMap
  | .service verb =>
    if isManagementVerb verb then
      [statusPayload "executing" [],
        match work.management with
        | .ok _ => statusPayload "successful" []
        | .error reason => statusPayload "failed" [("reason", .string reason)]]
    else
      [statusPayload "failed" [("reason", .string
        s!"'{verb}' is not a service command: only set-config, define-device and remove-device are; device commands go to te/device/<device>/ot/{protocol}/cmd/{verb}/<id>")]]
  | .device _ verb =>
    if isManagementVerb verb then
      [statusPayload "failed" [("reason", .string
        s!"management verb '{verb}' is addressed to the connector service: te/device/main/service/{service}/ot/cmd/{verb}/<id>")]]
    else if verb == "write-batch" then batchTransitions json work.answers
    else if verb == "call-method" then
      [statusPayload "executing" [("point", .string (requestPoint json))],
        callResult (requestPoint json) work.answers.head?]
    else
      [statusPayload "executing" [("point", .string (requestPoint json))],
        writeResult (requestPoint json) work.answers.head?]
  | .elsewhere => []

/-- The devices after a command: a management command that succeeds installs its own. -/
def devicesAfter (devices : List String) (work : Work) : CommandRoute → List String
  | .service verb =>
    if isManagementVerb verb then
      match work.management with
      | .ok devices => devices
      | .error _ => devices
    else devices
  | _ => devices

/-- `json.get("status").and_then(as_str).unwrap_or("")`. -/
def status (json : Json) : String := ((json.get "status").bind Json.asStr).getD ""

/-- What a command that is acted on leaves: the transitions published on its topic, and the
devices the instance defines. -/
structure Handling where
  published : List Json
  devices : List String

/-- `handle_command`: nothing for a message that is not a new request to this instance. A payload
that is no JSON is `none`. -/
def handleCommand (protocol service : String) (devices : List String) (topic : Topic)
    (payload : Option Json) (work : Work) : Option Handling :=
  match routeCommand topic protocol service devices with
  | .elsewhere => none
  | route =>
    match payload with
    | none => none
    | some json =>
      if status json != "init" then none
      else some {
        published := ((transitions protocol service json work route).take work.published).map
          fun payload => .object (withOrigin payload (json.get "origin"))
        devices := devicesAfter devices work route }

/-! ## What is published -/

/-- A payload says where a command stands: never `init`. -/
def Transition (payload : JsonMap) : Prop :=
  ∃ s ∈ ["executing", "successful", "failed"], payload.get "status" = some (.string s)

theorem transition_statusPayload {s : String} (hs : s ∈ ["executing", "successful", "failed"])
    (members : JsonMap) : Transition (statusPayload s members) :=
  ⟨s, hs, by rw [statusPayload, JsonMap.get_cons, if_pos rfl]⟩

theorem transition_writeResult (point : String) (answer : Option Answer) :
    Transition (writeResult point answer) := by
  match answer with
  | some (.done ..) => exact transition_statusPayload (by decide) _
  | some (.refused _) => exact transition_statusPayload (by decide) _
  | none => exact transition_statusPayload (by decide) _

theorem transition_callResult (point : String) (answer : Option Answer) :
    Transition (callResult point answer) := by
  match answer with
  | some (.done ..) => exact transition_statusPayload (by decide) _
  | some (.refused _) => exact transition_statusPayload (by decide) _
  | none => exact transition_statusPayload (by decide) _

theorem transition_batchResult (results : List Json) (failure : Option String) :
    Transition (batchResult results failure) := by
  cases failure with
  | none => exact transition_statusPayload (by decide) _
  | some reason => exact transition_statusPayload (by decide) _

theorem transition_executing (members : JsonMap) : Transition (statusPayload "executing" members) :=
  transition_statusPayload (by decide) members

theorem transition_failed (members : JsonMap) : Transition (statusPayload "failed" members) :=
  transition_statusPayload (by decide) members

/-- What a command publishes are transitions, from `executing` on. -/
theorem transition_transitions (protocol service : String) (json : Json) (work : Work)
    (route : CommandRoute) : ∀ p ∈ transitions protocol service json work route, Transition p := by
  -- every branch starts with `executing`, or refuses at once
  have hpair {last : JsonMap} (hlast : Transition last) (members : JsonMap) :
      ∀ p ∈ [statusPayload "executing" members, last], Transition p := by
    simp only [List.forall_mem_cons]
    exact ⟨transition_executing members, hlast, by simp⟩
  have hone (members : JsonMap) : ∀ p ∈ [statusPayload "failed" members], Transition p := by
    simp only [List.forall_mem_cons]
    exact ⟨transition_failed members, by simp⟩
  cases route with
  | elsewhere => simp [transitions]
  | service verb =>
    rw [transitions]
    split
    · apply hpair
      split
      · exact transition_statusPayload (by decide) _
      · exact transition_failed _
    · apply hone
  | device device verb =>
    rw [transitions]
    split
    · apply hone
    · split
      · unfold batchTransitions
        split
        · apply hone
        · exact hpair (transition_batchResult _ _) _
      · split
        · exact hpair (transition_callResult _ _) _
        · exact hpair (transition_writeResult _ _) _

theorem transition_withOrigin {payload : JsonMap} (h : Transition payload) (origin : Option Json) :
    Transition (withOrigin payload origin) := by
  obtain ⟨s, hs, hget⟩ := h
  refine ⟨s, hs, ?_⟩
  unfold withOrigin
  cases origin with
  | none => exact hget
  | some origin => rw [JsonMap.get_insert, if_neg (by decide), hget]

variable {protocol service : String} {devices : List String} {topic : Topic} {payload : Option Json}

theorem handleCommand_isSome {work : Work} :
    (handleCommand protocol service devices topic payload work).isSome = true ↔
      routeCommand topic protocol service devices ≠ .elsewhere ∧
        ∃ json, payload = some json ∧ status json = "init" := by
  unfold handleCommand
  split
  · rename_i hroute
    simp [hroute]
  · rename_i route hroute
    cases payload with
    | none => simp
    | some json =>
      by_cases hstatus : status json = "init"
      · have hne : routeCommand topic protocol service devices ≠ .elsewhere := hroute
        simp [hstatus, hne]
      · simp [hstatus]

theorem published_of_handled {work : Work} {handling : Handling}
    (h : handleCommand protocol service devices topic payload work = some handling) :
    ∀ json ∈ handling.published, ∃ p, json = .object p ∧ Transition p := by
  unfold handleCommand at h
  split at h
  · cases h
  · split at h
    · cases h
    · split at h
      · cases h
      · obtain rfl := Option.some.inj h
        intro json hjson
        obtain ⟨p, hp, rfl⟩ := List.mem_map.mp hjson
        have hp := transition_transitions _ _ _ _ _ p (List.mem_of_mem_take hp)
        exact ⟨_, rfl, transition_withOrigin hp _⟩

theorem status_published {work : Work} {handling : Handling}
    (h : handleCommand protocol service devices topic payload work = some handling) :
    ∀ json ∈ handling.published, status json ≠ "init" := by
  intro json hjson
  obtain ⟨p, rfl, s, hs, hget⟩ := published_of_handled h json hjson
  have hstatus : status (.object p) = s := by
    simp [status, Json.get, hget, Json.asStr]
  rw [hstatus]
  rintro rfl
  revert hs
  decide

end TedgeDot.Commands
