import Mathlib.Data.List.Nodup
import Mathlib.Data.List.Count
import Mathlib.Logic.Function.Basic
import Mathlib.Tactic.Common
import TedgeDot.Lib.Machine
import TedgeDot.Runtime.Commands
import TedgeDot.Flows.CommandForward

/-!
# `ot-command-result`

The flow mirrors the transitions a connector publishes back to the thin-edge command. It keeps what
was requested under the id of the command, without its device or type.

The system has any number of thin-edge commands under way. `ot-command-forward` sends a request,
the connector publishes its transitions on the topic of the request, and `ot-command-result` takes
the messages of one command in their order and those of different commands in any. The mapper may
lose what the flow keeps.

## Main definitions

- `onMessage`: the flow.
- `step`: the system.
- `Returns`: what is published belongs to the command that caused it, and each command gets one
  terminal message.

## Main result

- `returns`: a run in which no two pending commands have one id returns every outcome.
-/

namespace TedgeDot.Flows.CommandResult

open TedgeDot.Machine CommandForward

/-! ## The flow -/

/-- The default of `command_prefix`. -/
def commandPrefix : String := "ot_"

/-- The id without the internal prefix. -/
def stripInternal (id : String) : String :=
  if startsWith internalPrefix id then slice internalPrefix.length id else id

/-- `context.script`: the requests, by their id. -/
abbrev Script := String → Option JsonMap

def originOf (payload : JsonMap) : Option JsonMap :=
  ((payload.get "origin").filter isObject).map entries

def isTerminal (payload : JsonMap) : Bool :=
  (payload.get "status").bind Json.asStr == some "successful" ||
    (payload.get "status").bind Json.asStr == some "failed"

/-- `payload?.status ?? ""` is empty. -/
def isBlank (payload : JsonMap) : Bool :=
  match payload.get "status" with
  | none | some .null => true
  | some (.string s) => s == ""
  | _ => false

section Flow

-- `String(value)`, of a value that is no string
variable (text : Json → String)

def asText : Json → String
  | .string s => s
  | v => text v

/-- `[origin.error, payload.reason].filter((r) => r).join("; ")` -/
def joinReasons (error : Json) (reason : Option Json) : String :=
  "; ".intercalate (((error :: reason.toList).filter truthy).map (asText text))

/-- The command type of the thin-edge command. -/
def commandTypeOf (origin : Option JsonMap) (verb : String) : String :=
  match (origin.bind fun o => o.get "command").filter truthy with
  | some command => asText text command
  | none => commandPrefix ++ splitJoin '-' '_' verb

/-- The device the command was issued on. -/
def targetOf (origin : Option JsonMap) (topic : Topic) : String :=
  match (origin.bind fun o => o.get "device").bind Json.asStr with
  | some device =>
    if topic.getD 3 "" = "service" ∧ isTopicSegment device = true then device else topic.getD 2 ""
  | none => topic.getD 2 ""

/-- The topic a transition on `topic` is mirrored to. -/
def returnTopic (origin : Option JsonMap) (topic : Topic) : Topic :=
  ["te", "device", targetOf origin topic, "", "", "cmd",
    commandTypeOf text origin (topic.getD (topic.length - 2) ""),
    stripInternal (topic.getD (topic.length - 1) "")]

/-- What is published for a transition, with the request in the cache, or nothing of it. -/
def mirror (request : JsonMap) (topic : Topic) (payload : JsonMap) : Message :=
  let origin := (originOf request).or (originOf payload)
  let merged := JsonMap.insertAll (request.filter fun m => m.1 != "writes") payload
  let error := (origin.bind fun o => o.get "error").filter truthy
  { topic := returnTopic text origin topic
    payload :=
      match error with
      | some error =>
        if (payload.get "status").bind Json.asStr = some "failed" then
          merged.insert "reason" (.string (joinReasons text error (payload.get "reason")))
        else merged
      | none => merged }

def onMessage (script : Script) (topic : Topic) (payload : Json) : Script × Option Message :=
  let id := stripInternal (topic.getD (topic.length - 1) "")
  match payload with
  | .object members =>
    if isInit members then (Function.update script id (some members), none)
    else if isBlank members then (script, none)
    else
      (if isTerminal members then Function.update script id none else script,
        some (mirror text ((script id).getD []) topic members))
  | _ => (script, none)

end Flow

/-! ## The system -/

/-- How far the connector is. -/
inductive Stage where
  | sent
  | executing
  | done
deriving DecidableEq

/-- A thin-edge command whose terminal message is not there yet. -/
structure Pending where
  number : Nat
  topic : Topic
  /-- Where the request went. -/
  address : Topic
  request : JsonMap
  /-- What was published at `address` and `ot-command-result` has not taken. -/
  inbox : List JsonMap
  stage : Stage

def Pending.id (p : Pending) : String := p.topic.getD (p.topic.length - 1) ""

/-- A state, with the number of commands there were and the commands that got a terminal message,
as often as they got one. -/
structure System where
  script : Script
  pending : List Pending
  next : Nat
  terminals : List Nat

def System.init : System where
  script _ := none
  pending := []
  next := 0
  terminals := []

inductive Event where
  /-- A thin-edge command is created; `mapper` is what is recorded then. -/
  | issued (mapper : Recorded) (topic : Topic) (payload : Json)
  /-- The connector publishes that it executes the command, with these members. -/
  | executing (number : Nat) (members : JsonMap)
  /-- The connector publishes how the command ended. -/
  | finished (number : Nat) (successful : Bool) (members : JsonMap)
  /-- `ot-command-result` takes the next message of the command. -/
  | taken (number : Nat)
  /-- The mapper loses `context.script`. -/
  | lost

/-- A transition of the connector: its members with the status, and the `origin` of the request. -/
def Pending.transition (p : Pending) (status : String) (members : JsonMap) : JsonMap :=
  Commands.withOrigin
    (Commands.statusPayload status
      (members.filter fun m => m.1 != "status" && m.1 != "origin")) (p.request.get "origin")

def Pending.publish (p : Pending) (status : String) (members : JsonMap) (stage : Stage) : Pending :=
  { p with inbox := p.inbox ++ [p.transition status members], stage := stage }

section System

variable (text : Json → String) (fallback : String)

/-- The request of a new command, where no pending command has its topic. -/
def System.forwarded (s : System) (mapper : Recorded) (topic : Topic) (payload : Json) :
    Option Message :=
  if subscribed topic = true ∧ ∀ p ∈ s.pending, p.topic ≠ topic then
    CommandForward.onMessage mapper fallback topic payload
  else none

/-- Changes the pending command with this number. -/
def System.modify (s : System) (number : Nat) (f : Pending → Pending) : System :=
  { s with pending := s.pending.map fun p => if p.number = number then f p else p }

/-- The command gets the next message of its inbox taken, a terminal one as its last. -/
def System.take (s : System) (p : Pending) (message : JsonMap) (rest : List JsonMap) :
    System × Option (Nat × Message) :=
  let out := onMessage text s.script p.address (.object message)
  ({ s with
      script := out.1
      pending := if isTerminal message then s.pending.filter fun q => q.number ≠ p.number
        else (s.modify p.number fun q => { q with inbox := rest }).pending
      terminals := s.terminals ++
        (out.2.filter fun m => isTerminal m.payload).toList.map fun _ => p.number },
    out.2.map fun m => (p.number, m))

def step (s : System) : Event → System × Option (Nat × Message)
  | .issued mapper topic payload =>
    match s.forwarded fallback mapper topic payload with
    | some request =>
      ({ s with
          pending := s.pending ++
            [{ number := s.next, topic, address := request.topic, request := request.payload
               inbox := [request.payload], stage := .sent }]
          next := s.next + 1 }, none)
    | none => (s, none)
  | .executing number members =>
    (s.modify number fun p =>
      if p.stage = .sent then p.publish "executing" members .executing else p, none)
  | .finished number successful members =>
    (s.modify number fun p =>
      if p.stage = .done then p
      else p.publish (if successful then "successful" else "failed") members .done, none)
  | .taken number =>
    match s.pending.find? fun p => p.number = number with
    | some p =>
      match p.inbox with
      | message :: rest => s.take text p message rest
      | [] => (s, none)
    | none => (s, none)
  | .lost => ({ s with script := fun _ => none }, none)

/-! ## What a step owes the commands -/

/-- A member of what is published for a transition of `p` is its own: of its request, of the
transition, or the reason put together from these. -/
def Own (p : Pending) (transition : JsonMap) (m : String × Json) : Prop :=
  m ∈ p.request ∨ m ∈ transition ∨
    ∃ origin error, originOf p.request = some origin ∧ origin.get "error" = some error ∧
      m = ("reason", .string (joinReasons text error (transition.get "reason")))

/-- Every command is pending, without a terminal message, or has one. Where its connector is done,
there is a message of it left to take. -/
def Settled (s : System) : Prop :=
  ∀ n < s.next,
    (∃ p ∈ s.pending, p.number = n ∧ s.terminals.count n = 0 ∧
      (p.stage = .done → p.inbox ≠ [])) ∨
    ((∀ p ∈ s.pending, p.number ≠ n) ∧ s.terminals.count n = 1)

/-- What is published is on the topic of the pending command that caused it, has nothing of another
command, and each command gets one terminal message. -/
def Returns (s : System) (event : Event) : Prop :=
  (∀ out ∈ (step text fallback s event).2, ∃ p ∈ s.pending, p.number = out.1 ∧
    out.2.topic = p.topic ∧ ∃ transition ∈ p.inbox, ∀ m ∈ out.2.payload, Own text p transition m) ∧
  Settled (step text fallback s event).1

/-- A new command has an id no pending command has, is one of a device, and, where it is not
reshaped, has no `origin` of its own that names a command. -/
def Apart (s : System) : Event → Prop
  | .issued mapper topic payload =>
    (s.forwarded fallback mapper topic payload).isSome →
      ∃ device commandType id, topic = ["te", "device", device, "", "", "cmd", commandType, id] ∧
        isTopicSegment device = true ∧ (∀ p ∈ s.pending, p.id ≠ id) ∧
        (commandType = parameterUpdate ∨ ∀ members, payload = .object members →
          ((originOf members).bind fun o => o.get "command").all fun c => !truthy c)
  | _ => True

end System

/-! ## Payloads -/

section Payloads

theorem mem_insert {map : JsonMap} {key : String} {value : Json} {m : String × Json}
    (h : m ∈ map.insert key value) : m = (key, value) ∨ m ∈ map := by
  rcases List.mem_cons.1 h with rfl | h
  · exact Or.inl rfl
  · exact Or.inr (List.mem_filter.1 h).1

theorem mem_insertAll {base patch : JsonMap} {m : String × Json}
    (h : m ∈ base.insertAll patch) : m ∈ base ∨ m ∈ patch := by
  induction patch generalizing base with
  | nil => exact Or.inl h
  | cons first patch ih =>
    rcases ih h with h | h
    · rcases mem_insert h with rfl | h
      · exact Or.inr List.mem_cons_self
      · exact Or.inl h
    · exact Or.inr (List.mem_cons_of_mem _ h)

theorem get_insertAll_of {base patch : JsonMap} {key : String} {value : Json}
    (hsame : ∀ m ∈ patch, m.1 = key → m.2 = value)
    (hthere : base.get key = some value ∨ ∃ m ∈ patch, m.1 = key) :
    (base.insertAll patch).get key = some value := by
  induction patch generalizing base with
  | nil => simpa [JsonMap.insertAll] using hthere
  | cons first patch ih =>
    refine @ih (base.insert first.1 first.2)
      (fun m hm => hsame m (List.mem_cons_of_mem _ hm)) ?_
    rw [JsonMap.get_insert]
    by_cases hkey : first.1 = key
    · simp [hkey, hsame first List.mem_cons_self hkey]
    · rw [if_neg hkey]
      refine hthere.imp_right ?_
      rintro ⟨m, hm, heq⟩
      rcases List.mem_cons.1 hm with rfl | hm
      · exact absurd heq hkey
      · exact ⟨m, hm, heq⟩

end Payloads

/-! ## The transitions of a command -/

section Transitions

variable (p : Pending) (status : String) (members : JsonMap)

theorem transition_status :
    (p.transition status members).get "status" = some (.string status) := by
  unfold Pending.transition Commands.withOrigin
  split
  · rw [JsonMap.get_insert, if_neg (by decide)]
    rfl
  · rfl

theorem status_of_mem {m : String × Json} (h : m ∈ p.transition status members)
    (hkey : m.1 = "status") : m.2 = .string status := by
  have hhead : m ∈ Commands.statusPayload status
      (members.filter fun m => m.1 != "status" && m.1 != "origin") := by
    unfold Pending.transition Commands.withOrigin at h
    split at h
    · rcases mem_insert h with heq | h
      · simp [heq] at hkey
      · exact h
    · exact h
  rcases List.mem_cons.1 hhead with rfl | hrest
  · rfl
  · simp [hkey] at hrest

theorem transition_origin :
    (p.transition status members).get "origin" = p.request.get "origin" := by
  unfold Pending.transition Commands.withOrigin
  cases horigin : p.request.get "origin" with
  | some origin => rw [JsonMap.get_insert, if_pos rfl]
  | none =>
    dsimp only
    unfold Commands.statusPayload
    rw [JsonMap.get_cons, if_neg (by simp)]
    cases hget : JsonMap.get (members.filter fun m => m.1 != "status" && m.1 != "origin")
        "origin" with
    | none => rfl
    | some v => simpa using JsonMap.mem_of_get hget

@[simp] theorem originOf_transition :
    originOf (p.transition status members) = originOf p.request := by
  rw [originOf, transition_origin, originOf]

@[simp] theorem originOf_nil : originOf [] = none := rfl

theorem isInit_transition (h : status ≠ "init") : isInit (p.transition status members) = false := by
  simp [isInit, transition_status, Json.asStr, h]

theorem isBlank_transition (h : status ≠ "") : isBlank (p.transition status members) = false := by
  simp [isBlank, transition_status, h]

theorem isTerminal_transition :
    isTerminal (p.transition status members) = (status == "successful" || status == "failed") := by
  simp [isTerminal, transition_status, Json.asStr]

theorem not_terminal_of_init {payload : JsonMap} (h : isInit payload = true) :
    isTerminal payload = false := by
  have hinit : (payload.get "status").bind Json.asStr = some "init" := by simpa [isInit] using h
  simp [isTerminal, hinit]

variable (text : Json → String) {p status members}

theorem mirror_topic {request : JsonMap} (h : request = [] ∨ request = p.request) :
    (mirror text request p.address (p.transition status members)).topic =
      returnTopic text (originOf p.request) p.address := by
  unfold mirror
  rcases h with rfl | rfl <;> simp

theorem isTerminal_mirror (request : JsonMap) (topic : Topic) :
    isTerminal (mirror text request topic (p.transition status members)).payload =
      isTerminal (p.transition status members) := by
  have hmerged : (JsonMap.insertAll (request.filter fun m => m.1 != "writes")
      (p.transition status members)).get "status" = some (.string status) :=
    get_insertAll_of (fun m hm hkey => status_of_mem p status members hm hkey)
      (Or.inr ⟨_, JsonMap.mem_of_get (transition_status p status members), rfl⟩)
  have hstatus : (mirror text request topic (p.transition status members)).payload.get "status" =
      some (.string status) := by
    unfold mirror
    dsimp only
    split
    · split
      · rw [JsonMap.get_insert, if_neg (by decide)]
        exact hmerged
      · exact hmerged
    · exact hmerged
  simp [isTerminal, hstatus, transition_status]

/-- What is mirrored is of the command's own request and transition. -/
theorem own_mirror {request : JsonMap} (h : request = [] ∨ request = p.request)
    (m : String × Json)
    (hm : m ∈ (mirror text request p.address (p.transition status members)).payload) :
    Own text p (p.transition status members) m := by
  have hmerged : m ∈ JsonMap.insertAll (request.filter fun m => m.1 != "writes")
      (p.transition status members) → Own text p (p.transition status members) m := by
    intro hin
    rcases mem_insertAll hin with hin | hin
    · have hreq := (List.mem_filter.1 hin).1
      rcases h with rfl | rfl
      · cases hreq
      · exact Or.inl hreq
    · exact Or.inr (Or.inl hin)
  have horigin : (originOf request).or (originOf (p.transition status members)) =
      originOf p.request := by
    rcases h with rfl | rfl <;> simp
  unfold mirror at hm
  rw [horigin] at hm
  dsimp only at hm
  split at hm
  · next error herror =>
    split at hm
    · rcases mem_insert hm with rfl | hin
      · -- the reason, with what the request noted
        have herror := Option.filter_eq_some_iff.1 herror
        obtain ⟨origin, ho, he⟩ := Option.bind_eq_some_iff.1 herror.1
        exact Or.inr (Or.inr ⟨origin, error, ho, he, rfl⟩)
      · exact hmerged hin
    · exact hmerged hm
  · exact hmerged hm

end Transitions

/-! ## The way there and back -/

section Routes

@[simp] theorem stripInternal_append (id : String) : stripInternal (internalPrefix ++ id) = id := by
  rw [stripInternal, if_pos (startsWith_append _ _), slice_append]

theorem typeOf_verbOf {commandType : String} (hallowed : commandType ∈ allowed)
    (hne : commandType ≠ parameterUpdate) :
    commandPrefix ++ splitJoin '-' '_' (verbOf commandType) = commandType := by
  have hplain : ∃ rest : String, commandType = commandPrefix ++ rest ∧ '-' ∉ rest.toList := by
    simp only [allowed, List.mem_cons, List.not_mem_nil, or_false] at hallowed
    rcases hallowed with rfl | rfl | rfl | rfl | rfl | rfl | rfl
    · exact ⟨"write", by decide, by decide⟩
    · exact ⟨"write_coil", by decide, by decide⟩
    · exact ⟨"set_config", by decide, by decide⟩
    · exact ⟨"define_device", by decide, by decide⟩
    · exact ⟨"remove_device", by decide, by decide⟩
    · exact ⟨"call_method", by decide, by decide⟩
    · exact absurd rfl hne
  obtain ⟨rest, rfl, hrest⟩ := hplain
  rw [verbOf, if_neg hne, show "ot_" = commandPrefix from rfl, slice_append,
    splitJoin_splitJoin hrest]

theorem isInit_parameterBatch (mapper : Recorded) (device : String) (payload : JsonMap) :
    isInit (parameterBatch mapper device payload) = true := by
  unfold parameterBatch
  dsimp only
  split <;> simp [isInit, JsonMap.get_cons, Json.asStr]

theorem originOf_parameterBatch (mapper : Recorded) (device : String) (payload : JsonMap) :
    ∃ error, originOf (parameterBatch mapper device payload) =
      some (batchOrigin (parameterRequest payload) error) := by
  unfold parameterBatch
  dsimp only
  split
  · exact ⟨none, by simp [originOf, JsonMap.get_cons, isObject, entries]⟩
  · next error _ => exact ⟨some error, by simp [originOf, JsonMap.get_cons, isObject, entries]⟩

theorem isInit_managementRequest {payload : JsonMap} (h : isInit payload = true) (device : String) :
    isInit (managementRequest payload device) = true := by
  unfold isInit managementRequest at *
  rw [JsonMap.get_insert, if_neg (by decide), get_erase, if_neg (by decide)]
  exact h

theorem originOf_managementRequest (payload : JsonMap) (device : String) :
    originOf (managementRequest payload device) =
      some (JsonMap.insert ((payload.get "origin").elim [] entries) "device" (.string device)) := by
  simp [originOf, managementRequest, JsonMap.get_insert, isObject, entries]

variable (text : Json → String) {mapper : Recorded} {fallback device commandType id : String}
variable {members : JsonMap} {request : Message}

theorem commandTypeOf_of_none {origin : Option JsonMap} (verb : String)
    (h : (origin.bind fun o => o.get "command").all fun c => !truthy c) :
    commandTypeOf text origin verb = commandPrefix ++ splitJoin '-' '_' verb := by
  unfold commandTypeOf
  cases hcommand : origin.bind fun o => o.get "command" with
  | none => rfl
  | some c =>
    have hfalse : truthy c = false := by simpa [hcommand] using h
    simp [Option.filter, hfalse]

theorem targetOf_device (origin : Option JsonMap) (device protocol verb id : String) :
    targetOf origin ["te", "device", device, "ot", protocol, "cmd", verb, id] = device := by
  unfold targetOf
  split <;> simp

theorem targetOf_service {origin : Option JsonMap} {device : String}
    (h : (origin.bind fun o => o.get "device") = some (.string device))
    (hdevice : isTopicSegment device = true) (service verb id : String) :
    targetOf origin ["te", "device", "main", "service", service, "ot", "cmd", verb, id] =
      device := by
  simp [targetOf, h, Json.asStr, hdevice]

theorem originOf_elim (payload : JsonMap) :
    (payload.get "origin").elim [] entries = (originOf payload).getD [] := by
  unfold originOf
  cases payload.get "origin" with
  | none => rfl
  | some origin => cases origin <;> simp [Option.filter, isObject, entries]

/-- The answer to a forwarded request goes to the topic the command came from. -/
theorem forwarded_routes (hallowed : commandType ∈ allowed) (hdevice : isTopicSegment device = true)
    (hown : commandType = parameterUpdate ∨
      ((originOf members).bind fun o => o.get "command").all fun c => !truthy c)
    (h : CommandForward.onMessage mapper fallback
      ["te", "device", device, "", "", "cmd", commandType, id] (.object members) = some request) :
    returnTopic text (originOf request.payload) request.topic =
        ["te", "device", device, "", "", "cmd", commandType, id] ∧
      isInit request.payload = true := by
  have hback := typeOf_verbOf hallowed
  simp only [CommandForward.onMessage, List.getD_cons_succ, List.getD_cons_zero, List.length_cons,
    List.length_nil, Nat.reduceAdd, Nat.reduceSub] at h
  split at h
  · next hinit =>
    have hinit : isInit members = true := (Bool.and_eq_true_iff.1 hinit).2
    split at h
    · next hverb =>
      -- to the service, with the device in `origin`
      obtain ⟨service, -, rfl⟩ := Option.map_eq_some_iff.1 h
      refine ⟨?_, isInit_managementRequest hinit device⟩
      have hne : commandType ≠ parameterUpdate := by
        rintro rfl
        simp [verbOf, managementVerbs] at hverb
      have hcommand : ((originOf (managementRequest members device)).bind fun o =>
          o.get "command").all fun c => !truthy c := by
        rw [originOf_managementRequest, originOf_elim]
        have hown := hown.resolve_left hne
        cases horigin : originOf members with
        | none => rfl
        | some origin => simpa [horigin, JsonMap.get_insert] using hown
      have hrecorded : ((originOf (managementRequest members device)).bind fun o =>
          o.get "device") = some (.string device) := by
        simp [originOf_managementRequest, JsonMap.get_insert]
      have htarget := targetOf_service hrecorded hdevice service (verbOf commandType)
        (internalPrefix ++ id)
      simp [returnTopic, htarget, commandTypeOf_of_none text _ hcommand, hback hne]
    · split at h
      · next htype =>
        obtain rfl := Option.some.inj h
        refine ⟨?_, isInit_parameterBatch _ _ _⟩
        obtain ⟨error, horigin⟩ := originOf_parameterBatch mapper device members
        have hcommand : (batchOrigin (parameterRequest members) error).get "command" =
            some (.string parameterUpdate) := rfl
        have hreturn : commandTypeOf text (originOf (parameterBatch mapper device members))
            (verbOf commandType) = commandType := by
          simp [commandTypeOf, horigin, hcommand, Option.filter, truthy, asText, htype,
            parameterUpdate]
        simpa [returnTopic, targetOf_device, htype] using hreturn
      · next htype =>
        obtain rfl := Option.some.inj h
        refine ⟨?_, hinit⟩
        have hcommand := commandTypeOf_of_none text (verbOf commandType) (hown.resolve_left htype)
        simp [returnTopic, targetOf_device, hcommand, hback htype]
  · cases h

end Routes

/-! ## The invariant -/

section Invariant

variable (text : Json → String)

/-- A transition the connector published for `p`. -/
def Echo (p : Pending) (message : JsonMap) : Prop :=
  ∃ status members, status ∈ ["executing", "successful", "failed"] ∧
    message = p.transition status members

/-- One command under way: its request leads back to it, and in its inbox there are its request and
its transitions, the terminal one last. -/
structure Good (p : Pending) : Prop where
  routed : returnTopic text (originOf p.request) p.address = p.topic
  init : isInit p.request = true
  own : ∀ message ∈ p.inbox, message = p.request ∨ Echo p message
  ends : ∃ quiet, (∀ message ∈ quiet, isTerminal message = false) ∧
    ((p.stage ≠ .done ∧ p.inbox = quiet) ∨
      (p.stage = .done ∧ ∃ last, isTerminal last = true ∧ p.inbox = quiet ++ [last]))

structure Inv (s : System) : Prop where
  numbers : (s.pending.map Pending.number).Nodup
  below : ∀ p ∈ s.pending, p.number < s.next
  ids : (s.pending.map Pending.id).Nodup
  good : ∀ p ∈ s.pending, Good text p
  /-- What is kept under an id is the request of the command that has it. -/
  kept : ∀ id request, s.script id = some request →
    ∃ p ∈ s.pending, p.id = id ∧ p.request = request
  returned : ∀ n ∈ s.terminals, n < s.next
  settled : Settled s

theorem inv_init : Inv text System.init where
  numbers := List.nodup_nil
  below := by simp [System.init]
  ids := List.nodup_nil
  good := by simp [System.init]
  kept := by simp [System.init]
  returned := by simp [System.init]
  settled := by simp [Settled, System.init]

variable {text}

variable {p : Pending} {message : JsonMap} {s : System}

theorem Good.id (h : Good text p) :
    stripInternal (p.address.getD (p.address.length - 1) "") = p.id := by
  unfold Pending.id
  rw [← h.routed]
  rfl

theorem Good.ends_ne_nil (h : Good text p) (hdone : p.stage = .done) : p.inbox ≠ [] := by
  obtain ⟨quiet, -, ⟨hne, -⟩ | ⟨-, last, -, hinbox⟩⟩ := h.ends
  · exact absurd hdone hne
  · simp [hinbox]

/-- A transition that is published is queued at its own command. -/
theorem Good.publish (h : Good text p) {status : String}
    (hstatus : status ∈ ["executing", "successful", "failed"]) (members : JsonMap) {stage : Stage}
    (hfresh : p.stage ≠ .done)
    (hstage : stage = .done ↔ (status == "successful" || status == "failed") = true) :
    Good text (p.publish status members stage) where
  routed := h.routed
  init := h.init
  own := by
    intro message hmem
    rcases List.mem_append.1 hmem with hmem | hmem
    · exact h.own message hmem
    · exact Or.inr ⟨status, members, hstatus, List.mem_singleton.1 hmem⟩
  ends := by
    obtain ⟨quiet, hquiet, ⟨-, hinbox⟩ | ⟨hdone, -⟩⟩ := h.ends
    · have hterminal := isTerminal_transition p status members
      by_cases hend : stage = .done
      · exact ⟨quiet, hquiet, Or.inr ⟨hend, _, hterminal.trans (hstage.1 hend),
          congrArg (· ++ _) hinbox⟩⟩
      · refine ⟨quiet ++ [p.transition status members], ?_,
          Or.inl ⟨hend, congrArg (· ++ _) hinbox⟩⟩
        have hquiet' : isTerminal (p.transition status members) = false := by
          rw [hterminal]
          exact Bool.eq_false_iff.2 fun hend' => hend (hstage.2 hend')
        intro message hmem
        rcases List.mem_append.1 hmem with hmem | hmem
        · exact hquiet message hmem
        · exact List.mem_singleton.1 hmem ▸ hquiet'
    · exact absurd hdone hfresh

/-- Reading a transition that is not the last one. -/
theorem Good.rest (h : Good text p) {rest : List JsonMap} (hinbox : p.inbox = message :: rest)
    (hquiet : isTerminal message = false) :
    Good text { p with inbox := rest } where
  routed := h.routed
  init := h.init
  own := fun m hm => h.own m (hinbox ▸ List.mem_cons_of_mem _ hm)
  ends := by
    obtain ⟨quiet, hall, hends⟩ := h.ends
    cases quiet with
    | nil =>
      rcases hends with ⟨-, hnil⟩ | ⟨-, last, hlast, hnil⟩
      · rw [hinbox] at hnil
        cases hnil
      · -- the only message would be the terminal one
        rw [hinbox] at hnil
        obtain rfl : message = last := List.head_eq_of_cons_eq hnil
        rw [hlast] at hquiet
        cases hquiet
    | cons first quiet =>
      refine ⟨quiet, fun m hm => hall m (List.mem_cons_of_mem _ hm), ?_⟩
      rw [hinbox] at hends
      rcases hends with ⟨hstage, heq⟩ | ⟨hstage, last, hlast, heq⟩
      · exact Or.inl ⟨hstage, List.tail_eq_of_cons_eq heq⟩
      · exact Or.inr ⟨hstage, last, hlast, List.tail_eq_of_cons_eq heq⟩

/-- Changing one command leaves the invariant of the others. -/
theorem Inv.modified (h : Inv text s) (number : Nat) {f : Pending → Pending}
    (hnumber : ∀ p, (f p).number = p.number) (hid : ∀ p, (f p).id = p.id)
    (hrequest : ∀ p, (f p).request = p.request)
    (hgood : ∀ p ∈ s.pending, p.number = number → Good text (f p)) :
    Inv text (s.modify number f) := by
  have hnumbers : (s.modify number f).pending.map Pending.number =
      s.pending.map Pending.number := by
    simp only [System.modify, List.map_map]
    refine List.map_congr_left fun p _ => ?_
    simp only [Function.comp_apply]
    split <;> simp [hnumber]
  have hids : (s.modify number f).pending.map Pending.id = s.pending.map Pending.id := by
    simp only [System.modify, List.map_map]
    refine List.map_congr_left fun p _ => ?_
    simp only [Function.comp_apply]
    split <;> simp [hid]
  -- only the command of that number has to be shown good again
  have hall : ∀ p ∈ (s.modify number f).pending, Good text p := by
    intro p hp
    obtain ⟨q, hq, rfl⟩ := List.mem_map.1 hp
    split
    · next heq => exact hgood q hq heq
    · exact h.good q hq
  refine ⟨hnumbers ▸ h.numbers, ?_, hids ▸ h.ids, hall, ?_, h.returned, ?_⟩
  · intro p hp
    obtain ⟨q, hq, rfl⟩ := List.mem_map.1 hp
    split
    · exact hnumber q ▸ h.below q hq
    · exact h.below q hq
  · intro id request hkept
    obtain ⟨q, hq, rfl, rfl⟩ := h.kept id request hkept
    refine ⟨_, List.mem_map_of_mem hq, ?_, ?_⟩
    · split <;> simp [hid]
    · split <;> simp [hrequest]
  · intro n hn
    rcases h.settled n hn with ⟨q, hq, rfl, hcount, -⟩ | ⟨hgone, hcount⟩
    · have hmem := List.mem_map_of_mem (f := fun p => if p.number = number then f p else p) hq
      refine Or.inl ⟨_, hmem, ?_, hcount, (hall _ hmem).ends_ne_nil⟩
      split <;> simp [hnumber]
    · refine Or.inr ⟨fun p hp => ?_, hcount⟩
      obtain ⟨q, hq, rfl⟩ := List.mem_map.1 hp
      have hne := hgone q hq
      split
      · exact hnumber q ▸ hne
      · exact hne

theorem Inv.lost (h : Inv text s) : Inv text { s with script := fun _ => none } :=
  { h with
    kept := fun _ _ hkept => by cases hkept
    settled := h.settled }

/-- A new command, under an id that no pending one has. -/
theorem Inv.issued (h : Inv text s) {topic : Topic} {request : Message}
    (hroute : returnTopic text (originOf request.payload) request.topic = topic)
    (hinit : isInit request.payload = true)
    (hfresh : ∀ p ∈ s.pending, p.id ≠ topic.getD (topic.length - 1) "") :
    Inv text { s with
      pending := s.pending ++
        [{ number := s.next, topic, address := request.topic, request := request.payload
           inbox := [request.payload], stage := .sent }]
      next := s.next + 1 } where
  numbers := by
    -- the number is new, as all pending ones lie below it
    have hbelow : s.next ∉ s.pending.map Pending.number := by
      intro hmem
      obtain ⟨p, hp, heq⟩ := List.mem_map.1 hmem
      exact absurd (h.below p hp) (by simp [heq])
    simpa [List.nodup_append] using ⟨h.numbers, fun p hp heq =>
      hbelow (List.mem_map.2 ⟨p, hp, heq⟩)⟩
  below := by
    intro p hp
    rcases List.mem_append.1 hp with hp | hp
    · exact Nat.lt_succ_of_lt (h.below p hp)
    · simp [List.mem_singleton.1 hp]
  ids := by
    simpa [List.nodup_append, Pending.id] using ⟨h.ids, hfresh⟩
  good := by
    intro p hp
    rcases List.mem_append.1 hp with hp | hp
    · exact h.good p hp
    · rw [List.mem_singleton.1 hp]
      exact
        { routed := hroute
          init := hinit
          own := fun m hm => Or.inl (List.mem_singleton.1 hm)
          ends := ⟨[request.payload],
            fun m hm => List.mem_singleton.1 hm ▸ not_terminal_of_init hinit,
            Or.inl ⟨by simp, rfl⟩⟩ }
  kept := by
    intro id request' hkept
    obtain ⟨p, hp, heq⟩ := h.kept id request' hkept
    exact ⟨p, List.mem_append_left _ hp, heq⟩
  returned := fun n hn => Nat.lt_succ_of_lt (h.returned n hn)
  settled := by
    intro n hn
    rcases Nat.lt_succ_iff_lt_or_eq.1 hn with hn | rfl
    · rcases h.settled n hn with ⟨p, hp, heq⟩ | ⟨hgone, hcount⟩
      · exact Or.inl ⟨p, List.mem_append_left _ hp, heq⟩
      · refine Or.inr ⟨fun p hp => ?_, hcount⟩
        rcases List.mem_append.1 hp with hp | hp
        · exact hgone p hp
        · rw [List.mem_singleton.1 hp]
          exact Nat.ne_of_gt hn
    · refine Or.inl ⟨_, List.mem_append_right _ List.mem_cons_self, rfl, ?_, by simp⟩
      exact List.count_eq_zero.2 fun hmem => Nat.lt_irrefl _ (h.returned _ hmem)

theorem Inv.kept_own (h : Inv text s) (hp : p ∈ s.pending) :
    (s.script p.id).getD [] = [] ∨ (s.script p.id).getD [] = p.request := by
  cases hkept : s.script p.id with
  | none => exact Or.inl rfl
  | some request =>
    obtain ⟨q, hq, hid, rfl⟩ := h.kept p.id request hkept
    exact Or.inr (congrArg Pending.request (List.inj_on_of_nodup_map h.ids hq hp hid))

theorem Inv.taken_cases (h : Inv text s) (hp : p ∈ s.pending) (hmem : message ∈ p.inbox) :
    (message = p.request ∧ isTerminal message = false ∧
      onMessage text s.script p.address (.object message) =
        (Function.update s.script p.id (some p.request), none)) ∨
    (∃ out, onMessage text s.script p.address (.object message) =
        (if isTerminal message then Function.update s.script p.id none else s.script, some out) ∧
      out.topic = p.topic ∧ isTerminal out.payload = isTerminal message ∧
      ∀ m ∈ out.payload, Own text p message m) := by
  have hgood := h.good p hp
  have hid := hgood.id
  rcases hgood.own message hmem with rfl | ⟨status, members, hstatus, rfl⟩
  · refine Or.inl ⟨rfl, not_terminal_of_init hgood.init, ?_⟩
    simp only [onMessage, hgood.init, if_true, hid]
  · right
    have hinit : isInit (p.transition status members) = false :=
      isInit_transition _ _ _ (by rintro rfl; simp at hstatus)
    have hblank : isBlank (p.transition status members) = false :=
      isBlank_transition _ _ _ (by rintro rfl; simp at hstatus)
    have hown := h.kept_own hp
    refine ⟨mirror text ((s.script p.id).getD []) p.address (p.transition status members), ?_,
      (mirror_topic text hown).trans hgood.routed, isTerminal_mirror text _ _,
      own_mirror text hown⟩
    simp only [onMessage, hinit, hblank, hid, Bool.false_eq_true, if_false]

/-- The last transition takes the command and its request away. -/
theorem Inv.ended (h : Inv text s) (hp : p ∈ s.pending) :
    Inv text { s with
      script := Function.update s.script p.id none
      pending := s.pending.filter fun q => q.number ≠ p.number
      terminals := s.terminals ++ [p.number] } where
  numbers := (List.filter_sublist.map _).nodup h.numbers
  below := fun q hq => h.below q (List.mem_filter.1 hq).1
  ids := (List.filter_sublist.map _).nodup h.ids
  good := fun q hq => h.good q (List.mem_filter.1 hq).1
  kept := by
    intro id request hkept
    by_cases hid : id = p.id
    · simp [hid] at hkept
    · have hkept : s.script id = some request := by simpa [hid] using hkept
      obtain ⟨q, hq, rfl, hrequest⟩ := h.kept id request hkept
      refine ⟨q, List.mem_filter.2 ⟨hq, ?_⟩, rfl, hrequest⟩
      have hne : q.number ≠ p.number := fun heq =>
        hid (congrArg Pending.id (List.inj_on_of_nodup_map h.numbers hq hp heq))
      simpa using hne
  returned := by
    intro n hn
    rcases List.mem_append.1 hn with hn | hn
    · exact h.returned n hn
    · exact List.mem_singleton.1 hn ▸ h.below p hp
  settled := by
    intro n hn
    by_cases hthis : n = p.number
    · -- pending until now, and so without a terminal message
      right
      subst hthis
      refine ⟨fun q hq => by simpa using (List.mem_filter.1 hq).2, ?_⟩
      rcases h.settled _ hn with ⟨-, -, -, hcount, -⟩ | ⟨hgone, -⟩
      · simp [hcount]
      · exact absurd rfl (hgone p hp)
    · have hcount : (s.terminals ++ [p.number]).count n = s.terminals.count n := by
        simp [Ne.symm hthis]
      rw [hcount]
      rcases h.settled n hn with ⟨q, hq, rfl, hrest⟩ | ⟨hgone, hone⟩
      · exact Or.inl ⟨q, List.mem_filter.2 ⟨hq, by simpa using hthis⟩, rfl, hrest⟩
      · exact Or.inr ⟨fun q hq => hgone q (List.mem_filter.1 hq).1, hone⟩

/-- The flow answers a transition at the topic of its command, with members of its own. -/
theorem Inv.take_spec (h : Inv text s) (hp : p ∈ s.pending) {rest : List JsonMap}
    (hinbox : p.inbox = message :: rest) :
    Inv text (s.take text p message rest).1 ∧
      ∀ out ∈ (s.take text p message rest).2, p.number = out.1 ∧ out.2.topic = p.topic ∧
        ∀ m ∈ out.2.payload, Own text p message m := by
  have hmem : message ∈ p.inbox := hinbox ▸ List.mem_cons_self
  have hothers : ∀ q ∈ s.pending, q.number = p.number → isTerminal message = false →
      Good text { q with inbox := rest } := by
    intro q hq heq hquiet
    obtain rfl : q = p := List.inj_on_of_nodup_map h.numbers hq hp heq
    exact (h.good q hp).rest hinbox hquiet
  have hmodified := fun hquiet => h.modified p.number (f := fun q => { q with inbox := rest })
    (fun _ => rfl) (fun _ => rfl) (fun _ => rfl) fun q hq heq => hothers q hq heq hquiet
  unfold System.take
  rcases h.taken_cases hp hmem with ⟨rfl, hquiet, hout⟩ | ⟨out, hout, htopic, hterminal, hown⟩
  · -- the request is kept under its id
    rw [hout]
    have hthis := hmodified hquiet
    refine ⟨?_, by simp⟩
    simp only [hquiet, Option.filter_none, Option.toList_none, List.map_nil, List.append_nil]
    refine { hthis with kept := ?_, settled := hthis.settled }
    intro id request hkept
    by_cases hid : id = p.id
    · subst hid
      obtain rfl : p.request = request := by simpa using hkept
      refine ⟨_, List.mem_map_of_mem hp, ?_, ?_⟩ <;> simp [Pending.id]
    · exact hthis.kept id request (by simpa [hid, System.modify] using hkept)
  · rw [hout]
    refine ⟨?_, fun out' hout' => ?_⟩
    rotate_left
    · obtain rfl := Option.some.inj hout'
      exact ⟨rfl, htopic, hown⟩
    cases hend : isTerminal message with
    | true =>
      simpa [hend, hterminal, Option.filter] using h.ended hp
    | false =>
      simp only [hterminal, hend, Option.filter, Bool.false_eq_true, if_false, Option.toList_none,
        List.map_nil, List.append_nil]
      exact hmodified hend

variable {fallback : String}

/-- Every step keeps the invariant and answers only what is pending. -/
theorem step_spec {event : Event} (hapart : Apart fallback s event) (h : Inv text s) :
    Inv text (step text fallback s event).1 ∧
      ∀ out ∈ (step text fallback s event).2, ∃ p ∈ s.pending, p.number = out.1 ∧
        out.2.topic = p.topic ∧
        ∃ transition ∈ p.inbox, ∀ m ∈ out.2.payload, Own text p transition m := by
  cases event with
  | issued mapper topic payload =>
    simp only [step]
    split
    · next request hrequest =>
      refine ⟨?_, by simp⟩
      obtain ⟨device, commandType, id, rfl, hdevice, hfresh, hown⟩ := hapart (by simp [hrequest])
      unfold System.forwarded at hrequest
      split at hrequest
      · next hnew =>
        have hallowed : commandType ∈ allowed := by simpa [subscribed] using hnew.1
        cases payload with
        | object members =>
          obtain ⟨hroute, hinit⟩ := forwarded_routes text hallowed hdevice
            (hown.imp_right fun hown => hown members rfl) hrequest
          exact h.issued hroute hinit hfresh
        | _ => simp [CommandForward.onMessage] at hrequest
      · cases hrequest
    · exact ⟨h, by simp⟩
  | executing number members =>
    refine ⟨h.modified number ?_ ?_ ?_ ?_, by simp [step]⟩
    · intro p; split <;> rfl
    · intro p; split <;> rfl
    · intro p; split <;> rfl
    · intro p hp _
      split
      · next hsent => exact (h.good p hp).publish (by simp) members (by simp [hsent]) (by simp)
      · exact h.good p hp
  | finished number successful members =>
    refine ⟨h.modified number ?_ ?_ ?_ ?_, by simp [step]⟩
    · intro p; split <;> rfl
    · intro p; split <;> rfl
    · intro p; split <;> rfl
    · intro p hp _
      split
      · exact h.good p hp
      · next hfresh =>
        cases successful
        · exact (h.good p hp).publish (by simp) members hfresh (by simp)
        · exact (h.good p hp).publish (by simp) members hfresh (by simp)
  -- the flow reads one transition: the only step that answers
  | taken number =>
    simp only [step]
    split
    · next p hfind =>
      have hp := List.mem_of_find?_eq_some hfind
      split
      · next message rest hinbox =>
        obtain ⟨hinv, hout⟩ := h.take_spec hp hinbox
        refine ⟨hinv, fun out ho => ?_⟩
        obtain ⟨hnumber, htopic, hown⟩ := hout out ho
        exact ⟨p, hp, hnumber, htopic, message, hinbox ▸ List.mem_cons_self, hown⟩
      · exact ⟨h, by simp⟩
    · exact ⟨h, by simp⟩
  | lost => exact ⟨h.lost, by simp [step]⟩

end Invariant

/-- **Each command's outcome returns to it**, in every run in which no command is created while one
with its id is pending. -/
theorem returns (text : Json → String) (fallback : String) (events : List Event)
    (hapart : AllSteps (step text fallback) (Apart fallback) System.init events) :
    AllSteps (step text fallback) (Returns text fallback) System.init events :=
  allSteps_of_allSteps (P := Inv text) (fun _ _ hstep h => (step_spec hstep h).1)
    (fun _ _ hstep h => ⟨(step_spec hstep h).2, (step_spec hstep h).1.settled⟩) hapart
    (inv_init text)

/-! ## Two commands -/

def unrecorded : Recorded where
  protocol _ := none
  point _ _ _ := none

/-- An operator's edit of the pump, and a write to the valve. -/
def bothIssued (editId writeId : String) : List Event :=
  [.issued unrecorded ["te", "device", "pump", "", "", "cmd", "parameter_update", editId]
      (.object [("status", .string "init"), ("set", .string "limits"),
        ("parameters", .object [("speed", .string "low")]), ("c8y-mapper", .string "edit")]),
    .issued unrecorded ["te", "device", "valve", "", "", "cmd", "ot_write", writeId]
      (.object [("status", .string "init"), ("point", .string "position"),
        ("value", .string "open")])]

/-- The write is executed after both requests were kept. -/
def bothRun (editId writeId : String) : List Event :=
  bothIssued editId writeId ++ [.taken 1, .taken 0, .executing 1 [], .taken 1, .finished 1 true [],
    .taken 1]

/-- The topics of what a run publishes. -/
def published (events : List Event) : List Topic :=
  (log (step (fun _ => "") "") System.init events).filterMap fun e => e.2.map fun out => out.2.topic

/-- Two commands whose transitions interleave. -/
theorem returns_two :
    AllSteps (step (fun _ => "") "") (Returns (fun _ => "") "") System.init (bothRun "1" "2") ∧
      published (bothRun "1" "2") =
        [["te", "device", "valve", "", "", "cmd", "ot_write", "2"],
          ["te", "device", "valve", "", "", "cmd", "ot_write", "2"]] := by
  refine ⟨returns _ _ _ ⟨fun _ => ?_, fun _ => ?_, trivial, trivial, trivial, trivial, trivial,
    trivial, trivial⟩, by decide⟩
  · exact ⟨"pump", "parameter_update", "1", rfl, by decide, by simp [System.init], Or.inl rfl⟩
  · refine ⟨"valve", "ot_write", "2", rfl, by decide, by decide, Or.inr ?_⟩
    rintro _ ⟨⟩
    rfl

/-- With one id for both, the write to the valve is answered as an edit of its parameters. -/
theorem answered_as_edit :
    ¬ AllSteps (step (fun _ => "") "") (Returns (fun _ => "") "") System.init (bothRun "1" "1") := by
  intro h
  have hrouted := allSteps_of_allSteps (P := fun _ => True) (fun _ _ _ _ => trivial)
    (D := fun s event => ∀ out ∈ (step (fun _ => "") "" s event).2,
      ∃ p ∈ s.pending, p.number = out.1 ∧ out.2.topic = p.topic)
    (fun _ _ hreturns _ out hout => by
      obtain ⟨p, hp, hnumber, htopic, -⟩ := hreturns.1 out hout
      exact ⟨p, hp, hnumber, htopic⟩) h trivial
  revert hrouted
  decide

end TedgeDot.Flows.CommandResult
