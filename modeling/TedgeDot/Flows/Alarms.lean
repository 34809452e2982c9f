import TedgeDot.Lib.Machine
import TedgeDot.Flows.Values

/-!
# Alarms

`ot-alarm/main.js`: the alarms that the samples of a point declare, raised and cleared by its good
values, and `alarm-state.js`, which records what the alarm topics say.

What the flow keeps for a device are own members, and `__proto__` never becomes one: to assign it
gives the object another prototype, which `Object.entries` does not list and the store does not
keep. A lookup that ends at a prototype finds no `point` and no `active`, as where nothing is kept.

## Main result

- `onMessage_at`: what a message does to one alarm of a device, in terms of what was kept of that
  alarm alone.
-/

namespace TedgeDot.Flows.Alarms

open TedgeDot.Machine

/-! ## Conditions -/

/-- What a condition holds by. -/
inductive Reason where
  | equals
  | notEquals
  | above
  | below
deriving DecidableEq

/-- A condition state that is known. -/
inductive Active where
  | heldBy (reason : Reason)
  /-- `true`: held, for a reason not known. -/
  | held
  /-- `false` -/
  | clear
deriving DecidableEq

/-- `Boolean(active)` -/
def Active.standing : Active → Bool
  | .clear => false
  | _ => true

/-- A condition that names something to hold by. -/
structure Condition where
  equals : Option (List Json)
  notEquals : Option (List Json)
  above : Option Float
  below : Option Float
  hysteresis : Float
  usable : equals.isSome ∨ notEquals.isSome ∨ above.isSome ∨ below.isSome

def listOf : Option Json → List Json
  | none | some .null => []
  | some (.array items) => items
  | some v => [v]

/-- `a === b`, of parsed values: no two arrays or objects are one. -/
def strictEquals : Json → Json → Bool
  | .null, .null => true
  | .bool a, .bool b => a == b
  | .number a, .number b => a.asF64 == b.asF64
  | .string a, .string b => a == b
  | _, _ => false

/-- `typeof v === "number" && isFinite(v)` -/
def finiteNumber : Json → Option Float
  | .number n => if n.asF64.isFinite then some n.asF64 else none
  | _ => none

def conditionOf : Json → Option Condition
  | .object members =>
    let equals := (JsonMap.get members "equals").map fun v => listOf (some v)
    let notEquals := (JsonMap.get members "not_equals").map fun v => listOf (some v)
    let above := (JsonMap.get members "above").bind finiteNumber
    let below := (JsonMap.get members "below").bind finiteNumber
    let hysteresis := match JsonMap.get members "hysteresis" with
      | some (.number n) => if 0 < n.asF64 then n.asF64 else 0
      | _ => 0
    if usable : equals.isSome ∨ notEquals.isSome ∨ above.isSome ∨ below.isSome then
      some { equals, notEquals, above, below, hysteresis, usable }
    else none
  | _ => none

/-- `{ equals: [true], hysteresis: 0 }` -/
def whileTrue : Condition where
  equals := some [.bool true]
  notEquals := none
  above := none
  below := none
  hysteresis := 0
  usable := .inl rfl

/-- A limit of a condition. -/
inductive Side where
  | above
  | below
deriving DecidableEq

def Side.reason : Side → Reason
  | .above => .above
  | .below => .below

namespace Condition

variable (c : Condition)

def listed (list : List Json) (value : Json) : Bool := list.any fun v => strictEquals v value

def limit : Side → Option Float
  | .above => c.above
  | .below => c.below

/-- Whether a number is beyond the limit of a side. -/
def beyond (side : Side) (value : Float) : Bool :=
  match side, c.limit side with
  | .above, some limit => limit < value
  | .below, some limit => value < limit
  | _, none => false

/-- Whether a number is beyond the limit of a side moved back by the hysteresis. -/
def inBand (side : Side) (value : Float) : Bool :=
  match side, c.limit side with
  | .above, some limit => limit - c.hysteresis < value
  | .below, some limit => value < limit + c.hysteresis
  | _, none => false

end Condition

/-- `limit` of `evaluate`: whether the condition holds by this side, and whether that is unknown. -/
def holdsBy (c : Condition) (value : Float) (was : Option Active) (side : Side) : Bool × Bool :=
  if c.beyond side value then (true, false)
  else if c.inBand side value then
    (was == some (.heldBy side.reason) || was == some .held, was == none)
  else (false, false)

/-- What `evaluate` makes of the limits. -/
def evaluateLimits (c : Condition) (value : Float) (was : Option Active) : Option Active :=
  let (above, aboveUnknown) := holdsBy c value was .above
  let (below, belowUnknown) := holdsBy c value was .below
  if above then some (.heldBy .above)
  else if below then some (.heldBy .below)
  else if aboveUnknown || belowUnknown then none
  else some .clear

/-- `evaluate`; none where the value is inside a band and the state before is unknown. -/
def evaluate (c : Condition) (value : Json) (was : Option Active) : Option Active :=
  if c.equals.any (Condition.listed · value) then some (.heldBy .equals)
  else if c.notEquals.any fun list => !Condition.listed list value then some (.heldBy .notEquals)
  else match finiteNumber value with
    | some n => evaluateLimits c n was
    | none => some .clear

/-! ## Declarations -/

/-- A usable alarm of a sample. -/
structure Alarm where
  type : String
  severity : String
  text : String
  condition : Condition

def severities : List String := ["critical", "major", "minor", "warning"]

/-- `point` of `onSample`. -/
def pointOf (name : String) (sample : Json) : String :=
  match (sample.get "point").bind Json.asStr with
  | some point => if point ≠ "" then point else name
  | none => name

/-- One entry of `alarmsOf`, where it can be used. -/
def alarmOf (point : String) : Json → Option Alarm
  | .object entry =>
    let type := (JsonMap.get entry "type").getD (.string (point ++ "_alarm"))
    let severity := (JsonMap.get entry "severity").getD (.string "major")
    let condition := match JsonMap.get entry "when" with
      | none => some whileTrue
      | some v => conditionOf v
    let text := ((JsonMap.get entry "text").bind Json.asStr).getD "{point} is {value}"
    match type, severity, condition with
    | .string type, .string severity, some condition =>
      if isTopicSegment type ∧ severity ∈ severities then
        some { type, severity, text, condition }
      else none
    | _, _, _ => none
  | _ => none

/-- An alarm is taken unless one of its type was. -/
def takeAlarm (out : List Alarm) (a : Alarm) : List Alarm :=
  if out.any fun b => b.type == a.type then out else out ++ [a]

def alarmsOf (sample : Json) (point : String) : List Alarm :=
  ((listOf ((sample.get "meta").bind (·.get "alarm"))).filterMap (alarmOf point)).foldl takeAlarm []

/-! ## Messages -/

/-- The payload of a raised alarm. -/
structure Raise where
  severity : String
  text : String
  time : Option Json

/-- A retained message on an alarm topic; without a payload it clears the alarm. -/
structure Published where
  topic : Topic
  payload : Option Raise

def alarmTopic (device type : String) : Topic := ["te", "device", device, "", "", "a", type]

def clearMessage (topic : Topic) : Published where
  topic := topic
  payload := none

/-- What stands for one of the names, at the start of a text, and how long the name is. -/
def placeholder (vars : List (String × String)) (text : List Char) : Option (List Char × Nat) :=
  (vars.find? fun v => (v.1.toList ++ ['}']).isPrefixOf text).map fun v =>
    (v.2.toList, v.1.length + 1)

/-- `text.replace`, from a place on; the next `skip` characters were replaced. -/
def fill (vars : List (String × String)) : Nat → List Char → List Char
  | _, [] => []
  | skip + 1, _ :: text => fill vars skip text
  | 0, c :: text =>
    match if c = '{' then placeholder vars text else none with
    | some (value, length) => value ++ fill vars length text
    | none => c :: fill vars 0 text

section

variable (stringify : Json → String)

def render (text : String) (sample : Json) (point device : String) : String :=
  let value := match sample.get "value" with
    | some (.string s) => s
    | some v => stringify v
    | none => "undefined"
  let unit := ((sample.get "unit").bind Json.asStr).getD ""
  let vars := [("point", point), ("value", value), ("unit", unit), ("device", device)]
  String.ofList (fill vars 0 text.toList)

/-! ## What is kept -/

/-- What is kept of an alarm: `{ point, protocol, active }`, without `active` while it is unknown,
or `{ active: false }`. -/
inductive Known where
  | owned (point protocol : String) (active : Option Active)
  | free
deriving DecidableEq

/-- `owns` -/
def Known.ownedBy (point protocol : String) : Known → Bool
  | .owned p q _ => p == point && q == protocol
  | .free => false

def Known.active : Known → Option Active
  | .owned _ _ active => active
  | .free => some .clear

/-- What is kept of the alarms of a device, by their types. -/
structure State where
  members : List (String × Known)
  distinct : (Members.keys members).Nodup

namespace State

/-- `{}` -/
def empty : State where
  members := []
  distinct := List.nodup_nil

def get (s : State) (type : String) : Option Known := Members.get s.members type

/-- `state[type] = known` -/
def set (s : State) (type : String) (known : Known) : State :=
  if type = "__proto__" then s
  else ⟨Members.set s.members type known, Members.nodup_keys_set s.distinct type known⟩

/-- `Object.entries(state)`: indices come first, in their order. -/
def entries (s : State) : List (String × Known) :=
  (s.members.filter fun m => (arrayIndex m.1).isSome).insertionSort
      (fun m n => (arrayIndex m.1).getD 0 ≤ (arrayIndex n.1).getD 0) ++
    s.members.filter fun m => (arrayIndex m.1).isNone

end State

/-! ## Samples and link statuses -/

/-- `prune`, of an entry that goes. -/
def prune (device : String) (s : State) (m : String × Known) : State × List Published :=
  (s.set m.1 .free,
    if m.2.active = some .clear then [] else [clearMessage (alarmTopic device m.1)])

/-- The payloads a reading publishes: one on a change, and whenever the state was unknown. -/
def settle (raise : Raise) (was : Option Active) (holds : Active) : List (Option Raise) :=
  if was.map Active.standing = some holds.standing then []
  else [if holds.standing then some raise else none]

/-- A message as the flow gets it: the level of its topic that names the point, and the body. -/
structure Sample where
  device : String
  protocol : String
  name : String
  body : Json

namespace Sample

def point (sample : Sample) : String := pointOf sample.name sample.body

/-- `readable`, with the value. -/
def reading (sample : Sample) : Option Json :=
  if (sample.body.get "quality").bind Json.asStr = some "good" then sample.body.get "value" else none

def alarms (sample : Sample) : List Alarm := alarmsOf sample.body sample.point

/-- Whether the sample describes its point. -/
def describes (sample : Sample) : Bool :=
  (sample.body.get "access").isSome || (sample.body.get "meta").isSome

def raise (sample : Sample) (alarm : Alarm) : Raise where
  severity := alarm.severity
  text := render stringify alarm.text sample.body sample.point sample.device
  time := sample.body.get "ts"

end Sample

/-- `was`, of an alarm that the sample may declare. `retained` is what is recorded of its topic. -/
def stateBefore (retained : Option Bool) (known : Option Known) : Option Active :=
  (known.bind Known.active).or (retained.map fun standing => if standing then .held else .clear)

/-- Whether another point declared the type first. -/
def keptByOther (sample : Sample) (known : Option Known) : Bool :=
  known.any fun k => k != .free && !k.ownedBy sample.point sample.protocol

/-- What the good value of a sample makes of an alarm, if it settles it. -/
def holding (sample : Sample) (alarm : Alarm) (was : Option Active) : Option Active :=
  sample.reading.bind fun value => evaluate alarm.condition value was

/-- The body of the loop over the alarms of a sample. `retained` is what is recorded of the alarm
topics. -/
def declare (retained : Topic → Option Bool) (sample : Sample) (s : State) (alarm : Alarm) :
    State × List Published :=
  let topic := alarmTopic sample.device alarm.type
  let known := s.get alarm.type
  if keptByOther sample known then (s, [])
  else
    let was := stateBefore (retained topic) known
    match holding sample alarm was with
    | some holds =>
      (s.set alarm.type (.owned sample.point sample.protocol (some holds)),
        (settle (sample.raise stringify alarm) was holds).map fun payload => { topic, payload })
    | none => (s.set alarm.type (.owned sample.point sample.protocol was), [])

def undeclared (sample : Sample) (s : State) : List (String × Known) :=
  if sample.describes then
    s.entries.filter fun m => m.2.ownedBy sample.point sample.protocol &&
      !sample.alarms.any fun a => a.type == m.1
  else []

def onSample (retained : Topic → Option Bool) (s : State) (sample : Sample) :
    State × List Published :=
  if sample.alarms.isEmpty && !s.members.any fun m => m.2.ownedBy sample.point sample.protocol then
    (s, [])
  else
    let pruned := exec (prune sample.device) s (undeclared sample s)
    let declared := exec (declare stringify retained sample) pruned.1 sample.alarms
    (declared.1, pruned.2 ++ declared.2)

/-- Whether the owner is a point of the protocol that is not among these. -/
def Known.missingFrom (protocol : String) (points : List String) : Known → Bool
  | .owned point q _ => q == protocol && !points.contains point
  | .free => false

/-- The entries that a link status prunes. -/
def unlisted (protocol : String) (points : List String) (s : State) : List (String × Known) :=
  s.entries.filter fun m => m.2.missingFrom protocol points

/-- `onLinkStatus`; none where the status lists no points. -/
def onLinkStatus (device protocol : String) (points : Option (List String)) (s : State) :
    State × List Published :=
  match points with
  | none => (s, [])
  | some points => exec (prune device) s (unlisted protocol points s)

def statusPoints (status : Json) : Option (List String) :=
  match status.get "points" with
  | some (.array items) => some (items.filterMap Json.asStr)
  | _ => none

/-- What a message is to the flow. -/
inductive Incoming where
  | sample (sample : Sample)
  | status (device protocol : String) (points : Option (List String))

/-- The topics that are subscribed to, and what `onMessage` tells apart. -/
def incoming (topic : Topic) (payload : Option Json) : Option Incoming :=
  match payload.filter isObject, topic with
  | some body, [_, _, device, "ot", protocol, "sample", name] =>
    some (.sample { device, protocol, name, body })
  | some body, [_, _, device, "ot", protocol, "status", _] =>
    some (.status device protocol (statusPoints body))
  | _, _ => none

/-- `onMessage`. What is kept is kept by device. -/
def onMessage (retained : Topic → Option Bool) (store : String → State) (topic : Topic)
    (payload : Option Json) : (String → State) × List Published :=
  match incoming topic payload with
  | some (.sample sample) =>
    let r := onSample stringify retained (store sample.device) sample
    (Function.update store sample.device r.1, r.2)
  | some (.status device protocol points) =>
    let r := onLinkStatus device protocol points (store device)
    (Function.update store device r.1, r.2)
  | none => (store, [])

end

/-! ## One alarm of a device -/

def about (topic : Topic) (out : List Published) : List (Option Raise) :=
  (out.filter fun m => m.topic = topic).map Published.payload

@[simp] theorem about_append (topic : Topic) (out more : List Published) :
    about topic (out ++ more) = about topic out ++ about topic more := by
  simp [about]

theorem about_of_ne {topic : Topic} {out : List Published} (h : ∀ m ∈ out, m.topic ≠ topic) :
    about topic out = [] := by
  unfold about
  rw [List.map_eq_nil_iff, List.filter_eq_nil_iff]
  exact fun m hm => by simpa using h m hm

theorem alarmTopic_inj {device device' type type' : String} :
    alarmTopic device type = alarmTopic device' type' ↔ device = device' ∧ type = type' := by
  simp [alarmTopic]

namespace State

theorem get_set {s : State} {type type' : String} {known : Known} (htype : type' ≠ "__proto__") :
    (s.set type known).get type' = if type = type' then some known else s.get type' := by
  unfold set get
  by_cases hproto : type = "__proto__"
  · rw [if_pos hproto, if_neg fun h : type = type' => htype (h ▸ hproto)]
  · rw [if_neg hproto]
    exact Members.get_set s.members type type' known

theorem entries_perm (s : State) : s.entries.Perm s.members := by
  have hsplit := List.filter_append_perm
    (fun m : String × Known => (arrayIndex m.1).isSome) s.members
  unfold entries
  refine ((List.perm_insertionSort _ _).append (List.Perm.of_eq ?_)).trans hsplit
  congr 1
  funext m
  simp [← Option.not_isSome]

theorem distinct_entries (s : State) : (Members.keys s.entries).Nodup :=
  (s.entries_perm.map Prod.fst).nodup_iff.mpr s.distinct

theorem get_entries (s : State) (type : String) : Members.get s.entries type = s.get type :=
  Members.get_perm s.entries_perm s.distinct_entries type

theorem get_filter_entries (s : State) (p : String × Known → Bool) (type : String) :
    Members.get (s.entries.filter p) type = (s.get type).filter fun known => p (type, known) := by
  rw [Members.get_filter s.entries s.distinct_entries, get_entries]

end State

/-- What an alarm comes to: what is kept of it, and what is published on its topic. -/
abbrev Outcome := Option Known × List (Option Raise)

def pruned (known : Known) : Outcome :=
  (some .free, if known.active = some .clear then [] else [none])

/-- Pruning a list of alarms, at one type. -/
theorem exec_prune (device : String) {type : String} (htype : type ≠ "__proto__")
    {ms : List (String × Known)} (hms : (Members.keys ms).Nodup) (s : State) :
    ((exec (prune device) s ms).1.get type,
        about (alarmTopic device type) (exec (prune device) s ms).2) =
      ((Members.get ms type).map pruned).getD (s.get type, []) := by
  -- a type stands once in the list, so after its turn nothing touches it
  induction ms generalizing s with
  | nil => rfl
  | cons m ms ih =>
    rw [Members.keys_cons, List.nodup_cons] at hms
    have hrest := Prod.ext_iff.mp (ih hms.2 (prune device s m).1)
    simp only at hrest
    rw [exec_cons]
    simp only [about_append]
    rw [hrest.1, hrest.2, Members.get_cons]
    by_cases hkey : m.1 = type
    · -- the alarm itself: the entries after it are others
      rw [if_pos hkey, (Members.get_eq_none_iff ms type).mpr (hkey ▸ hms.1)]
      simp only [prune, pruned, Option.map_none, Option.getD_none, Option.map_some,
        Option.getD_some, State.get_set htype, if_pos hkey, List.append_nil]
      split <;> simp [about, clearMessage, hkey]
    · have hget : (prune device s m).1.get type = s.get type := by
        simp [prune, State.get_set htype, hkey]
      have habout : about (alarmTopic device type) (prune device s m).2 = [] := by
        apply about_of_ne
        intro p hp heq
        unfold prune at hp
        split at hp
        · cases hp
        · rw [List.mem_singleton.mp hp] at heq
          exact hkey (alarmTopic_inj.mp heq).2
      rw [if_neg hkey, hget, habout, List.nil_append]

theorem about_map (topic : Topic) (payloads : List (Option Raise)) :
    about topic (payloads.map fun payload => { topic, payload }) = payloads := by
  simp [about, List.filter_map, Function.comp_def]

/-- The alarm of a sample that is of the type. -/
def Sample.alarmOfType (sample : Sample) (type : String) : Option Alarm :=
  sample.alarms.find? fun a => a.type == type

/-- Whether a sample ends the declaration of an alarm. -/
def Sample.ends (sample : Sample) (known : Known) : Bool :=
  sample.describes && known.ownedBy sample.point sample.protocol

section

variable (stringify : Json → String)

def declared (retained : Option Bool) (sample : Sample) (alarm : Alarm) (known : Option Known) :
    Outcome :=
  if keptByOther sample known then (known, [])
  else
    match holding sample alarm (stateBefore retained known) with
    | some holds =>
      (some (.owned sample.point sample.protocol (some holds)),
        settle (sample.raise stringify alarm) (stateBefore retained known) holds)
    | none => (some (.owned sample.point sample.protocol (stateBefore retained known)), [])

variable {stringify} {retained : Topic → Option Bool} {sample : Sample} {alarm : Alarm} {s : State}

theorem declare_self (htype : alarm.type ≠ "__proto__") :
    ((declare stringify retained sample s alarm).1.get alarm.type,
        about (alarmTopic sample.device alarm.type)
          (declare stringify retained sample s alarm).2) =
      declared stringify (retained (alarmTopic sample.device alarm.type)) sample alarm
        (s.get alarm.type) := by
  unfold declare declared
  dsimp only
  split
  · rfl
  · split
    · next holds hholds =>
      rw [State.get_set htype, if_pos rfl, about_map]
    · rw [State.get_set htype, if_pos rfl]
      rfl

variable (stringify retained sample) in
theorem declare_other (s : State) {type : String} (htype : type ≠ "__proto__")
    (hne : alarm.type ≠ type) :
    ((declare stringify retained sample s alarm).1.get type,
        about (alarmTopic sample.device type) (declare stringify retained sample s alarm).2) =
      (s.get type, []) := by
  have hset : ∀ known, (s.set alarm.type known).get type = s.get type := fun known => by
    rw [State.get_set htype, if_neg hne]
  unfold declare
  dsimp only
  split
  · rfl
  · split
    · rw [hset, about_of_ne]
      intro m hm heq
      obtain ⟨payload, -, rfl⟩ := List.mem_map.mp hm
      exact hne (alarmTopic_inj.mp heq).2
    · rw [hset]
      rfl

variable (stringify retained sample) in
/-- Declaring a list of alarms, at one type. -/
theorem exec_declare {type : String} (htype : type ≠ "__proto__") {alarms : List Alarm}
    (halarms : (alarms.map Alarm.type).Nodup) (s : State) :
    ((exec (declare stringify retained sample) s alarms).1.get type,
        about (alarmTopic sample.device type)
          (exec (declare stringify retained sample) s alarms).2) =
      ((alarms.find? fun a => a.type == type).map fun a =>
          declared stringify (retained (alarmTopic sample.device type)) sample a
            (s.get type)).getD (s.get type, []) := by
  induction alarms generalizing s with
  | nil => rfl
  | cons a alarms ih =>
    rw [List.map_cons, List.nodup_cons] at halarms
    have hrest := Prod.ext_iff.mp (ih halarms.2 (declare stringify retained sample s a).1)
    simp only at hrest
    rw [exec_cons]
    simp only [about_append]
    rw [hrest.1, hrest.2]
    by_cases hkey : a.type = type
    · -- the alarm itself: those after it are of other types
      subst hkey
      have hnone : (alarms.find? fun b => b.type == a.type) = none := by
        rw [List.find?_eq_none]
        intro b hb heq
        exact halarms.1 (beq_iff_eq.mp heq ▸ List.mem_map_of_mem hb)
      rw [hnone, List.find?_cons_of_pos (by simp)]
      simp only [Option.map_none, Option.getD_none, List.append_nil]
      exact declare_self htype
    · have hother := Prod.ext_iff.mp
        (declare_other stringify retained sample s htype hkey)
      simp only at hother
      rw [hother.1, hother.2, List.nil_append, List.find?_cons_of_neg (by simpa using hkey)]

theorem nodup_takeAlarm {out : List Alarm} (h : (out.map Alarm.type).Nodup) (a : Alarm) :
    ((takeAlarm out a).map Alarm.type).Nodup := by
  unfold takeAlarm
  split
  · exact h
  · next hnew =>
    rw [List.map_append, List.nodup_append]
    refine ⟨h, List.nodup_singleton _, ?_⟩
    intro type htype type' htype' heq
    obtain ⟨b, hb, rfl⟩ := List.mem_map.mp htype
    rw [List.map_singleton, List.mem_singleton] at htype'
    exact hnew (List.any_eq_true.mpr ⟨b, hb, beq_iff_eq.mpr (heq.trans htype')⟩)

theorem nodup_alarms (sample : Sample) : (sample.alarms.map Alarm.type).Nodup := by
  unfold Sample.alarms alarmsOf
  generalize (listOf ((sample.body.get "meta").bind (·.get "alarm"))).filterMap
    (alarmOf sample.point) = entries
  have hfold : ∀ out : List Alarm, (out.map Alarm.type).Nodup →
      ((entries.foldl takeAlarm out).map Alarm.type).Nodup := by
    induction entries with
    | nil => exact fun _ h => h
    | cons a entries ih => exact fun out h => ih (takeAlarm out a) (nodup_takeAlarm h a)
  exact hfold [] List.nodup_nil

theorem alarm_eq_none {type : String} :
    sample.alarmOfType type = none ↔ (sample.alarms.any fun a => a.type == type) = false := by
  unfold Sample.alarmOfType
  rw [List.find?_eq_none, ← Bool.not_eq_true, List.any_eq_true]
  simp

/-- What a sample leaves of the alarms it does not declare. -/
theorem get_undeclared (type : String) :
    Members.get (undeclared sample s) type =
      match sample.alarmOfType type with
      | some _ => none
      | none => (s.get type).filter sample.ends := by
  unfold undeclared
  by_cases hdescribes : sample.describes = true
  · rw [if_pos hdescribes, State.get_filter_entries]
    cases halarm : sample.alarmOfType type with
    | some a =>
      have hany : (sample.alarms.any fun a => a.type == type) = true := by
        rw [← Bool.not_eq_false, ← alarm_eq_none, halarm]
        simp
      simp [hany]
    | none =>
      simp only [alarm_eq_none.mp halarm, Bool.not_false, Bool.and_true]
      congr 1
      funext known
      simp [Sample.ends, hdescribes]
  · have hends : sample.ends = fun _ => false := by
      funext known
      simp [Sample.ends, hdescribes]
    rw [if_neg hdescribes, hends]
    cases sample.alarmOfType type <;> simp

theorem distinct_undeclared (sample : Sample) (s : State) :
    (Members.keys (undeclared sample s)).Nodup := by
  unfold undeclared
  split
  · exact s.distinct_entries.sublist (List.filter_sublist.map Prod.fst)
  · exact List.nodup_nil

variable (stringify) in
/-- What a sample does to an alarm of its device. -/
def sampled (retained : Option Bool) (sample : Sample) (type : String) (known : Option Known) :
    Outcome :=
  match sample.alarmOfType type with
  | some alarm => declared stringify retained sample alarm known
  | none => ((known.filter sample.ends).map pruned).getD (known, [])

/-- A sample with no alarms, of a point that owns none, leaves every type alone. -/
theorem onSample_idle (retained : Option Bool)
    (h : (sample.alarms.isEmpty &&
      !s.members.any fun m => m.2.ownedBy sample.point sample.protocol) = true) (type : String) :
    sampled stringify retained sample type (s.get type) = (s.get type, []) := by
  rw [Bool.and_eq_true, List.isEmpty_iff, Bool.not_eq_true', ← Bool.not_eq_true,
    List.any_eq_true] at h
  have halarm : sample.alarmOfType type = none := by
    unfold Sample.alarmOfType
    rw [h.1]
    rfl
  unfold sampled
  rw [halarm]
  have hends : (s.get type).filter sample.ends = none := by
    rw [Option.filter_eq_none_iff]
    intro known hknown hends
    unfold Sample.ends at hends
    rw [Bool.and_eq_true] at hends
    exact h.2 ⟨(type, known), Members.mem_of_get hknown, hends.2⟩
  rw [hends]
  rfl

variable (stringify retained sample) in
/-- A sample, seen from one alarm type. -/
theorem onSample_at (s : State) {type : String} (htype : type ≠ "__proto__") :
    ((onSample stringify retained s sample).1.get type,
        about (alarmTopic sample.device type) (onSample stringify retained s sample).2) =
      sampled stringify (retained (alarmTopic sample.device type)) sample type (s.get type) := by
  unfold onSample
  split
  · next hidle => exact (onSample_idle _ hidle type).symm
  · have hpruned := Prod.ext_iff.mp
      (exec_prune sample.device htype (distinct_undeclared sample s) s)
    have hdeclared := Prod.ext_iff.mp
      (exec_declare stringify retained sample htype (nodup_alarms sample)
        (exec (prune sample.device) s (undeclared sample s)).1)
    have hfind : (sample.alarms.find? fun a => a.type == type) = sample.alarmOfType type := rfl
    rw [hfind] at hdeclared
    simp only at hpruned hdeclared
    dsimp only
    rw [about_append, hdeclared.1, hdeclared.2, hpruned.1, hpruned.2, get_undeclared]
    unfold sampled
    cases sample.alarmOfType type with
    | some a => rfl
    | none => simp

end

/-- What a link status does to an alarm of its device. -/
def statused (protocol : String) (points : Option (List String)) (known : Option Known) : Outcome :=
  ((points.bind fun points => known.filter (Known.missingFrom protocol points)).map pruned).getD
    (known, [])

theorem onLinkStatus_at (device protocol : String) {type : String} (htype : type ≠ "__proto__")
    (points : Option (List String)) (s : State) :
    ((onLinkStatus device protocol points s).1.get type,
        about (alarmTopic device type) (onLinkStatus device protocol points s).2) =
      statused protocol points (s.get type) := by
  unfold onLinkStatus statused
  cases points with
  | none => rfl
  | some points =>
    have hdistinct : (Members.keys (unlisted protocol points s)).Nodup :=
      s.distinct_entries.sublist (List.filter_sublist.map Prod.fst)
    dsimp only [Option.bind_some]
    rw [exec_prune device htype hdistinct]
    unfold unlisted
    rw [State.get_filter_entries]

/-! ## Messages -/

section

variable (stringify : Json → String)

/-- What a message does to an alarm of a device. -/
def messaged (device : String) (retained : Option Bool) (message : Option Incoming) (type : String)
    (known : Option Known) : Outcome :=
  match message with
  | some (.sample sample) =>
    if sample.device = device then sampled stringify retained sample type known else (known, [])
  | some (.status sender protocol points) =>
    if sender = device then statused protocol points known else (known, [])
  | none => (known, [])

variable {stringify}

variable {s : State} {m : Published}

theorem mem_exec_prune {device : String} {ms : List (String × Known)}
    (h : m ∈ (exec (prune device) s ms).2) : ∃ type, m.topic = alarmTopic device type := by
  induction ms generalizing s with
  | nil => cases h
  | cons entry ms ih =>
    rw [exec_cons, List.mem_append] at h
    cases h with
    | inl h =>
      unfold prune at h
      split at h
      · cases h
      · exact ⟨entry.1, congrArg Published.topic (List.mem_singleton.mp h)⟩
    | inr h => exact ih h

theorem mem_exec_declare {retained : Topic → Option Bool} {sample : Sample} {alarms : List Alarm}
    (h : m ∈ (exec (declare stringify retained sample) s alarms).2) :
    ∃ type, m.topic = alarmTopic sample.device type := by
  induction alarms generalizing s with
  | nil => cases h
  | cons alarm alarms ih =>
    rw [exec_cons, List.mem_append] at h
    cases h with
    | inl h =>
      unfold declare at h
      dsimp only at h
      split at h
      · cases h
      · split at h
        · obtain ⟨payload, -, rfl⟩ := List.mem_map.mp h
          exact ⟨alarm.type, rfl⟩
        · cases h
    | inr h => exact ih h

theorem mem_onSample {retained : Topic → Option Bool} {sample : Sample}
    (h : m ∈ (onSample stringify retained s sample).2) :
    ∃ type, m.topic = alarmTopic sample.device type := by
  unfold onSample at h
  split at h
  · cases h
  · cases List.mem_append.mp h with
    | inl h => exact mem_exec_prune h
    | inr h => exact mem_exec_declare h

theorem mem_onLinkStatus {device protocol : String} {points : Option (List String)}
    (h : m ∈ (onLinkStatus device protocol points s).2) :
    ∃ type, m.topic = alarmTopic device type := by
  unfold onLinkStatus at h
  cases points with
  | none => cases h
  | some points => exact mem_exec_prune h

theorem update_other {device sender type : String} (hne : sender ≠ device) {store : String → State}
    {r : State × List Published} (hr : ∀ m ∈ r.2, ∃ type, m.topic = alarmTopic sender type) :
    ((Function.update store sender r.1 device).get type, about (alarmTopic device type) r.2) =
      ((store device).get type, []) := by
  rw [Function.update_of_ne (Ne.symm hne), about_of_ne]
  intro m hm heq
  obtain ⟨type', htopic⟩ := hr m hm
  exact hne (alarmTopic_inj.mp (htopic.symm.trans heq)).1

variable (stringify) in
/-- A message, seen from one alarm type. -/
theorem onMessage_at (device : String) {type : String} (htype : type ≠ "__proto__")
    (retained : Topic → Option Bool) (store : String → State) (topic : Topic)
    (payload : Option Json) :
    (((onMessage stringify retained store topic payload).1 device).get type,
        about (alarmTopic device type) (onMessage stringify retained store topic payload).2) =
      messaged stringify device (retained (alarmTopic device type)) (incoming topic payload) type
        ((store device).get type) := by
  unfold onMessage
  cases incoming topic payload with
  | none => rfl
  | some message =>
    cases message with
    | sample sample =>
      dsimp only [messaged]
      by_cases hsender : sample.device = device
      · subst hsender
        rw [Function.update_self, if_pos rfl]
        exact onSample_at stringify retained _ _ htype
      · rw [if_neg hsender]
        exact update_other hsender fun m hm => mem_onSample hm
    | status sender protocol points =>
      dsimp only [messaged]
      by_cases hsender : sender = device
      · subst hsender
        rw [Function.update_self, if_pos rfl]
        exact onLinkStatus_at sender protocol htype points _
      · rw [if_neg hsender]
        exact update_other hsender fun m hm => mem_onLinkStatus hm

end

end TedgeDot.Flows.Alarms
