import Mathlib.Logic.Function.Basic
import TedgeDot.Lib.Machine
import TedgeDot.Runtime.Commands

/-!
# Who acts on a command

The instances of one protocol on a broker. Everything published on a command topic stays in
flight: an instance may receive it at any time, after anything else, and more than once. Requests
come from outside; what an instance publishes while it handles one is in flight as well. Devices
move between the instances by management commands and reloads.

At one moment a command has at most one owner. Over time it has one only while its device stays
where it is.
-/

namespace TedgeDot.Commands

/-- One connector instance, as far as commands go. -/
structure Instance where
  service : String
  devices : List String

/-- A message on a command topic, with the instance that published it, if one did. -/
structure Message (ι : Type) where
  topic : Topic
  payload : Option Json
  sender : Option ι

/-- The instances, and the messages in flight. -/
structure System (ι : Type) where
  instances : ι → Instance
  sent : List (Message ι)

/-- One step of the system. -/
inductive Action (ι : Type) where
  /-- Somebody else publishes on a command topic. -/
  | request (topic : Topic) (payload : Option Json)
  /-- An instance receives a message. -/
  | deliver (i : ι) (n : Nat) (work : Work)
  /-- A reload changes an instance's devices. -/
  | reload (i : ι) (devices : List String)

variable {ι : Type} [DecidableEq ι]

/-- One step, with what an instance that acts leaves. -/
def step (protocol : String) (s : System ι) : Action ι → System ι × Option Handling
  | .request topic payload => ({ s with sent := s.sent ++ [⟨topic, payload, none⟩] }, none)
  | .reload i devices =>
    ({ s with instances := Function.update s.instances i { s.instances i with devices } }, none)
  | .deliver i n work =>
    match s.sent[n]? with
    | none => (s, none)
    | some m =>
      match handleCommand protocol (s.instances i).service (s.instances i).devices m.topic m.payload
        work with
      | none => (s, none)
      | some handling =>
        ({ instances := Function.update s.instances i
              { s.instances i with devices := handling.devices }
           sent := s.sent ++ handling.published.map fun json => ⟨m.topic, some json, some i⟩ },
          some handling)

section Runs

variable (protocol : String) (s : System ι) (actions : List (Action ι))

/-- The state before the step at a place of the run. -/
def stateAt (k : Nat) : System ι := Machine.final (step protocol) s (actions.take k)

/-- A message in flight is delivered to an instance at a place of the run. -/
def Delivered (k : Nat) (i : ι) (m : Message ι) (n : Nat) : Prop :=
  (∃ work, actions[k]? = some (.deliver i n work)) ∧ (stateAt protocol s actions k).sent[n]? = some m

/-- What the step at a place of the run leaves, when an instance acts. -/
def handledAt (k : Nat) : Option Handling :=
  (actions[k]?).bind fun a => (step protocol (stateAt protocol s actions k) a).2

/-- An instance acts on the message of a number. -/
def Acts (i : ι) (n : Nat) : Prop :=
  ∃ k m, Delivered protocol s actions k i m n ∧ (handledAt protocol s actions k).isSome = true

def DistinctServices (s : System ι) : Prop :=
  ∀ i j, (s.instances i).service = (s.instances j).service → i = j

/-- No device is defined by two instances. -/
def Disjoint (s : System ι) : Prop :=
  ∀ i j d, d ∈ (s.instances i).devices → d ∈ (s.instances j).devices → i = j

/-- The topic is one of an instance's own. -/
def Owns (x : Instance) (topic : Topic) : Prop :=
  routeCommand topic protocol x.service x.devices ≠ .elsewhere

def topicDevice : Topic → Option String
  | ["te", "device", device, "ot", _, "cmd", _, _] => some device
  | _ => none

/-- The device of a message is with the same instances whenever the message is delivered. -/
def Steady (n : Nat) : Prop :=
  ∀ k l i j m m', Delivered protocol s actions k i m n → Delivered protocol s actions l j m' n →
    ∀ d, topicDevice m.topic = some d →
      ∀ x, d ∈ ((stateAt protocol s actions k).instances x).devices ↔
        d ∈ ((stateAt protocol s actions l).instances x).devices

end Runs

/-! ## One step -/

section Steps

variable {protocol : String} {s : System ι}

/-- The command topics of an instance: those of its devices and of its service. -/
theorem owns_iff {x : Instance} {topic : Topic} :
    Owns protocol x topic ↔
      (∃ d ∈ x.devices, ∃ verb id, topic = ["te", "device", d, "ot", protocol, "cmd", verb, id]) ∨
        ∃ verb id, topic = ["te", "device", "main", "service", x.service, "ot", "cmd", verb, id] := by
  unfold Owns routeCommand
  split
  · rename_i device p verb id
    by_cases hp : p = protocol
    · by_cases hd : device ∈ x.devices
      · simp [hp, hd]
      · simp [hp, hd]
    · simp [hp]
  · rename_i service verb id
    by_cases hs : service = x.service
    · simp [hs]
    · simp [hs]
  · rename_i hdevice hservice
    constructor
    · exact fun h => absurd rfl h
    · rintro (⟨d, -, verb, id, rfl⟩ | ⟨verb, id, rfl⟩)
      · exact absurd rfl (hdevice d protocol verb id)
      · exact absurd rfl (hservice x.service verb id)

omit [DecidableEq ι] in
theorem owner_unique (hservices : DistinctServices s) (hdevices : Disjoint s) {topic : Topic} {i j : ι}
    (hi : Owns protocol (s.instances i) topic) (hj : Owns protocol (s.instances j) topic) :
    i = j := by
  rcases owns_iff.mp hi with ⟨d, hd, verb, id, rfl⟩ | ⟨verb, id, rfl⟩
  · rcases owns_iff.mp hj with ⟨d', hd', verb', id', heq⟩ | ⟨verb', id', heq⟩
    · simp only [List.cons.injEq, true_and] at heq
      obtain ⟨rfl, -⟩ := heq
      exact hdevices i j d hd hd'
    · simp at heq
  · rcases owns_iff.mp hj with ⟨d', hd', verb', id', heq⟩ | ⟨verb', id', heq⟩
    · simp at heq
    · simp only [List.cons.injEq, true_and] at heq
      exact hservices i j heq.1

/-- No step changes an instance's service. -/
theorem service_step (a : Action ι) (x : ι) :
    ((step protocol s a).1.instances x).service = (s.instances x).service := by
  have hupdate (i : ι) (devices : List String) :
      (Function.update s.instances i { s.instances i with devices } x).service =
        (s.instances x).service := by
    by_cases hx : x = i
    · subst hx
      rw [Function.update_self]
    · rw [Function.update_of_ne hx]
  cases a with
  | request topic payload => rfl
  | reload i devices => exact hupdate i devices
  | deliver i n work =>
    rw [step]
    split
    · rfl
    · split
      · rfl
      · exact hupdate i _

/-- A message an instance adds to those in flight. -/
structure Added (protocol : String) (s : System ι) (m : Message ι) (i : ι) : Prop where
  sender : m.sender = some i
  owned : Owns protocol (s.instances i) m.topic
  transition : ∀ json, m.payload = some json → status json ≠ "init"

/-- What a step sends is a request, or added by one instance. -/
theorem sent_step (protocol : String) (s : System ι) (a : Action ι) :
    ∃ new, (step protocol s a).1.sent = s.sent ++ new ∧
    ∀ m ∈ new, m.sender = none ∨ ∃ i, Added protocol s m i := by
  cases a with
  | request topic payload =>
    refine ⟨_, rfl, fun m hm => .inl ?_⟩
    obtain rfl := List.mem_singleton.mp hm
    rfl
  | reload i devices => exact ⟨[], by simp [step], by simp⟩
  | deliver i n work =>
    rw [step]
    split
    · exact ⟨[], by simp, by simp⟩
    · rename_i m hm
      split
      · exact ⟨[], by simp, by simp⟩
      · rename_i handling hhandled
        refine ⟨_, rfl, fun m' hm' => .inr ⟨i, ?_⟩⟩
        obtain ⟨json, hjson, rfl⟩ := List.mem_map.mp hm'
        have howned := (handleCommand_isSome.mp (by rw [hhandled]; rfl)).1
        refine ⟨rfl, howned, fun json' hjson' => ?_⟩
        obtain rfl := Option.some.inj hjson'
        exact status_published hhandled json hjson

end Steps

/-! ## Runs -/

section Runs

variable {protocol : String} {s : System ι} {actions : List (Action ι)}

theorem stateAt_succ (k : Nat) : stateAt protocol s actions (k + 1) =
    match actions[k]? with
    | some a => (step protocol (stateAt protocol s actions k) a).1
    | none => stateAt protocol s actions k := by
  rw [stateAt, List.take_add_one, Machine.final_append]
  cases actions[k]? with
  | none => rfl
  | some a => rfl

/-- **Run rule**: what the first state has and every step keeps, every state of the run has. -/
theorem stateAt_induction {P : System ι → Prop} (hs : P s)
    (hstep : ∀ s a, P s → P (step protocol s a).1) (k : Nat) :
    P (stateAt protocol s actions k) :=
  Machine.final_induction hstep _ hs

theorem service_stateAt (k : Nat) (x : ι) :
    ((stateAt protocol s actions k).instances x).service = (s.instances x).service := by
  apply stateAt_induction (P := fun t => (t.instances x).service = (s.instances x).service)
  · rfl
  · intro t a ht
    rw [service_step, ht]

theorem distinctServices_stateAt (h : DistinctServices s) (k : Nat) :
    DistinctServices (stateAt protocol s actions k) := by
  intro i j hij
  rw [service_stateAt, service_stateAt] at hij
  exact h i j hij

variable {k l : Nat} {n : Nat} {m : Message ι}

theorem sent_mono (hkl : k ≤ l) (h : (stateAt protocol s actions k).sent[n]? = some m) :
    (stateAt protocol s actions l).sent[n]? = some m := by
  induction hkl with
  | refl => exact h
  | step _ ih =>
    rename_i l _
    rw [stateAt_succ]
    cases actions[l]? with
    | none => exact ih
    | some a =>
      obtain ⟨new, hnew, -⟩ := sent_step protocol (stateAt protocol s actions l) a
      show (step protocol _ a).1.sent[n]? = some m
      rw [hnew]
      exact (List.getElem?_append_left (List.getElem?_eq_some_iff.mp ih).1).trans ih

theorem delivered_unique {i j : ι} {m m' : Message ι} (h : Delivered protocol s actions k i m n)
    (h' : Delivered protocol s actions l j m' n) : m = m' := by
  rcases Nat.le_total k l with hkl | hlk
  · exact Option.some.inj ((sent_mono hkl h.2).symm.trans h'.2)
  · exact Option.some.inj (h.2.symm.trans (sent_mono hlk h'.2))

theorem handledAt_isSome {k : Nat} {i : ι} (h : Delivered protocol s actions k i m n) :
    (handledAt protocol s actions k).isSome = true ↔
      Owns protocol ((stateAt protocol s actions k).instances i) m.topic ∧
        ∃ json, m.payload = some json ∧ status json = "init" := by
  obtain ⟨⟨work, hk⟩, hm⟩ := h
  have hstep : handledAt protocol s actions k =
      handleCommand protocol ((stateAt protocol s actions k).instances i).service
        ((stateAt protocol s actions k).instances i).devices m.topic m.payload work := by
    rw [handledAt, hk]
    show (step protocol _ _).2 = _
    rw [step, hm]
    show (match handleCommand _ _ _ _ _ _ with
      | none => _
      | some handling => _ : System ι × Option Handling).2 = _
    cases handleCommand protocol ((stateAt protocol s actions k).instances i).service
        ((stateAt protocol s actions k).instances i).devices m.topic m.payload work with
    | none => rfl
    | some handling => rfl
  rw [hstep]
  exact handleCommand_isSome

theorem transition_of_sent (hsent : s.sent = []) (k : Nat) :
    ∀ m ∈ (stateAt protocol s actions k).sent, ∀ i, m.sender = some i →
      ∀ json, m.payload = some json → status json ≠ "init" := by
  apply stateAt_induction (P := fun t => ∀ m ∈ t.sent, ∀ i, m.sender = some i →
    ∀ json, m.payload = some json → status json ≠ "init")
  · simp [hsent]
  · intro t a ih m hm i hi
    obtain ⟨new, hnew, hadded⟩ := sent_step protocol t a
    rw [hnew] at hm
    rcases List.mem_append.mp hm with hm | hm
    · exact ih m hm i hi
    · -- a message of this step: a request from outside has no sender
      rcases hadded m hm with hnone | ⟨j, hj⟩
      · rw [hnone] at hi
        cases hi
      · exact hj.transition

theorem owned_of_published {k : Nat}
    (hm : m ∈ (stateAt protocol s actions (k + 1)).sent.drop (stateAt protocol s actions
      k).sent.length)
    {i : ι} (hi : m.sender = some i) :
    Owns protocol ((stateAt protocol s actions k).instances i) m.topic := by
  rw [stateAt_succ] at hm
  cases ha : actions[k]? with
  | none => simp [ha] at hm
  | some a =>
    obtain ⟨new, hnew, hadded⟩ := sent_step protocol (stateAt protocol s actions k) a
    simp only [ha, hnew, List.drop_left] at hm
    rcases hadded m hm with hnone | ⟨j, hj⟩
    · rw [hnone] at hi
      cases hi
    · obtain rfl : j = i := Option.some.inj (hj.sender.symm.trans hi)
      exact hj.owned

theorem owns_steady (hsteady : Steady protocol s actions n) {i x y : ι}
    (hk : Delivered protocol s actions k x m n) (hl : Delivered protocol s actions l y m n)
    (h : Owns protocol ((stateAt protocol s actions k).instances i) m.topic) :
    Owns protocol ((stateAt protocol s actions l).instances i) m.topic := by
  rcases owns_iff.mp h with ⟨d, hd, verb, id, htopic⟩ | ⟨verb, id, htopic⟩
  · have hd := (hsteady k l x y m m hk hl d (by rw [htopic]; rfl) i).mp hd
    exact owns_iff.mpr (.inl ⟨d, hd, verb, id, htopic⟩)
  · -- the service name of an instance never changes
    refine owns_iff.mpr (.inr ⟨verb, id, ?_⟩)
    rw [htopic, service_stateAt, service_stateAt]

theorem owner_steady (hservices : DistinctServices s)
    (hdisjoint : ∀ k, Disjoint (stateAt protocol s actions k))
    (hsteady : Steady protocol s actions n) {i j x y : ι}
    (hk : Delivered protocol s actions k x m n) (hl : Delivered protocol s actions l y m n)
    (hi : Owns protocol ((stateAt protocol s actions k).instances i) m.topic)
    (hj : Owns protocol ((stateAt protocol s actions l).instances j) m.topic) : i = j := by
  apply owner_unique (distinctServices_stateAt hservices l) (hdisjoint l) _ hj
  exact owns_steady hsteady hk hl hi

/-- **Command ownership**: a request whose device stays where it is while it is delivered is acted
on by at most one instance, and by exactly one when it reaches them all and one of them owns its
topic; an instance publishes on topics it owns only, and what it publishes nobody acts on. -/
theorem one_owner (hsent : s.sent = []) (hservices : DistinctServices s)
    (hdisjoint : ∀ k, Disjoint (stateAt protocol s actions k)) :
    (∀ n, Steady protocol s actions n → ∀ i j, Acts protocol s actions i n →
      Acts protocol s actions j n → i = j) ∧
    (∀ n m, Steady protocol s actions n → (∃ json, m.payload = some json ∧ status json = "init") →
      (∀ i, ∃ k, Delivered protocol s actions k i m n) →
      (∃ k x i, Delivered protocol s actions k x m n ∧
        Owns protocol ((stateAt protocol s actions k).instances i) m.topic) →
      ∃! i, Acts protocol s actions i n) ∧
    (∀ k, ∀ m ∈ (stateAt protocol s actions (k + 1)).sent.drop
        (stateAt protocol s actions k).sent.length, ∀ i, m.sender = some i →
      Owns protocol ((stateAt protocol s actions k).instances i) m.topic) ∧
    (∀ k i m n, Delivered protocol s actions k i m n → m.sender.isSome = true →
      handledAt protocol s actions k = none) := by
  have hone : ∀ n, Steady protocol s actions n → ∀ i j, Acts protocol s actions i n →
      Acts protocol s actions j n → i = j := by
    rintro n hsteady i j ⟨k, m, hk, hi⟩ ⟨l, m', hl, hj⟩
    obtain rfl := delivered_unique hk hl
    exact owner_steady hservices hdisjoint hsteady hk hl ((handledAt_isSome hk).mp hi).1
      ((handledAt_isSome hl).mp hj).1
  refine ⟨hone, ?_, fun k m hm i hi => owned_of_published hm hi, ?_⟩
  · rintro n m hsteady hinit hreaches ⟨k, x, i, hk, howns⟩
    -- the owner owns the topic at its own delivery too
    obtain ⟨l, hl⟩ := hreaches i
    have howns' := owns_steady hsteady hk hl howns
    have hacts : Acts protocol s actions i n :=
      ⟨l, m, hl, (handledAt_isSome hl).mpr ⟨howns', hinit⟩⟩
    exact ⟨i, hacts, fun j hj => hone n hsteady j i hj hacts⟩
  · intro k i m n hk hsender
    obtain ⟨j, hj⟩ := Option.isSome_iff_exists.mp hsender
    have hnot : ¬ (handledAt protocol s actions k).isSome = true := by
      rw [handledAt_isSome hk]
      rintro ⟨-, json, hjson, hinit⟩
      have hmem := List.mem_of_getElem? hk.2
      exact transition_of_sent hsent k m hmem j hj json hjson hinit
    exact Option.not_isSome_iff_eq_none.mp hnot

theorem stateAt_past {k : Nat} (hk : actions.length ≤ k) :
    stateAt protocol s actions k = stateAt protocol s actions actions.length := by
  rw [stateAt, stateAt, List.take_of_length_le hk, List.take_length]

theorem stateAt_forall (protocol : String) (s : System ι) (actions : List (Action ι))
    {P : System ι → Prop} (h : ∀ k ≤ actions.length, P (stateAt protocol s actions k)) (k : Nat) :
    P (stateAt protocol s actions k) := by
  rcases Nat.le_total k actions.length with hk | hk
  · exact h k hk
  · rw [stateAt_past hk]
    exact h _ (Nat.le_refl _)

end Runs

/-! ## Two instances -/

section Plants

/-- Two instances of `modbus`: `false` defines the pump, `true` nothing. -/
def plants : System Bool where
  instances
    | false => ⟨"modbus-a", ["pump"]⟩
    | true => ⟨"modbus-b", []⟩
  sent := []

def newCommand (members : JsonMap) : Option Json := some
    (.object (("status", .string "init") :: members))

def pumpCommand : Action Bool :=
  .request ["te", "device", "pump", "ot", "modbus", "cmd", "write", "1"]
    (newCommand [("point", .string "speed"), ("value", .bool true)])

def written : Work := { answers := [.done "speed" none none] }

theorem distinctServices_plants : DistinctServices plants := by
  unfold DistinctServices
  decide

/-- A run that delivers the write to both instances, and what is published to one. -/
def writing : List (Action Bool) :=
  [pumpCommand, .deliver true 0 written, .deliver false 0 written, .deliver true 1 written]

/-- Two connectors with a device each. -/
theorem one_owner_plants : ∃! i, Acts "modbus" plants writing i 0 := by
  have hdisjoint := stateAt_forall "modbus" plants writing (P := Disjoint)
    (by unfold Disjoint; decide +kernel)
  have hsame := stateAt_forall "modbus" plants writing
    (P := fun t => ∀ x, (t.instances x).devices = (plants.instances x).devices)
    (by decide +kernel)
  refine (one_owner rfl distinctServices_plants hdisjoint).2.1 0
    ⟨["te", "device", "pump", "ot", "modbus", "cmd", "write", "1"],
      newCommand [("point", .string "speed"), ("value", .bool true)], none⟩
    (fun k l i j m m' _ _ d _ x => ?_) ⟨_, rfl, by decide⟩ ?_ ?_
  · rw [hsame k, hsame l]
  · rintro (_ | _)
    · exact ⟨2, ⟨_, rfl⟩, rfl⟩
    · exact ⟨1, ⟨_, rfl⟩, rfl⟩
  · exact ⟨1, true, false, ⟨⟨_, rfl⟩, rfl⟩, by unfold Owns; decide⟩

/-- A management command of an instance. -/
def management (service verb : String) (device : Json) : Action Bool :=
  .request ["te", "device", "main", "service", service, "ot", "cmd", verb, "1"]
    (newCommand [("device", device)])

/-- A run that moves the pump from one instance to the other, and delivers the write of its speed
to each while the pump is there. -/
def moving : List (Action Bool) :=
  [pumpCommand, management "modbus-a" "remove-device" (.string "pump"),
    management "modbus-b" "define-device" (.object [("name", .string "pump")]),
    .deliver false 0 written,
    .deliver false 1 { management := .ok [] },
    .deliver true 2 { management := .ok ["pump"] },
    .deliver true 0 written]

/-- A command whose device moves between its deliveries is acted on twice. -/
theorem moved_acts_twice : plants.sent = [] ∧ DistinctServices plants ∧
    (∀ k, Disjoint (stateAt "modbus" plants moving k)) ∧
    Acts "modbus" plants moving false 0 ∧ Acts "modbus" plants moving true 0 := by
  refine ⟨rfl, distinctServices_plants, ?_, ?_, ?_⟩
  · exact stateAt_forall "modbus" plants moving (by unfold Disjoint; decide +kernel)
  · exact ⟨3, _, ⟨⟨_, rfl⟩, rfl⟩, by decide +kernel⟩
  · exact ⟨6, _, ⟨⟨_, rfl⟩, rfl⟩, by decide +kernel⟩

end Plants

end TedgeDot.Commands
