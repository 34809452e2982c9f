import TedgeDot.Lib.Machine
import TedgeDot.Flows.Measurement

/-!
# `units-state`

`ot-measurement` cannot read back what it publishes, so `units-state` subscribes to the metadata
topics and records each message in the store that `ot-measurement` merges a changed unit into. Both
write the store: the one when it publishes, the other when the message has come back.

The system has the store, what the broker retains and, for each topic, the messages on their way
back, first in first out. After a restart of the mapper the store is empty, and what stands on the
topics is delivered again. `seen` is the unit last seen of each series, which the flow should say.

## Main definitions

- `step`: the system.
- `Fresh`: a sample finds in the store what the last message of its topic said.
- `StaysTrue`: what a step publishes is what was seen.

## Main result

- `units_true`: the units stay true in exactly the runs whose samples find the store fresh.
-/

namespace TedgeDot.Flows.Measurement

open TedgeDot.Machine

/-! ## The flow -/

/-- The input topics of `units-state`, `te/+/+/+/+/m/+/meta`. -/
def subscribed (topic : String) : Bool :=
  match levels topic with
  | ["te", _, _, _, _, "m", _, "meta"] => true
  | _ => false

/-- `onMessage` of `units-state`. -/
def recordUnits (store : Store) (topic : String) (payload : Payload) : Store :=
  Function.update store topic (recorded payload)

/-! ## The system -/

structure System where
  store : Store
  /-- What the broker retains. -/
  retained : String → Payload
  /-- The messages on their way to `units-state`. -/
  flight : String → List Payload
  /-- The unit last seen of each series, since the start or standing before it. -/
  seen : String → String → Option Json

inductive Event where
  /-- A sample of a device, by the level of its topic. -/
  | sample (device : String) (sample : Sample)
  /-- The next message of a topic comes to `units-state`. -/
  | deliver (topic : String)
  /-- The mapper restarts; `lost` says whether the messages on their way are. -/
  | restart (lost : Bool)

/-- What a new subscription to a topic is sent. -/
def standing (topic : String) : Payload → List Payload
  | .empty => []
  | payload => if subscribed topic then [payload] else []

/-- The mapper starts, with these messages on the broker. -/
def start (retained : String → Payload) : System where
  store _ := []
  retained := retained
  flight topic := standing topic (retained topic)
  seen topic key := unitIn (recorded (retained topic)) key

def publish (s : System) (m : Metadata) : System :=
  { s with
    retained := Function.update s.retained m.topic m.payload
    flight := Function.update s.flight m.topic
      (s.flight m.topic ++ if subscribed m.topic then [m.payload] else []) }

/-- The unit a sample gives a series of a metadata topic. -/
structure Reading where
  topic : String
  key : String
  unit : Option String

variable (text : Json → String) (cfg : Config)

/-- What is seen of a sample that becomes a series with a metadata topic. -/
def reading : Event → Option Reading
  | .sample device sample =>
    ((mapped text cfg device sample).filter fun target => isMeasurementTopic target.topic).map
      fun target =>
        { topic := metaTopic target.topic
          key := seriesKey target.group target.series
          unit := wantedUnit sample.unit }
  | _ => none

def see (seen : String → String → Option Json) : Option Reading → String → String → Option Json
  | none => seen
  | some r => Function.update seen r.topic
      (Function.update (seen r.topic) r.key (r.unit.map Json.string))

/-- One event, and the metadata it publishes. -/
def step (s : System) : Event → System × List Metadata
  | .sample device sample =>
    let (store, out) := onMessage text cfg s.store device sample
    ({ out.foldl publish { s with store } with
        seen := see s.seen (reading text cfg (.sample device sample)) }, out)
  | .deliver topic =>
    match s.flight topic with
    | [] => (s, [])
    | payload :: rest =>
      ({ s with
          store := recordUnits s.store topic payload
          flight := Function.update s.flight topic rest }, [])
  | .restart lost =>
    ({ s with
        store := fun _ => []
        flight := fun topic =>
          (if lost then [] else s.flight topic) ++ standing topic (s.retained topic) }, [])

/-! ## What is to hold -/

/-- The units a message gives a topic are those that were seen. -/
def Tells (payload : Payload) (seen : String → Option Json) : Prop :=
  ∀ key, key ≠ "__proto__" → unitIn (recorded payload) key = seen key

/-- The units stay true at a step:
1. A metadata message says what was seen last.
2. What it says of the other series of its topic is what the message before it said.
3. A sample of a series whose unit is unchanged publishes none.
4. What is retained is what was seen last, and without units the message has no payload. -/
structure StaysTrue (s : System) (e : Event) : Prop where
  holds : ∀ m ∈ (step text cfg s e).2, Tells m.payload ((step text cfg s e).1.seen m.topic)
  keeps : ∀ r ∈ reading text cfg e, ∀ m ∈ (step text cfg s e).2, ∀ other, other ≠ "__proto__" →
    other ≠ r.key →
    unitIn (recorded m.payload) other = unitIn (recorded (s.retained m.topic)) other
  quiet : ∀ r ∈ reading text cfg e, s.seen r.topic r.key = r.unit.map Json.string →
    (step text cfg s e).2 = []
  retained : ∀ topic,
    Tells ((step text cfg s e).1.retained topic) ((step text cfg s e).1.seen topic)
  emptied : ∀ m ∈ (step text cfg s e).2, m.payload = payloadOf (recorded m.payload)

/-- A sample finds in the store what the last message of its topic said: whether its own unit is
unchanged, and when it is not, the units of the other series. -/
def Fresh (s : System) (e : Event) : Prop :=
  ∀ r ∈ reading text cfg e,
    (unitIn (s.store r.topic) r.key = r.unit.map Json.string ↔
      unitIn (recorded (s.retained r.topic)) r.key = r.unit.map Json.string) ∧
    (unitIn (s.store r.topic) r.key ≠ r.unit.map Json.string →
      ∀ other, other ≠ "__proto__" → other ≠ r.key →
        unitIn (s.store r.topic) other = unitIn (recorded (s.retained r.topic)) other)

/-! ## A sample -/

variable {text cfg} {s : System}

theorem reading_spec {device : String} {sample : Sample} {r : Reading}
    (h : reading text cfg (.sample device sample) = some r) (store : Store) :
    onMessage text cfg store device sample =
      if sameUnit (unitIn (store r.topic) r.key) r.unit then (store, [])
      else
        (Function.update store r.topic (withUnit (store r.topic) r.key r.unit),
          [⟨r.topic, payloadOf (withUnit (store r.topic) r.key r.unit)⟩]) := by
  obtain ⟨target, htarget, rfl⟩ := Option.map_eq_some_iff.mp h
  obtain ⟨hmapped, htopic⟩ := Option.filter_eq_some_iff.mp htarget
  unfold onMessage
  simp only [hmapped, unitMessages, htopic, Bool.not_true, Bool.false_eq_true, if_false]

theorem onMessage_of_unread {device : String} {sample : Sample}
    (h : reading text cfg (.sample device sample) = none) (store : Store) :
    onMessage text cfg store device sample = (store, []) := by
  unfold onMessage
  cases hmapped : mapped text cfg device sample with
  | none => rfl
  | some target =>
    have htopic : isMeasurementTopic target.topic = false := by
      simpa [reading, hmapped, Option.filter_some] using h
    simp [unitMessages, htopic]

theorem step_of_unread {e : Event} (h : reading text cfg e = none) :
    (step text cfg s e).2 = [] ∧ (step text cfg s e).1.retained = s.retained ∧
      (step text cfg s e).1.seen = s.seen := by
  cases e with
  | sample device sample =>
    simp only [step, onMessage_of_unread h, h, List.foldl_nil, see]
    trivial
  | deliver topic =>
    simp only [step]
    split <;> exact ⟨rfl, rfl, rfl⟩
  | restart lost => exact ⟨rfl, rfl, rfl⟩

theorem step_of_reading {e : Event} {r : Reading} (h : reading text cfg e = some r) :
    (step text cfg s e).1.seen = see s.seen (some r) ∧
      if sameUnit (unitIn (s.store r.topic) r.key) r.unit then
        (step text cfg s e).2 = [] ∧ (step text cfg s e).1.retained = s.retained
      else
        (step text cfg s e).2 =
            [{ topic := r.topic, payload := payloadOf (withUnit (s.store r.topic) r.key r.unit) }] ∧
          (step text cfg s e).1.retained = Function.update s.retained r.topic
            (payloadOf (withUnit (s.store r.topic) r.key r.unit)) := by
  cases e with
  | sample device sample =>
    simp only [step, reading_spec h, h]
    split
    · exact ⟨trivial, rfl, rfl⟩
    · exact ⟨trivial, rfl, rfl⟩
  | deliver | restart => cases h

theorem see_apply (seen : String → String → Option Json) (r : Reading) (topic key : String) :
    see seen (some r) topic key =
      if topic = r.topic ∧ key = r.key then r.unit.map Json.string else seen topic key := by
  simp only [see]
  by_cases htopic : topic = r.topic
  · subst htopic
    rw [Function.update_self]
    by_cases hkey : key = r.key
    · subst hkey
      simp
    · simp [hkey]
  · simp [htopic]

theorem reading_key {e : Event} {r : Reading} (h : reading text cfg e = some r) :
    r.key ≠ "__proto__" := by
  cases e with
  | sample device sample =>
    obtain ⟨target, -, rfl⟩ := Option.map_eq_some_iff.mp h
    exact seriesKey_ne_proto _ _
  | deliver | restart => cases h

/-! ## A step -/

/-- What is retained is what was seen last. -/
def System.Faithful (s : System) : Prop := ∀ topic, Tells (s.retained topic) (s.seen topic)

/-- Where the store's units are those last published, the measurement stays true. -/
theorem Fresh.staysTrue {e : Event} (h : s.Faithful) (hfresh : Fresh text cfg s e) :
    StaysTrue text cfg s e := by
  cases hread : reading text cfg e with
  | none =>
    obtain ⟨hout, hretained, hseen⟩ := @step_of_unread text cfg s e hread
    refine ⟨by simp [hout], by simp [hread], by simp [hread], ?_, by simp [hout]⟩
    rw [hretained, hseen]
    exact h
  | some r =>
    -- a reading: its own unit is the stored one, and so are the others of the topic
    obtain ⟨hown, hothers⟩ := hfresh r hread
    have hlast := h r.topic r.key (reading_key hread)
    obtain ⟨hseen, hstep⟩ := @step_of_reading text cfg s e r hread
    split at hstep
    · -- the unit is unchanged, as the last message says
      rename_i hsame
      rw [sameUnit_iff] at hsame
      obtain ⟨hout, hretained⟩ := hstep
      refine ⟨by simp [hout], by simp [hout], fun _ _ _ => hout, ?_, by simp [hout]⟩
      intro topic key hkey
      rw [hretained, hseen, see_apply]
      split
      · rename_i heq
        rw [heq.1, heq.2]
        exact hown.mp hsame
      · exact h topic key hkey
    · rename_i hnew
      rw [sameUnit_iff] at hnew
      obtain ⟨hout, hretained⟩ := hstep
      have htells : Tells (payloadOf (withUnit (s.store r.topic) r.key r.unit))
          (see s.seen (some r) r.topic) := by
        intro key hkey
        rw [recorded_payloadOf, unitIn_withUnit _ _ _ hkey, see_apply]
        by_cases heq : key = r.key
        · simp [heq]
        · rw [if_neg heq, if_neg (by simp [heq]), hothers hnew key hkey heq]
          exact h r.topic key hkey
      refine ⟨?_, ?_, ?_, ?_, ?_⟩
      · simpa [hout, hseen] using htells
      · intro r' hr' m hm other hother hne
        obtain rfl : r = r' := Option.some.inj (hread.symm.trans hr')
        rw [hout, List.mem_singleton] at hm
        subst hm
        rw [recorded_payloadOf, unitIn_withUnit _ _ _ hother, if_neg hne]
        exact hothers hnew other hother hne
      · intro r' hr' hunchanged
        obtain rfl : r = r' := Option.some.inj (hread.symm.trans hr')
        exact absurd (hown.mpr (hlast.trans hunchanged)) hnew
      · intro topic
        rw [hretained, hseen]
        by_cases htopic : topic = r.topic
        · subst htopic
          rwa [Function.update_self]
        · rw [Function.update_of_ne htopic]
          intro key hkey
          rw [see_apply, if_neg (by simp [htopic])]
          exact h topic key hkey
      · simp [hout]

/-- And only there. -/
theorem StaysTrue.fresh {e : Event} (h : s.Faithful) (htrue : StaysTrue text cfg s e) :
    Fresh text cfg s e := by
  intro r hread
  have hlast := h r.topic r.key (reading_key hread)
  obtain ⟨hseen, hstep⟩ := @step_of_reading text cfg s e r hread
  split at hstep
  · rename_i hsame
    rw [sameUnit_iff] at hsame
    obtain ⟨-, hretained⟩ := hstep
    -- nothing was published, so what is retained says the unit already
    have htells := htrue.retained r.topic r.key (reading_key hread)
    rw [hretained, hseen, see_apply, if_pos ⟨rfl, rfl⟩] at htells
    exact ⟨iff_of_true hsame htells, fun hnew => absurd hsame hnew⟩
  · rename_i hnew
    rw [sameUnit_iff] at hnew
    obtain ⟨hout, -⟩ := hstep
    have hchanged : unitIn (recorded (s.retained r.topic)) r.key ≠ r.unit.map Json.string := by
      intro heq
      have hquiet := htrue.quiet r hread (hlast.symm.trans heq)
      simp [hout] at hquiet
    refine ⟨iff_of_false hnew hchanged, fun _ other hother hne => ?_⟩
    have hkeeps := htrue.keeps r hread _ (hout ▸ List.mem_singleton_self _) other hother hne
    rwa [recorded_payloadOf, unitIn_withUnit _ _ _ hother, if_neg hne] at hkeeps

/-! ## The messages on their way -/

/-- Topic levels before and after a separator. -/
theorem splitLevels_append (xs ys : List Char) :
    splitLevels (xs ++ '/' :: ys) = splitLevels xs ++ splitLevels ys := by
  induction xs with
  | nil => simp [splitLevels]
  | cons x xs ih =>
    rw [List.cons_append, splitLevels, splitLevels, ih]
    by_cases hx : x = '/'
    · simp [hx]
    · rw [if_neg hx, if_neg hx]
      cases hlevels : splitLevels xs with
      | nil =>
        exfalso
        cases xs with
        | nil => simp [splitLevels] at hlevels
        | cons c cs =>
          rw [splitLevels] at hlevels
          split at hlevels
          · cases hlevels
          · split at hlevels <;> cases hlevels
      | cons level rest => rfl

theorem subscribed_metaTopic {topic : String} (h : isMeasurementTopic topic = true) :
    subscribed (metaTopic topic) = true := by
  have hlevels : levels (metaTopic topic) = levels topic ++ ["meta"] := by
    have hmeta : ("/meta" : String).toList = '/' :: ['m', 'e', 't', 'a'] := rfl
    rw [levels, metaTopic, String.toList_append, hmeta, splitLevels_append, List.map_append]
    rfl
  unfold isMeasurementTopic at h
  unfold subscribed
  rw [hlevels]
  split at h
  · rename_i heq
    rw [heq]
    rfl
  · cases h

/-- The last message on its way is the one that is retained, and when none is on its way the store
has it. -/
structure System.Coming (s : System) (topic : String) : Prop where
  last : ∀ p, (s.flight topic).getLast? = some p → p = s.retained topic
  arrived : s.flight topic = [] → s.store topic = recorded (s.retained topic)

namespace System.Coming

variable {topic : String}

/-- A subscription delivers what is retained, after what is under way. -/
theorem subscribe (hsub : subscribed topic = true)
    (hempty : s.flight topic = [] → s.retained topic = .empty → s.store topic = [])
    (hlast : ∀ p, (s.flight topic).getLast? = some p → p = s.retained topic) :
    System.Coming { s with
      flight := fun topic => s.flight topic ++ standing topic (s.retained topic) } topic := by
  cases hretained : s.retained topic with
  | empty =>
    constructor
    · intro p hp
      exact hlast p (by simpa [standing, hretained] using hp)
    · intro hnone
      have hflight : s.flight topic = [] := (List.append_eq_nil_iff.mp hnone).1
      rw [hempty hflight hretained, hretained]
      rfl
  | json | other =>
    have hone : standing topic (s.retained topic) = [s.retained topic] := by
      simp [standing, hretained, hsub]
    constructor
    · intro p hp
      simp only [hone, List.getLast?_concat, Option.some.injEq] at hp
      exact hp.symm
    · intro hnone
      simp [hone] at hnone

theorem start (retained : String → Payload) (hsub : subscribed topic = true) :
    (Measurement.start retained).Coming topic := by
  have hfirst := subscribe (s := { Measurement.start retained with flight := fun _ => [] }) hsub
    (fun _ _ => rfl) (fun p hp => by cases hp)
  exact ⟨hfirst.last, hfirst.arrived⟩

theorem publish (h : s.Coming topic) (store : Store) (hsub : subscribed topic = true)
    (m : Metadata) (hstore : topic ≠ m.topic → store topic = s.store topic) :
    (Measurement.publish { s with store } m).Coming topic := by
  by_cases htopic : topic = m.topic
  · subst htopic
    constructor
    · intro p hp
      simp only [Measurement.publish, Function.update_self, hsub, if_true,
        List.getLast?_concat, Option.some.injEq] at hp ⊢
      exact hp.symm
    · intro hnone
      simp [Measurement.publish, hsub] at hnone
  · constructor
    · intro p hp
      simp only [Measurement.publish, Function.update_of_ne htopic] at hp ⊢
      exact h.last p hp
    · intro hnone
      simp only [Measurement.publish, Function.update_of_ne htopic] at hnone ⊢
      exact (hstore htopic).trans (h.arrived hnone)

/-- Whatever happens, what is retained reaches the store or is on its way to it. -/
theorem step (h : s.Coming topic) (hsub : subscribed topic = true) (e : Event) :
    (Measurement.step text cfg s e).1.Coming topic := by
  cases e with
  | sample device sample =>
    cases hread : reading text cfg (.sample device sample) with
    | none =>
      simp only [Measurement.step, onMessage_of_unread hread]
      exact ⟨h.last, h.arrived⟩
    | some r =>
      simp only [Measurement.step, reading_spec hread]
      split
      · exact ⟨h.last, h.arrived⟩
      · have hpublish := h.publish (Function.update s.store r.topic
          (withUnit (s.store r.topic) r.key r.unit)) hsub
          { topic := r.topic, payload := payloadOf (withUnit (s.store r.topic) r.key r.unit) }
          (fun hne => Function.update_of_ne hne _ _)
        exact ⟨hpublish.last, hpublish.arrived⟩
  | deliver topic' =>
    simp only [Measurement.step]
    cases hflight : s.flight topic' with
    | nil => exact h
    | cons payload rest =>
      by_cases htopic : topic = topic'
      · subst htopic
        have hlast := h.last
        rw [hflight] at hlast
        constructor
        · intro p hp
          simp only [Function.update_self] at hp
          cases rest with
          | nil => cases hp
          | cons q rest => exact hlast p (by rwa [List.getLast?_cons_cons])
        · intro hnone
          simp only [Function.update_self] at hnone
          subst hnone
          simp only [recordUnits, Function.update_self, hlast payload rfl]
      · constructor
        · intro p hp
          simp only [Function.update_of_ne htopic] at hp
          exact h.last p hp
        · intro hnone
          simp only [Function.update_of_ne htopic] at hnone
          simp only [recordUnits, Function.update_of_ne htopic]
          exact h.arrived hnone
  | restart lost =>
    -- the store is empty until what stands on the topic has come
    have hagain := subscribe (s := { s with
      store := fun _ => [], flight := fun topic => if lost then [] else s.flight topic }) hsub
      (fun _ _ => rfl) (fun p hp => ?_)
    · exact ⟨hagain.last, hagain.arrived⟩
    · cases lost with
      | true => cases hp
      | false => exact h.last p hp

end System.Coming

/-! ## Every run -/

theorem start_true (retained : String → Payload) : (start retained).Faithful := fun _ _ _ => rfl

/-- **The units stay true** in exactly the runs whose samples find the store fresh. In every run,
once the messages of a metadata topic have come back, the store has what is retained there. -/
theorem units_true (text : Json → String) (cfg : Config) (retained : String → Payload)
    (events : List Event) :
    (AllSteps (step text cfg) (Fresh text cfg) (start retained) events ↔
      AllSteps (step text cfg) (StaysTrue text cfg) (start retained) events) ∧
    ∀ topic, isMeasurementTopic topic = true →
      (final (step text cfg) (start retained) events).flight (metaTopic topic) = [] →
      (final (step text cfg) (start retained) events).store (metaTopic topic) =
        recorded ((final (step text cfg) (start retained) events).retained (metaTopic topic)) := by
  constructor
  · have hrun : ∀ s : System, s.Faithful → (AllSteps (step text cfg) (Fresh text cfg) s events ↔
        AllSteps (step text cfg) (StaysTrue text cfg) s events) := by
      induction events with
      | nil => simp
      | cons e events ih =>
        intro s hs
        rw [allSteps_cons, allSteps_cons]
        constructor
        · rintro ⟨hfresh, hrest⟩
          have htrue := hfresh.staysTrue hs
          exact ⟨htrue, (ih _ htrue.retained).mp hrest⟩
        · rintro ⟨htrue, hrest⟩
          exact ⟨htrue.fresh hs, (ih _ htrue.retained).mpr hrest⟩
    exact hrun _ (start_true retained)
  · intro topic htopic
    have hsub := subscribed_metaTopic htopic
    have hcoming : (final (step text cfg) (start retained) events).Coming (metaTopic topic) :=
      final_induction (P := fun s : System => s.Coming (metaTopic topic)) (fun s e h => h.step hsub
        e) events
        (System.Coming.start retained hsub)
    exact hcoming.arrived

/-- A good reading of a point in the group `power`. -/
def powerSample (series unit : String) : Sample :=
  { point := series
    pointMeta := some (.object [("measurement", .object
      [("group", .string "power"), ("series", .string series)])])
    value := some (.number (.posInt 1))
    unit := some (.string unit) }

/-- **An old message drops a unit.** Two series have published their units, and the first message
comes back after the second was sent. The message of a third series leaves the second one out. -/
theorem units_dropped :
    let sample := fun series unit => Event.sample "plc1" (powerSample series unit)
    let topic := "te/device/plc1///m/power/meta"
    let before := final (step (fun _ => "") {}) (start fun _ => .empty)
      [sample "a" "V", sample "b" "A", .deliver topic]
    let after := step (fun _ => "") {} before (sample "c" "W")
    unitIn (recorded (before.retained topic)) "power.b" matches some (.string "A") ∧
      before.seen topic "power.b" matches some (.string "A") ∧
      after.2.map (fun m => (m.topic, (recorded m.payload).map Prod.fst)) =
        [(topic, ["power.a", "power.c"])] ∧
      (step (fun _ => "") {} before (sample "b" "A")).2.length = 1 := by
  decide

end TedgeDot.Flows.Measurement
