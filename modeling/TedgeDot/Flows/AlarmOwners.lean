import TedgeDot.Flows.Alarms

/-!
# The owners of alarms

An alarm type of a device belongs to the point that declares it, until the point's sample or the link
status of its connector says otherwise. `System` is `ot-alarm` beside `alarm-state`, which records
what it sees of the alarm topics, its own messages late and in any order.

## Main result

- `owners_kept`: over every run, no alarm is left without an owner, and what is recorded of an alarm
  is what was published of it last.
-/

namespace TedgeDot.Flows.Alarms

open TedgeDot.Machine

/-! ## The flows together -/

structure System where
  store : String → State
  /-- `ot-alarm-retained:<alarm topic>` -/
  record : Topic → Option Bool
  /-- What `ot-alarm` has published since it started. -/
  published : List Published

def System.start : System where
  store _ := State.empty
  record _ := none
  published := []

inductive Event where
  /-- A message to `ot-alarm`, with its payload where that is JSON. -/
  | message (topic : Topic) (payload : Option Json)
  /-- A message to `alarm-state`. -/
  | alarm (topic : Topic) (raised : Bool)

/-- One message, and what it publishes. -/
def step (stringify : Json → String) (s : System) : Event → System × List Published
  | .message topic payload =>
    let r := onMessage stringify s.record s.store topic payload
    ({ s with store := r.1, published := s.published ++ r.2 }, r.2)
  | .alarm topic raised => ({ s with record := Function.update s.record topic (some raised) }, [])

/-- Nobody else publishes on the alarm topics: what `alarm-state` sees was retained when the flows
started (`standing`), or is of `ot-alarm`. -/
def Genuine (standing : Topic → Bool) (s : System) : Event → Prop
  | .message _ _ => True
  | .alarm topic raised =>
    raised = standing topic ∨ ∃ payload ∈ about topic s.published, payload.isSome = raised

/-- Whether the last message on an alarm topic raises the alarm. -/
def lastRaised (standing : Topic → Bool) (s : System) (topic : Topic) : Bool :=
  ((about topic s.published).getLast?.map Option.isSome).getD (standing topic)

/-- The owner's sample describes its point and does not declare the alarm, or the link status of its
protocol does not list it. -/
def Ends (device type : String) (known : Known) : Event → Prop
  | .message topic payload =>
    match incoming topic payload with
    | some (.sample sample) =>
      sample.device = device ∧ sample.ends known = true ∧ sample.alarmOfType type = none
    | some (.status sender protocol points) =>
      sender = device ∧ ∃ listed ∈ points, known.missingFrom protocol listed = true
    | none => False
  | .alarm _ _ => False

def System.kept (s : System) (device type : String) : Option Known := (s.store device).get type

/-- An alarm is kept over a step:
1. Its type has one entry.
2. Where its declaration ends, it is cleared unless it is known to be clear, and is free.
3. A point that owns it owned it before, or it was free.
4. Where its state is known, it stands when the last message on its topic raises it; where it is not,
nothing was published on the topic. -/
structure Keeps (stringify : Json → String) (standing : Topic → Bool) (device type : String)
    (s : System) (e : Event) : Prop where
  one : ∀ m ∈ ((step stringify s e).1.store device).members,
    ∀ m' ∈ ((step stringify s e).1.store device).members, m.1 = type → m'.1 = type → m = m'
  ended : ∀ known ∈ s.kept device type, Ends device type known e →
    (step stringify s e).1.kept device type = some .free ∧
      about (alarmTopic device type) (step stringify s e).2 =
        if known.active = some .clear then [] else [none]
  taken : ∀ point protocol active,
    (step stringify s e).1.kept device type = some (.owned point protocol active) →
      s.kept device type = none ∨ s.kept device type = some .free ∨
        ∃ before, s.kept device type = some (.owned point protocol before)
  told : ∀ a ∈ ((step stringify s e).1.kept device type).bind Known.active,
    (a.standing = true ↔ lastRaised standing (step stringify s e).1 (alarmTopic device type) = true)
  untold : ((step stringify s e).1.kept device type).bind Known.active = none →
    about (alarmTopic device type) (step stringify s e).1.published = []

/-! ## What a message does to an alarm -/

section

variable {stringify : Json → String} {device type : String} {recorded : Option Bool}

/-- Every way a message can change what is kept of an alarm. -/
inductive Moves (recorded : Option Bool) (known : Option Known) : Outcome → Prop where
  | idle : Moves recorded known (known, [])
  | prune (k : Known) (h : known = some k) : Moves recorded known (pruned k)
  /-- A point takes or keeps the alarm, and its value settles it. -/
  | settle (point protocol : String) (raise : Raise) (holds : Active)
      (h : ∀ k ∈ known, k = .free ∨ ∃ active, k = .owned point protocol active) :
      Moves recorded known (some (.owned point protocol (some holds)),
        settle raise (stateBefore recorded known) holds)
  /-- A point takes or keeps the alarm as it is. -/
  | keep (point protocol : String)
      (h : ∀ k ∈ known, k = .free ∨ ∃ active, k = .owned point protocol active) :
      Moves recorded known (some (.owned point protocol (stateBefore recorded known)), [])

variable {known : Option Known}

theorem of_not_keptByOther {sample : Sample} (h : keptByOther sample known = false) :
    ∀ k ∈ known, k = .free ∨ ∃ active, k = .owned sample.point sample.protocol active := by
  intro k hk
  rw [Option.mem_def] at hk
  subst hk
  cases k with
  | free => exact .inl rfl
  | owned point protocol active =>
    refine .inr ⟨active, ?_⟩
    simp only [keptByOther, Option.any_some, Known.ownedBy] at h
    simp_all

/-- A sample moves an alarm in one of the ways of `Moves`. -/
theorem sampled_moves (sample : Sample) (known : Option Known) :
    Moves recorded known (sampled stringify recorded sample type known) := by
  unfold sampled
  cases sample.alarmOfType type with
  | some alarm =>
    dsimp only
    unfold declared
    by_cases hkept : keptByOther sample known = true
    · rw [if_pos hkept]
      exact .idle
    · rw [if_neg hkept]
      have hmine := of_not_keptByOther (Bool.not_eq_true _ ▸ hkept)
      cases holding sample alarm (stateBefore recorded known) with
      | some holds => exact .settle _ _ _ holds hmine
      | none => exact .keep _ _ hmine
  | none =>
    dsimp only
    cases hends : known.filter sample.ends with
    | none => exact .idle
    | some k => exact .prune k (Option.filter_eq_some_iff.mp hends).1

theorem statused_moves (protocol : String) (points : Option (List String)) (known : Option Known) :
    Moves recorded known (statused protocol points known) := by
  unfold statused
  cases points with
  | none => exact .idle
  | some points =>
    rw [Option.bind_some]
    cases hends : known.filter (Known.missingFrom protocol points) with
    | none => exact .idle
    | some k => exact .prune k (Option.filter_eq_some_iff.mp hends).1

theorem messaged_moves (message : Option Incoming) (known : Option Known) :
    Moves recorded known (messaged stringify device recorded message type known) := by
  cases message with
  | none => exact .idle
  | some message =>
    cases message with
    | sample sample =>
      dsimp only [messaged]
      split
      · exact sampled_moves sample known
      · exact .idle
    | status sender protocol points =>
      dsimp only [messaged]
      split
      · exact statused_moves protocol points known
      · exact .idle

/-- A message that ends an alarm prunes it. -/
theorem messaged_ends {topic : Topic} {payload : Option Json} {k : Known}
    (h : Ends device type k (.message topic payload)) :
    messaged stringify device recorded (incoming topic payload) type (some k) = pruned k := by
  cases hmessage : incoming topic payload with
  | none =>
    simp only [Ends, hmessage] at h
  | some message =>
    simp only [Ends, hmessage] at h
    cases message with
    | sample sample =>
      obtain ⟨hsender, hends, hnone⟩ := h
      dsimp only [messaged]
      rw [if_pos hsender]
      unfold sampled
      rw [hnone]
      dsimp only
      rw [Option.filter_some, if_pos hends]
      rfl
    | status sender protocol points =>
      obtain ⟨hsender, listed, hlisted, hmissing⟩ := h
      rw [Option.mem_def] at hlisted
      dsimp only [messaged]
      rw [if_pos hsender]
      unfold statused
      rw [hlisted, Option.bind_some, Option.filter_some, if_pos hmissing]
      rfl

/-- After a move the standing known is the one said last. -/
theorem Moves.told {o : Outcome} (h : Moves recorded known o) {b : Bool}
    (hknown : ∀ a ∈ known.bind Known.active, a.standing = b)
    (hbefore : ∀ a ∈ stateBefore recorded known, a.standing = b) :
    ∀ a ∈ o.1.bind Known.active, a.standing = (o.2.getLast?.map Option.isSome).getD b := by
  cases h with
  | idle => exact hknown
  | prune k hk =>
    intro a ha
    obtain rfl : Active.clear = a := Option.some.inj ha
    unfold pruned
    dsimp only
    split
    · next hclear =>
      rw [hk] at hknown
      exact hknown .clear hclear
    · rfl
  | settle point protocol raise holds hmine =>
    intro a ha
    obtain rfl : holds = a := Option.some.inj ha
    unfold Alarms.settle
    dsimp only
    split
    · next hsame =>
      obtain ⟨a, ha, hstanding⟩ := Option.map_eq_some_iff.mp hsame
      exact hstanding.symm.trans (hbefore a ha)
    · cases holds.standing <;> rfl
  | keep point protocol hmine => exact hbefore

theorem Moves.untold {o : Outcome} (h : Moves recorded known o)
    (hnone : o.1.bind Known.active = none) : o.2 = [] ∧ known.bind Known.active = none := by
  cases h with
  | idle => exact ⟨rfl, hnone⟩
  | prune k hk => cases hnone
  | settle point protocol raise holds hmine => cases hnone
  | keep point protocol hmine =>
    refine ⟨rfl, ?_⟩
    have hor : stateBefore recorded known = none := hnone
    unfold stateBefore at hor
    exact (Option.or_eq_none_iff.mp hor).1

/-- Only an alarm without an owner is taken. -/
theorem Moves.taken {o : Outcome} (h : Moves recorded known o) {point protocol : String}
    {active : Option Active} (howned : o.1 = some (.owned point protocol active)) :
    known = none ∨ known = some .free ∨ ∃ before, known = some (.owned point protocol before) := by
  have hmine : ∀ p q : String,
      (∀ k ∈ known, k = .free ∨ ∃ active, k = .owned p q active) →
      known = none ∨ known = some .free ∨ ∃ before, known = some (.owned p q before) := by
    intro p q hk
    cases known with
    | none => exact .inl rfl
    | some k =>
      obtain rfl | ⟨before, rfl⟩ := hk k rfl
      · exact .inr (.inl rfl)
      · exact .inr (.inr ⟨before, rfl⟩)
  cases h with
  | idle => exact .inr (.inr ⟨active, howned⟩)
  | prune k hk => cases howned
  | settle p q raise holds h =>
    cases howned
    exact hmine point protocol h
  | keep p q h =>
    cases howned
    exact hmine point protocol h

/-! ## Runs -/

variable {standing : Topic → Bool} {s : System} {e : Event}

/-- What is kept and recorded agrees with what was published. -/
structure Inv (standing : Topic → Bool) (s : System) : Prop where
  told : ∀ device type, type ≠ "__proto__" → ∀ a ∈ (s.kept device type).bind Known.active,
    a.standing = lastRaised standing s (alarmTopic device type)
  untold : ∀ device type, type ≠ "__proto__" → (s.kept device type).bind Known.active = none →
    about (alarmTopic device type) s.published = []
  recorded : ∀ topic b, s.record topic = some b →
    b = standing topic ∨ about topic s.published ≠ []

theorem inv_start : Inv standing System.start where
  told _ _ _ a ha := by cases ha
  untold _ _ _ _ := rfl
  recorded _ _ h := by cases h

/-- The standing an evaluation starts from is the one last raised. -/
theorem Inv.before (h : Inv standing s) (htype : type ≠ "__proto__") :
    ∀ a ∈ stateBefore (s.record (alarmTopic device type)) (s.kept device type),
      a.standing = lastRaised standing s (alarmTopic device type) := by
  intro a ha
  rw [Option.mem_def] at ha
  unfold stateBefore at ha
  cases hactive : (s.kept device type).bind Known.active with
  | some b =>
    rw [hactive, Option.some_or] at ha
    exact h.told device type htype a (hactive.trans ha)
  | none =>
    rw [hactive, Option.none_or] at ha
    obtain ⟨b, hb, rfl⟩ := Option.map_eq_some_iff.mp ha
    have hquiet := h.untold device type htype hactive
    -- nothing was published: the record is of what was there before
    have hb' := (h.recorded _ b hb).resolve_right fun hne => hne hquiet
    unfold lastRaised
    rw [hquiet, ← hb']
    cases b <;> rfl

theorem lastRaised_append {s' : System} {topic : Topic} {out : List Published}
    (h : s'.published = s.published ++ out) :
    lastRaised standing s' topic =
      ((about topic out).getLast?.map Option.isSome).getD (lastRaised standing s topic) := by
  unfold lastRaised
  rw [h, about_append, List.getLast?_append]
  cases (about topic out).getLast? <;> rfl

theorem moves_step (stringify : Json → String) (s : System) (device : String) (topic : Topic)
    (payload : Option Json) (htype : type ≠ "__proto__") :
    Moves (s.record (alarmTopic device type)) (s.kept device type)
      ((step stringify s (.message topic payload)).1.kept device type,
        about (alarmTopic device type) (step stringify s (.message topic payload)).2) := by
  have hat := onMessage_at stringify device htype s.record s.store topic payload
  unfold step System.kept
  dsimp only
  rw [hat]
  exact messaged_moves _ _

/-- Each event keeps the invariant, if what the broker delivers is genuine. -/
theorem inv_step (stringify : Json → String) (h : Inv standing s) (hgenuine : Genuine standing s e) :
    Inv standing (step stringify s e).1 := by
  cases e with
  | alarm topic raised =>
    refine ⟨h.told, h.untold, fun topic' b hb => ?_⟩
    by_cases htopic : topic' = topic
    · subst htopic
      obtain rfl : raised = b := by simpa [step] using hb
      refine hgenuine.imp id ?_
      rintro ⟨payload, hpayload, -⟩ hquiet
      have hnothing : about topic' s.published = [] := hquiet
      rw [hnothing] at hpayload
      cases hpayload
    · have hrecord : (step stringify s (.alarm topic raised)).1.record topic' = s.record topic' :=
        Function.update_of_ne htopic _ _
      rw [hrecord] at hb
      exact h.recorded topic' b hb
  -- what the flow publishes is what the broker records last
  | message topic payload =>
    have hpublished : (step stringify s (.message topic payload)).1.published =
        s.published ++ (step stringify s (.message topic payload)).2 := rfl
    refine ⟨fun device type htype => ?_, fun device type htype hnone => ?_, fun topic' b hb => ?_⟩
    · have hmove := moves_step stringify s device topic payload htype
      rw [lastRaised_append hpublished]
      exact hmove.told (h.told device type htype) (h.before htype)
    · have hmove := moves_step stringify s device topic payload htype
      obtain ⟨hout, hbefore⟩ := hmove.untold hnone
      dsimp only at hout
      rw [hpublished, about_append, hout, List.append_nil]
      exact h.untold device type htype hbefore
    · refine (h.recorded topic' b hb).imp id fun hne hquiet => hne ?_
      rw [hpublished, about_append] at hquiet
      exact (List.append_eq_nil_iff.mp hquiet).1

theorem one_entry (s : State) {type : String} {m m' : String × Known} (hm : m ∈ s.members)
    (hm' : m' ∈ s.members) (h : m.1 = type) (h' : m'.1 = type) : m = m' := by
  have hget := Members.get_of_mem s.distinct hm
  have hget' := Members.get_of_mem s.distinct hm'
  rw [h] at hget
  rw [h'] at hget'
  exact Prod.ext (h.trans h'.symm) (Option.some.inj (hget.symm.trans hget'))

theorem keeps_step (htype : type ≠ "__proto__") (h : Inv standing s)
    (hgenuine : Genuine standing s e) : Keeps stringify standing device type s e := by
  have hafter := inv_step stringify h hgenuine
  refine ⟨fun m hm m' hm' => one_entry _ hm hm', fun k hk hends => ?_,
    fun point protocol active howned => ?_, fun a ha => ?_, hafter.untold device type htype⟩
  · cases e with
    | alarm topic raised => exact hends.elim
    | message topic payload =>
      have hat := onMessage_at stringify device htype s.record s.store topic payload
      have hkept : (s.store device).get type = some k := hk
      rw [hkept, messaged_ends hends] at hat
      exact Prod.mk.inj hat
  · cases e with
    | alarm topic raised => exact .inr (.inr ⟨active, howned⟩)
    | message topic payload =>
      exact (moves_step stringify s device topic payload htype).taken howned
  · rw [hafter.told device type htype a ha]

/-- **Ownership**: over every run of genuine messages, each alarm is kept in every step. -/
theorem owners_kept (stringify : Json → String) (standing : Topic → Bool) {device type : String}
    (htype : type ≠ "__proto__") {events : List Event}
    (hgenuine : AllSteps (step stringify) (Genuine standing) System.start events) :
    AllSteps (step stringify) (Keeps stringify standing device type) System.start events := by
  have hrun : ∀ (events : List Event) (s : System), Inv standing s →
      AllSteps (step stringify) (Genuine standing) s events →
      AllSteps (step stringify) (Keeps stringify standing device type) s events := by
    intro events
    induction events with
    | nil => exact fun _ _ _ => trivial
    | cons e events ih =>
      intro s h hgenuine
      exact ⟨keeps_step htype h hgenuine.1, ih _ (inv_step stringify h hgenuine.1) hgenuine.2⟩
  exact hrun events System.start inv_start hgenuine

end

/-- A sample of the point `fault`, true, that declares an alarm of a type. -/
def faultMessage (alarm : List (String × Json)) : Event :=
  .message ["te", "device", "pump", "ot", "opcua", "sample", "fault"]
    (some (.object [("quality", .string "good"), ("value", .bool true), ("access", .string "read"),
      ("meta", .object alarm)]))

def faultAlarm (type : String) : List (String × Json) :=
  [("alarm", .object [("type", .string type)])]

/-- An alarm that is raised, then no longer declared. -/
theorem owners_kept_fault :
    AllSteps (step fun _ => "") (Keeps (fun _ => "") (fun _ => false) "pump" "pump_fault") System.start
      [faultMessage (faultAlarm "pump_fault"), faultMessage []] :=
  owners_kept (fun _ => "") (fun _ => false) (by decide) ⟨trivial, trivial, trivial⟩

/-- An alarm of the type `__proto__` is raised and not kept. -/
theorem proto_not_kept :
    ¬(AllSteps (step fun _ => "") (Genuine fun _ => false) System.start
          [faultMessage (faultAlarm "__proto__")] →
        AllSteps (step fun _ => "") (Keeps (fun _ => "") (fun _ => false) "pump" "__proto__")
          System.start [faultMessage (faultAlarm "__proto__")]) := by
  intro h
  have huntold := (h ⟨trivial, trivial⟩).1.untold (by decide +kernel)
  have hraised : (about (alarmTopic "pump" "__proto__") (step (fun _ => "") System.start
      (faultMessage (faultAlarm "__proto__"))).1.published).length = 1 := by
    decide +kernel
  rw [huntold] at hraised
  cases hraised

end TedgeDot.Flows.Alarms
