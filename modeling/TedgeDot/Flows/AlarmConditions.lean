import Mathlib.Data.List.Chain
import TedgeDot.Lib.Hysteresis
import TedgeDot.Flows.Alarms

/-!
# Alarm conditions

What `ot-alarm` says of its conditions: an alarm stands while a list or a limit holds it, and once a
limit was exceeded, until that limit moved back by the hysteresis is passed. `limits` is this
meaning of a condition (`Hysteresis.Limits`), in which every limit counts for itself.

The flow remembers one reason of an alarm that stands. Another reason that takes over makes it
forget a limit that still counts, and a value that is no number ends every band.

## Main result

- `conditions_iff`: over which readings of a point the alarm stands when it is to stand, and is
  raised and cleared in turns.
-/

namespace TedgeDot.Flows.Alarms

open TedgeDot.Machine TedgeDot.Hysteresis

/-! ## What a condition means -/

namespace Condition

variable (c : Condition)

/-- `equals` lists the value, or `not_equals` is set and does not. -/
def Lists (value : Json) : Prop :=
  (∃ list ∈ c.equals, listed list value) ∨ ∃ list ∈ c.notEquals, listed list value = false

def Beyond (side : Side) (value : Json) : Prop :=
  ∃ n, finiteNumber value = some n ∧ c.beyond side n

/-- Between a limit and the limit moved back. -/
def Within (side : Side) (value : Json) : Prop :=
  ∃ n, finiteNumber value = some n ∧ c.inBand side n ∧ c.beyond side n = false

/-- At or behind a limit moved back: only a number is, and of a limit that is not set, all is. -/
def Back (side : Side) (value : Json) : Prop :=
  c.limit side = none ∨
    ∃ n, finiteNumber value = some n ∧ c.inBand side n = false ∧ c.beyond side n = false

def limits : Limits Json Side where
  listed := c.Lists
  beyond := c.Beyond
  within := c.Within
  back := c.Back

end Condition

/-- A state that says no more than is known: a limit is only remembered where it counts, and an
unknown reason only where all of them do. -/
def Shows : Option Active → Knowledge Side → Prop
  | none, .unknown => True
  | some .clear, .clear => True
  | some .held, .standing exceeded => ∀ side, exceeded side
  | some (.heldBy reason), .standing exceeded => ∀ side, reason = side.reason → exceeded side
  | _, _ => False

/-- The state remembers the limit, or holds for a reason not known. -/
def Remembers (was : Option Active) (side : Side) : Prop :=
  was = some (.heldBy side.reason) ∨ was = some .held

/-- Where nothing but limits exceeded before can hold the alarm, the value is in the band of one that
is remembered. -/
def Heeds (c : Condition) (was : Option Active) (k : Knowledge Side) (value : Json) : Prop :=
  c.Lists value ∨ (∃ side, c.Beyond side value) ∨
    ((∃ side, k.exceeded side ∧ ¬c.Back side value) → ∃ side, c.Within side value ∧ Remembers was side)

/-! ## One reading -/

section

variable {c : Condition} {value : Json} {was : Option Active} {k : Knowledge Side}

variable {n : Float} {side : Side}

theorem holdsBy_fst :
    (holdsBy c n was side).1 = true ↔
      c.beyond side n ∨ (c.inBand side n ∧ c.beyond side n = false) ∧ Remembers was side := by
  unfold holdsBy Remembers
  cases c.beyond side n with
  | true => simp
  | false => cases c.inBand side n <;> simp

theorem holdsBy_snd :
    (holdsBy c n was side).2 = true ↔
      (c.inBand side n ∧ c.beyond side n = false) ∧ was = none := by
  unfold holdsBy
  cases c.beyond side n with
  | true => simp
  | false => cases c.inBand side n <;> simp

/-- What holds an alarm by the state that is remembered. -/
def Held (c : Condition) (was : Option Active) (value : Json) : Prop :=
  c.Lists value ∨ ∃ side, c.Beyond side value ∨ c.Within side value ∧ Remembers was side

theorem within_unique (hn : finiteNumber value = some n) (side : Side) :
    c.Within side value ↔ c.inBand side n ∧ c.beyond side n = false := by
  unfold Condition.Within
  simp [hn]

theorem beyond_unique (hn : finiteNumber value = some n) (side : Side) :
    c.Beyond side value ↔ c.beyond side n := by
  unfold Condition.Beyond
  simp [hn]

theorem holdsBy_number (hn : finiteNumber value = some n) :
    (holdsBy c n was side).1 = true ↔
      c.Beyond side value ∨ c.Within side value ∧ Remembers was side := by
  rw [holdsBy_fst, beyond_unique hn, within_unique hn]

theorem lists_iff : c.Lists value ↔
    c.equals.any (Condition.listed · value) = true ∨
      (c.notEquals.any fun list => !Condition.listed list value) = true := by
  unfold Condition.Lists
  cases c.equals <;> cases c.notEquals <;> simp

/-- What the limits make of a number. -/
inductive ByLimits (c : Condition) (was : Option Active) (value : Json) : Option Active → Prop where
  | by_ (side : Side) (h : c.Beyond side value ∨ c.Within side value ∧ Remembers was side) :
      ByLimits c was value (some (.heldBy side.reason))
  | unknown (h : ∀ side, ¬(c.Beyond side value ∨ c.Within side value ∧ Remembers was side))
      (hwas : was = none) (hwithin : ∃ side, c.Within side value) : ByLimits c was value none
  | clear (h : ∀ side, ¬(c.Beyond side value ∨ c.Within side value ∧ Remembers was side))
      (hwithin : was = none → ∀ side, ¬c.Within side value) : ByLimits c was value (some .clear)

/-- What `evaluateLimits` finds: the limit that holds, in the order above, below. -/
theorem byLimits (c : Condition) (was : Option Active) (hn : finiteNumber value = some n) :
    ByLimits c was value (evaluateLimits c n was) := by
  unfold evaluateLimits
  dsimp only
  by_cases habove : (holdsBy c n was .above).1 = true
  · rw [if_pos habove]
    exact .by_ .above ((holdsBy_number hn).mp habove)
  rw [if_neg habove]
  by_cases hbelow : (holdsBy c n was .below).1 = true
  · rw [if_pos hbelow]
    exact .by_ .below ((holdsBy_number hn).mp hbelow)
  rw [if_neg hbelow]
  -- by neither limit
  have hnone : ∀ side, ¬(c.Beyond side value ∨ c.Within side value ∧ Remembers was side) := by
    intro side
    cases side with
    | above => exact fun h => habove ((holdsBy_number hn).mpr h)
    | below => exact fun h => hbelow ((holdsBy_number hn).mpr h)
  have hunknown : ∀ side, (holdsBy c n was side).2 = true ↔ c.Within side value ∧ was = none :=
    fun side => by rw [holdsBy_snd, within_unique hn]
  by_cases h : ((holdsBy c n was .above).2 || (holdsBy c n was .below).2) = true
  · rw [if_pos h]
    rw [Bool.or_eq_true, hunknown, hunknown] at h
    cases h with
    | inl h => exact .unknown hnone h.2 ⟨.above, h.1⟩
    | inr h => exact .unknown hnone h.2 ⟨.below, h.1⟩
  · rw [if_neg h]
    rw [Bool.or_eq_true, hunknown, hunknown] at h
    refine .clear hnone fun hwas side hwithin => h ?_
    cases side with
    | above => exact .inl ⟨hwithin, hwas⟩
    | below => exact .inr ⟨hwithin, hwas⟩

/-- What an evaluation says. -/
inductive Evaluated (c : Condition) (was : Option Active) (value : Json) : Option Active → Prop where
  | held (reason : Reason) (h : Held c was value)
      (hreason : ∀ side, reason = side.reason →
        c.Beyond side value ∨ c.Within side value ∧ Remembers was side) :
      Evaluated c was value (some (.heldBy reason))
  | unknown (h : ¬Held c was value) (hwas : was = none) (hwithin : ∃ side, c.Within side value) :
      Evaluated c was value none
  | clear (h : ¬Held c was value) (hwithin : was = none → ∀ side, ¬c.Within side value) :
      Evaluated c was value (some .clear)

/-- The same for the whole condition: the listed values first, then the limits. -/
theorem evaluated (c : Condition) (was : Option Active) (value : Json) :
    Evaluated c was value (evaluate c value was) := by
  unfold evaluate
  by_cases hequals : c.equals.any (Condition.listed · value) = true
  · rw [if_pos hequals]
    refine .held _ (.inl (lists_iff.mpr (.inl hequals))) fun side h => ?_
    cases side <;> cases h
  rw [if_neg hequals]
  by_cases hnot : (c.notEquals.any fun list => !Condition.listed list value) = true
  · rw [if_pos hnot]
    refine .held _ (.inl (lists_iff.mpr (.inr hnot))) fun side h => ?_
    cases side <;> cases h
  rw [if_neg hnot]
  -- from here on only the limits are left
  have hlists : ¬c.Lists value := fun h => (lists_iff.mp h).elim hequals hnot
  cases hn : finiteNumber value with
  | none =>
    have hno : ∀ side, ¬c.Beyond side value ∧ ¬c.Within side value := fun side =>
      ⟨fun ⟨n, h, _⟩ => by simp [hn] at h, fun ⟨n, h, _⟩ => by simp [hn] at h⟩
    refine .clear ?_ fun _ side => (hno side).2
    rintro (h | ⟨side, h | ⟨h, -⟩⟩)
    · exact hlists h
    · exact (hno side).1 h
    · exact (hno side).2 h
  | some n =>
    dsimp only
    have hby := byLimits c was hn
    generalize evaluateLimits c n was = result at hby
    cases hby with
    | by_ side h =>
      refine .held _ (.inr ⟨side, h⟩) fun side' heq => ?_
      have hside : side = side' := by cases side <;> cases side' <;> first | rfl | cases heq
      exact hside ▸ h
    | unknown h hwas hwithin =>
      exact .unknown (fun hheld => hheld.elim hlists fun ⟨side, hs⟩ => h side hs) hwas hwithin
    | clear h hwithin =>
      exact .clear (fun hheld => hheld.elim hlists fun ⟨side, hs⟩ => h side hs) hwithin

/-! ## One reading and what is known -/

theorem shows_unknown : Shows was .unknown ↔ was = none := by
  cases was with
  | none => exact iff_of_true trivial rfl
  | some a => cases a <;> exact iff_of_false id (by simp)

theorem shows_none : Shows none k ↔ k = .unknown := by
  cases k with
  | unknown => exact iff_of_true trivial rfl
  | clear => exact iff_of_false id (by simp)
  | standing exceeded => exact iff_of_false id (by simp)

theorem exceeded_of_remembers (h : Shows was k) (hside : Remembers was side) : k.exceeded side := by
  cases hside with
  | inl hside =>
    subst hside
    cases k with
    | standing exceeded => exact h side rfl
    | unknown => exact h.elim
    | clear => exact h.elim
  | inr hside =>
    subst hside
    cases k with
    | standing exceeded => exact h side
    | unknown => exact h.elim
    | clear => exact h.elim

theorem not_back_of_within (h : c.Within side value) : ¬c.Back side value := by
  obtain ⟨n, hn, hband, hbeyond⟩ := h
  rintro (hnone | ⟨m, hm, hback, -⟩)
  · unfold Condition.inBand at hband
    rw [hnone] at hband
    cases side <;> cases hband
  · rw [hn] at hm
    cases hm
    rw [hback] at hband
    cases hband

theorem exceededAfter_of_side (hshows : Shows was k)
    (h : c.Beyond side value ∨ c.Within side value ∧ Remembers was side) :
    c.limits.exceededAfter k value side :=
  h.imp id fun h => ⟨exceeded_of_remembers hshows h.2, not_back_of_within h.1⟩

theorem holds_of_held (hshows : Shows was k) (h : Held c was value) : c.limits.Holds k value :=
  h.imp id fun ⟨side, hside⟩ => ⟨side, exceededAfter_of_side hshows hside⟩

/-- The first reason is as good as any, unless a limit that still holds by its band comes later. -/
theorem heeds_iff : Heeds c was k value ↔ (c.limits.Holds k value → Held c was value) := by
  constructor
  · rintro (h | ⟨side, h⟩ | h) hholds
    · exact .inl h
    · exact .inr ⟨side, .inl h⟩
    · cases hholds with
      | inl hlists => exact .inl hlists
      | inr hlimit =>
        obtain ⟨side, hbeyond | hcounts⟩ := hlimit
        · exact .inr ⟨side, .inl hbeyond⟩
        · obtain ⟨side, hwithin⟩ := h ⟨side, hcounts⟩
          exact .inr ⟨side, .inr hwithin⟩
  · intro h
    by_cases hlists : c.Lists value
    · exact .inl hlists
    by_cases hbeyond : ∃ side, c.Beyond side value
    · exact .inr (.inl hbeyond)
    · refine .inr (.inr ?_)
      rintro ⟨side, hside⟩
      cases h (.inr ⟨side, .inr hside⟩) with
      | inl hl => exact absurd hl hlists
      | inr hs =>
        obtain ⟨side, hs | hs⟩ := hs
        · exact absurd ⟨side, hs⟩ hbeyond
        · exact ⟨side, hs⟩

theorem step_unknown (hshows : Shows none k) (hnot : ¬c.limits.Holds k value)
    (hwithin : ∃ side, c.Within side value) : c.limits.step k value = .unknown := by
  unfold Limits.step
  rw [if_neg hnot]
  exact if_pos ⟨shows_none.mp hshows, hwithin⟩

theorem step_clear (hshows : Shows was k) (hnot : ¬c.limits.Holds k value)
    (hwithin : was = none → ∀ side, ¬c.Within side value) : c.limits.step k value = .clear := by
  unfold Limits.step
  rw [if_neg hnot]
  refine if_neg ?_
  rintro ⟨rfl, side, hside⟩
  exact hwithin (shows_unknown.mp hshows) side hside

/-- **Step**: the state after a reading says what is known then, and stands alike, unless the reading
is held by a limit that is not remembered. -/
theorem standing_evaluate (c : Condition) (value : Json) (hshows : Shows was k) :
    ((evaluate c value was).or was).map Active.standing = (c.limits.step k value).stands ↔
      Heeds c was k value := by
  rw [heeds_iff]
  have heval := evaluated c was value
  generalize evaluate c value was = result at heval
  cases heval with
  | held reason h hreason =>
    refine iff_of_true ?_ fun _ => h
    rw [Limits.stands_step_of_holds (holds_of_held hshows h)]
    rfl
  | unknown h hwas hwithin =>
    subst hwas
    by_cases hholds : c.limits.Holds k value
    · rw [Limits.stands_step_of_holds hholds]
      exact iff_of_false (by simp) fun himp => h (himp hholds)
    · rw [step_unknown hshows hholds hwithin]
      exact iff_of_true rfl fun hh => absurd hh hholds
  | clear h hwithin =>
    by_cases hholds : c.limits.Holds k value
    · rw [Limits.stands_step_of_holds hholds]
      exact iff_of_false (by simp [Active.standing]) fun himp => h (himp hholds)
    · rw [step_clear hshows hholds hwithin]
      exact iff_of_true rfl fun hh => absurd hh hholds

theorem shows_evaluate (hshows : Shows was k) (hheeds : Heeds c was k value) :
    Shows ((evaluate c value was).or was) (c.limits.step k value) := by
  have hholds := heeds_iff.mp hheeds
  have heval := evaluated c was value
  generalize evaluate c value was = result at heval
  cases heval with
  | held reason h hreason =>
    rw [Limits.step_of_holds (holds_of_held hshows h)]
    exact fun side hside => exceededAfter_of_side hshows (hreason side hside)
  | unknown h hwas hwithin =>
    subst hwas
    rw [step_unknown hshows (fun hh => h (hholds hh)) hwithin]
    trivial
  | clear h hwithin =>
    rw [step_clear hshows (fun hh => h (hholds hh)) hwithin]
    trivial

end

/-! ## The readings of a point -/

/-- A good sample of a point that declares an alarm of this type and condition, and what is recorded
of the alarm topics when it comes. -/
structure Reading (device protocol point type : String) (c : Condition) where
  retained : Topic → Option Bool
  sample : Sample
  value : Json
  alarm : Alarm
  device_eq : sample.device = device
  protocol_eq : sample.protocol = protocol
  point_eq : sample.point = point
  good : sample.reading = some value
  declares : sample.alarmOfType type = some alarm
  condition_eq : alarm.condition = c

section

variable (stringify : Json → String) {device protocol point type : String} {c : Condition}

/-- What the record of the alarm's topic says. -/
def Reading.recorded (r : Reading device protocol point type c) : Option Bool :=
  r.retained (alarmTopic device type)

/-- What is kept of an alarm and what is known of it, after one reading; with what is published on the
alarm's topic. -/
noncomputable def read (s : State × Knowledge Side) (r : Reading device protocol point type c) :
    (State × Knowledge Side) × List (Option Raise) :=
  (((onSample stringify r.retained s.1 r.sample).1, c.limits.step (s.2.learn r.recorded) r.value),
    about (alarmTopic device type) (onSample stringify r.retained s.1 r.sample).2)

def State.active (s : State) (type : String) : Option Active := (s.get type).bind Known.active

/-- A reading is followed as documented: the alarm stands after it when it is to stand, and a reading
in a band publishes nothing while nothing is known and nothing else holds the alarm. -/
structure Follows (s : State × Knowledge Side) (r : Reading device protocol point type c) : Prop where
  stands : ((read stringify s r).1.1.active type).map Active.standing =
    (read stringify s r).1.2.stands
  silent : s.2.learn r.recorded = .unknown → (∃ side, c.Within side r.value) →
    ¬c.limits.Holds .unknown r.value → (read stringify s r).2 = []

/-- A reading is not held by a limit that is not remembered. -/
def Heeded (s : State × Knowledge Side) (r : Reading device protocol point type c) : Prop :=
  Heeds c (stateBefore r.recorded (s.1.get type)) (s.2.learn r.recorded) r.value

def Alternate (out : List (Option Raise)) : Prop := out.IsChain fun a b => a.isSome ≠ b.isSome

/-! ## One step -/

/-- What is kept of the alarm, by what is known of it. -/
inductive Tracks (protocol point : String) : Option Known → Knowledge Side → Prop where
  | fresh : Tracks protocol point none .unknown
  | mine {active : Option Active} {k : Knowledge Side} (h : Shows active k) :
      Tracks protocol point (some (.owned point protocol active)) k

def Mine (protocol point : String) (known : Option Known) : Prop :=
  known = none ∨ ∃ active, known = some (.owned point protocol active)

variable {stringify} {s : State × Knowledge Side} {r : Reading device protocol point type c}

theorem Tracks.mine' {known : Option Known} {k : Knowledge Side}
    (h : Tracks protocol point known k) : Mine protocol point known := by
  cases h with
  | fresh => exact .inl rfl
  | mine _ => exact .inr ⟨_, rfl⟩

/-- What the store knows of the alarm is what was learnt from the broker. -/
theorem Tracks.shows {known : Option Known} {k : Knowledge Side}
    (h : Tracks protocol point known k) (recorded : Option Bool) :
    Shows (stateBefore recorded known) (k.learn recorded) := by
  have hfresh : ∀ recorded : Option Bool,
      Shows (recorded.map fun standing => if standing then Active.held else .clear)
        (Knowledge.unknown.learn recorded) := by
    rintro (_ | _ | _)
    · trivial
    · trivial
    · exact fun _ => trivial
  cases h with
  | fresh => exact hfresh recorded
  | @mine active _ h =>
    cases active with
    | none =>
      rw [shows_none.mp h]
      exact hfresh recorded
    | some a =>
      cases k with
      | unknown => exact absurd (shows_unknown.mp h) (by simp)
      | clear => exact h
      | standing exceeded => exact h

variable (stringify) in
/-- What a reading does to its own alarm and what it publishes there. -/
theorem read_at (r : Reading device protocol point type c) (htype : type ≠ "__proto__")
    (h : Mine protocol point (s.1.get type)) :
    ((read stringify s r).1.1.get type, (read stringify s r).2) =
      (some (.owned point protocol
          ((evaluate c r.value (stateBefore r.recorded (s.1.get type))).or
            (stateBefore r.recorded (s.1.get type)))),
        ((evaluate c r.value (stateBefore r.recorded (s.1.get type))).map
          (settle (r.sample.raise stringify r.alarm)
            (stateBefore r.recorded (s.1.get type)))).getD []) := by
  have hat := onSample_at stringify r.retained r.sample s.1 htype
  have hkept : keptByOther r.sample (s.1.get type) = false := by
    unfold keptByOther
    obtain h | ⟨active, h⟩ := h
    · rw [h]
      rfl
    · rw [h]
      simp [Known.ownedBy, r.point_eq, r.protocol_eq]
  have hholding : holding r.sample r.alarm = evaluate c r.value := by
    funext was
    unfold holding
    rw [r.good, r.condition_eq]
    rfl
  rw [r.device_eq] at hat
  unfold sampled at hat
  rw [r.declares] at hat
  dsimp only at hat
  unfold declared at hat
  rw [hkept, if_neg Bool.false_ne_true, hholding, r.point_eq, r.protocol_eq] at hat
  refine hat.trans ?_
  unfold Reading.recorded
  cases evaluate c r.value (stateBefore (r.retained (alarmTopic device type)) (s.1.get type)) <;> rfl

variable (stringify) in
theorem known_read (r : Reading device protocol point type c) (htype : type ≠ "__proto__")
    (h : Mine protocol point (s.1.get type)) :
    (read stringify s r).1.1.get type =
      some (.owned point protocol
        ((evaluate c r.value (stateBefore r.recorded (s.1.get type))).or
          (stateBefore r.recorded (s.1.get type)))) :=
  (Prod.mk.inj (read_at stringify r htype h)).1

variable (stringify) in
theorem active_read (r : Reading device protocol point type c) (htype : type ≠ "__proto__")
    (h : Mine protocol point (s.1.get type)) :
    (read stringify s r).1.1.active type =
      (evaluate c r.value (stateBefore r.recorded (s.1.get type))).or
        (stateBefore r.recorded (s.1.get type)) := by
  unfold State.active
  rw [known_read stringify r htype h]
  rfl

variable (stringify) in
theorem published_read (r : Reading device protocol point type c) (htype : type ≠ "__proto__")
    (h : Mine protocol point (s.1.get type)) :
    (read stringify s r).2 =
      ((evaluate c r.value (stateBefore r.recorded (s.1.get type))).map
        (settle (r.sample.raise stringify r.alarm)
          (stateBefore r.recorded (s.1.get type)))).getD [] :=
  (Prod.mk.inj (read_at stringify r htype h)).2

/-- A reading follows the condition exactly when it is heeded. -/
theorem follows_iff (htype : type ≠ "__proto__") (h : Tracks protocol point (s.1.get type) s.2) :
    Follows stringify s r ↔ Heeded s r := by
  have hstep := standing_evaluate c r.value (h.shows r.recorded)
  constructor
  · intro hfollows
    have hstands := hfollows.stands
    rw [active_read stringify r htype h.mine'] at hstands
    exact hstep.mp hstands
  · intro hheeded
    refine ⟨?_, fun hunknown hwithin hnot => ?_⟩
    · rw [active_read stringify r htype h.mine']
      exact hstep.mpr hheeded
    · rw [published_read stringify r htype h.mine']
      have hshows := h.shows r.recorded
      rw [hunknown] at hshows
      have heval := evaluated c (stateBefore r.recorded (s.1.get type)) r.value
      generalize evaluate c r.value (stateBefore r.recorded (s.1.get type)) = result at heval
      cases heval with
      | held reason hheld _ => exact absurd (holds_of_held hshows hheld) hnot
      | unknown _ _ _ => rfl
      | clear _ hno =>
        obtain ⟨side, hside⟩ := hwithin
        exact absurd hside (hno (shows_unknown.mp hshows) side)

theorem tracks_read (htype : type ≠ "__proto__") (h : Tracks protocol point (s.1.get type) s.2)
    (hheeded : Heeded s r) :
    Tracks protocol point ((read stringify s r).1.1.get type) (read stringify s r).1.2 := by
  rw [known_read stringify r htype h.mine']
  exact .mine (shows_evaluate (h.shows r.recorded) hheeded)

/-! ## Publications -/

/-- The last publication agrees with the state. -/
structure Told (protocol point type : String) (s : State × Knowledge Side)
    (out : List (Option Raise)) : Prop where
  mine : Mine protocol point (s.1.get type)
  alternate : Alternate out
  last : ∀ p ∈ out.getLast?, (s.1.active type).map Active.standing = some p.isSome

theorem stateBefore_of_active {recorded : Option Bool} {known : Option Known} {a : Active}
    (h : known.bind Known.active = some a) : stateBefore recorded known = some a := by
  unfold stateBefore
  rw [h]
  rfl

/-- The alarm's last message agrees with what the store knows, and no message repeats it. -/
theorem told_read (htype : type ≠ "__proto__") {out : List (Option Raise)}
    (h : Told protocol point type s out) (r : Reading device protocol point type c) :
    Told protocol point type (read stringify s r).1 (out ++ (read stringify s r).2) := by
  have hactive := active_read stringify r htype h.mine
  have hknown := known_read stringify r htype h.mine
  have hout := published_read stringify r htype h.mine
  -- what was said last is what the reading starts from
  have hwas : ∀ p ∈ out.getLast?,
      (stateBefore r.recorded (s.1.get type)).map Active.standing = some p.isSome := by
    intro p hp
    have hlast := h.last p hp
    obtain ⟨a, ha, hstanding⟩ := Option.map_eq_some_iff.mp hlast
    rw [stateBefore_of_active ha, Option.map_some, hstanding]
  generalize stateBefore r.recorded (s.1.get type) = was at hactive hknown hout hwas
  have heval := evaluated c was r.value
  generalize evaluate c r.value was = result at hactive hknown hout heval
  have hmine : Mine protocol point ((read stringify s r).1.1.get type) :=
    .inr ⟨_, hknown⟩
  rw [hout]
  cases result with
  | none =>
    rw [Option.map_none, Option.getD_none, List.append_nil]
    refine ⟨hmine, h.alternate, fun p hp => ?_⟩
    rw [hactive]
    exact hwas p hp
  | some holds =>
    rw [Option.map_some, Option.getD_some]
    unfold settle
    split
    · next hsame =>
      rw [List.append_nil]
      refine ⟨hmine, h.alternate, fun p hp => ?_⟩
      rw [hactive, Option.some_or, Option.map_some, ← hsame]
      exact hwas p hp
    · next hchange =>
      have hsome : (if holds.standing = true then
          some (r.sample.raise stringify r.alarm) else none).isSome = holds.standing := by
        cases holds.standing <;> rfl
      refine ⟨hmine, ?_, fun p hp => ?_⟩
      · refine List.isChain_append.mpr ⟨h.alternate, List.isChain_singleton _, ?_⟩
        intro p hp q hq
        rw [List.head?_cons, Option.mem_some_iff] at hq
        rw [← hq, hsome]
        exact fun heq => hchange (heq ▸ hwas p hp)
      · rw [List.getLast?_concat, Option.mem_some_iff] at hp
        rw [hactive, ← hp, hsome]
        rfl

/-! ## The claim -/

/-- **Alarm conditions**: over the good samples of a point that starts an alarm, the alarm stands as
documented and is raised and cleared in turns exactly where every sample is heeded. -/
theorem conditions_iff (htype : type ≠ "__proto__") {s : State} (hs : s.get type = none)
    (rs : List (Reading device protocol point type c)) :
    AllSteps (read stringify) (Follows stringify) (s, .unknown) rs ∧
        Alternate (exec (read stringify) (s, .unknown) rs).2 ↔
      AllSteps (read stringify) Heeded (s, .unknown) rs := by
  have htold : Told protocol point type (exec (read stringify) (s, .unknown) rs).1
      (exec (read stringify) (s, .unknown) rs).2 := by
    have hstart : Told protocol point type (s, Knowledge.unknown) [] :=
      ⟨.inl hs, List.isChain_nil, fun p hp => by cases hp⟩
    exact @exec_outputs _ _ _ (read stringify) (Told protocol point type)
      (fun _ r _ h => told_read htype h r) _ rs hstart
  have hsteps : ∀ (rs : List (Reading device protocol point type c)) (s : State × Knowledge Side),
      Tracks protocol point (s.1.get type) s.2 →
      (AllSteps (read stringify) (Follows stringify) s rs ↔
        AllSteps (read stringify) Heeded s rs) := by
    intro rs
    induction rs with
    | nil => exact fun _ _ => Iff.rfl
    | cons r rs ih =>
      intro s h
      rw [allSteps_cons, allSteps_cons, follows_iff htype h]
      exact and_congr_right fun hheeded => ih _ (tracks_read htype h hheeded)
  have hfresh : Tracks protocol point (s.get type) .unknown := by
    rw [hs]
    exact .fresh
  rw [hsteps rs (s, .unknown) hfresh]
  exact and_iff_left htold.alternate

end

/-! ## A limit that is forgotten -/

/-- `{ type: "hot", when: { equals: 68, above: 70, hysteresis: 5 } }` -/
def heatEntry : Json :=
  .object [("type", .string "hot"),
    ("when", .object [("equals", .number (.posInt 68)), ("above", .number (.posInt 70)),
      ("hysteresis", .number (.posInt 5))])]

def heatSample (value : UInt64) : Sample where
  device := "pump"
  protocol := "opcua"
  name := "temp"
  body := .object [("quality", .string "good"), ("value", .number (.posInt value)),
    ("access", .string "read"), ("meta", .object [("alarm", heatEntry)])]

def heat : Alarm := (alarmOf "temp" heatEntry).get (by decide +kernel)

theorem alarms_heatSample (value : UInt64) : (heatSample value).alarmOfType "hot" = some heat := by
  have hentry : alarmOf "temp" heatEntry = some heat := Option.some_get _ |>.symm
  have hpoint : (heatSample value).point = "temp" := rfl
  have hlist : listOf (((heatSample value).body.get "meta").bind (·.get "alarm")) = [heatEntry] := rfl
  have htype : heat.type = "hot" := by decide +kernel
  unfold Sample.alarmOfType Sample.alarms alarmsOf
  rw [hpoint, hlist, List.filterMap_cons_some hentry]
  simp [takeAlarm, htype]

/-- A reading of the temperature, with nothing recorded. -/
def heatReading (value : UInt64) : Reading "pump" "opcua" "temp" "hot" heat.condition where
  retained _ := none
  sample := heatSample value
  value := .number (.posInt value)
  alarm := heat
  device_eq := rfl
  protocol_eq := rfl
  point_eq := rfl
  good := rfl
  declares := alarms_heatSample value
  condition_eq := rfl

theorem beyond_heat : heat.condition.Beyond .above (.number (.posInt 80)) :=
  ⟨Number.asF64 (.posInt 80), by decide +kernel, by decide +kernel⟩

theorem within_heat {value : UInt64} (hfinite : (Number.asF64 (.posInt value)).isFinite = true)
    (hband : heat.condition.inBand .above (Number.asF64 (.posInt value)) = true)
    (hbeyond : heat.condition.beyond .above (Number.asF64 (.posInt value)) = false) :
    heat.condition.Within .above (.number (.posInt value)) :=
  ⟨Number.asF64 (.posInt value), if_pos hfinite, hband, hbeyond⟩

/-- At 80 the limit holds the alarm, and at 67 its band does. -/
theorem conditions_heat :
    AllSteps (read fun _ => "") (Follows fun _ => "") (State.empty, .unknown)
        [heatReading 80, heatReading 67] ∧
      Alternate (exec (read fun _ => "") (State.empty, .unknown) [heatReading 80,
        heatReading 67]).2 := by
  refine (conditions_iff (by decide) rfl _).mpr ⟨.inr (.inl ⟨.above, beyond_heat⟩), ?_, trivial⟩
  refine .inr (.inr fun _ => ⟨.above, ?_, .inl ?_⟩)
  · exact within_heat (by decide +kernel) (by decide +kernel) (by decide +kernel)
  · decide +kernel

/-- At 68 the alarm is held by its list, and at 67 the band of the limit exceeded at 80 is forgotten:
the alarm is cleared. -/
theorem band_forgotten :
    ¬(AllSteps (read fun _ => "") (Follows fun _ => "") (State.empty, .unknown)
        [heatReading 80, heatReading 68, heatReading 67] ∧
      Alternate (exec (read fun _ => "") (State.empty, .unknown)
        [heatReading 80, heatReading 68, heatReading 67]).2) := by
  rintro ⟨⟨-, -, hlast, -⟩, -⟩
  have hclear : (read (fun _ => "") (read (fun _ => "") (read (fun _ => "")
      (State.empty, .unknown) (heatReading 80)).1 (heatReading 68)).1
        (heatReading 67)).1.1.active "hot" = some .clear := by
    decide +kernel
  -- the limit still counts
  have hlearn : ∀ (k : Knowledge Side) (value : UInt64),
      k.learn (heatReading value).recorded = k := fun k _ => k.learn_none
  have hkeeps : ∀ {k : Knowledge Side} {value : UInt64}, k.exceeded .above →
      heat.condition.Within .above (.number (.posInt value)) →
      heat.condition.limits.exceededAfter k (.number (.posInt value)) .above :=
    fun hk hwithin => .inr ⟨hk, not_back_of_within hwithin⟩
  have hholds : heat.condition.limits.Holds
      (heat.condition.limits.step (heat.condition.limits.step .unknown (.number (.posInt 80)))
        (.number (.posInt 68))) (.number (.posInt 67)) := by
    refine .inr ⟨.above, hkeeps ?_ (within_heat (by decide +kernel) (by decide +kernel)
      (by decide +kernel))⟩
    refine (Limits.exceeded_step _).mpr (hkeeps ?_ (within_heat (by decide +kernel)
      (by decide +kernel) (by decide +kernel)))
    exact (Limits.exceeded_step _).mpr (.inl beyond_heat)
  have hstands := hlast.stands
  rw [hclear] at hstands
  unfold read at hstands
  simp only [hlearn] at hstands
  cases hstands.trans (Limits.stands_step_of_holds hholds)

end TedgeDot.Flows.Alarms
