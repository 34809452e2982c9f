import TedgeDot.Runtime.Restored

/-!
# Retained units

The runtime remembers the units messages that it published, and publishes one again only where the
units differ (`settleUnits`). It never restores them. So the broker has a topic's units when it gets a
measurement of the topic, as long as no units message is lost (`UnitsKept`): each measurement on its
way arrives in time (`Timely`), and what is remembered as published will be retained (`UnitsInv`).

`retained_restored` puts this together with what is restored, for every run. An outage after which
the broker has forgotten the units is where it fails.
-/

namespace TedgeDot.BrokerSession

open Packet

open TedgeDot.Measure (settleUnits)
open Retained (settle apply Silent)

variable {rt : Runtime} {s s' : State} {m m' : Key → Option Value}

/-- The broker gets a measurement while it retains its topic's units. -/
def UnitsCurrent (s : State) : Prop :=
  ∀ topic units rest, s.queue = .measurement topic units :: rest →
    s.memory (.units topic) = asUnits units

/-! ## Packets -/


def Packet.isUnits : Packet → Bool
  | .set (.units _) _ => true
  | _ => false

/-- No units message is lost: it is not dropped, it survives the end of a session, the broker does
not forget it, and measurement output is not turned off once units were published. -/
def UnitsKept (s : State) : Act → Prop
  | .publish false => ∀ p ∈ s.out.head?, p.isUnits = false
  | .lose _ _ kept => ∀ p : Packet, p.isUnits = true → kept p = true
  | .connack _ forgotten =>
    ∀ topic, s.memory (.units topic) ≠ none → forgotten (.units topic) = false
  | .rebuild => s.config.measurements = true ∨ ∀ topic, s.published topic = none
  | _ => True

def SameUnits (m m' : Key → Option Value) : Prop := ∀ topic, m (.units topic) = m' (.units topic)

/-- Each measurement on its way arrives while the broker retains its topic's units. -/
def Timely (m : Key → Option Value) : List Packet → Prop
  | [] => True
  | p :: ps =>
    (∀ topic units, p = .measurement topic units → m (.units topic) = asUnits units) ∧
      Timely (apply sets m p) ps

theorem SameUnits.apply (h : SameUnits m m') (p : Packet) :
    SameUnits (apply sets m p) (apply sets m' p) :=
  fun topic => Retained.apply_congr (h topic)

theorem SameUnits.settle (h : SameUnits m m') (ps : List Packet) :
    SameUnits (settle sets m ps) (settle sets m' ps) :=
  fun topic => Retained.settle_congr (h topic)

variable {ps : List Packet}

theorem Timely.congr (h : SameUnits m m') (hps : Timely m ps) : Timely m' ps := by
  induction ps generalizing m m' with
  | nil => trivial
  | cons p ps ih =>
    refine ⟨fun topic units hp => ?_, ih (h.apply p) hps.2⟩
    rw [← h topic]
    exact hps.1 topic units hp

theorem timely_append {ps qs : List Packet} :
    Timely m (ps ++ qs) ↔ Timely m ps ∧ Timely (settle sets m ps) qs := by
  induction ps generalizing m with
  | nil => simp [Timely]
  | cons p ps ih => simp [Timely, ih, and_assoc]

theorem sets_units {p : Packet} {topic : String} {v : Option Value}
    (h : p.sets = some (.units topic, v)) : p.isUnits = true := by
  cases p with
  | measurement => cases h
  | set key value =>
    obtain ⟨rfl, -⟩ := Prod.mk.inj (Option.some.inj h)
    rfl

theorem sameUnits_apply {p : Packet} (hp : p.isUnits = false) :
    SameUnits (apply sets m p) m := by
  intro topic
  refine Retained.apply_of_ne fun v hv => ?_
  rw [sets_units hv] at hp
  cases hp

theorem sameUnits_settle (hps : ∀ p ∈ ps, p.isUnits = false) :
    SameUnits (settle sets m ps) m := by
  intro topic
  refine Retained.settle_of_silent fun p hp v hv => ?_
  have hfalse := hps p hp
  rw [sets_units hv] at hfalse
  cases hfalse

theorem sameUnits_filter {keep : Packet → Bool} (hkeep : ∀ p : Packet, p.isUnits = true → keep p =
    true)
    (ps : List Packet) :
    SameUnits (settle sets m (ps.filter keep)) (settle sets m ps) :=
  fun _ => Retained.settle_filter (fun p _ hv => hkeep p (sets_units hv)) ps

theorem Timely.filter {keep : Packet → Bool}
    (hkeep : ∀ p : Packet, p.isUnits = true → keep p = true) (h : Timely m ps) :
    Timely m (ps.filter keep) := by
  induction ps generalizing m with
  | nil => trivial
  | cons p ps ih =>
    cases hp : keep p with
    | true =>
      simp only [List.filter_cons, hp, if_true]
      exact ⟨h.1, ih h.2⟩
    | false =>
      simp only [List.filter_cons, hp, Bool.false_eq_true, if_false]
      have hunits : p.isUnits = false := by
        by_contra htrue
        rw [hkeep p (Bool.eq_true_of_not_eq_false htrue)] at hp
        cases hp
      exact ih (h.2.congr (sameUnits_apply hunits))

theorem timely_of_sets (hps : ∀ p ∈ ps, p.sets ≠ none) : Timely m ps := by
  induction ps generalizing m with
  | nil => trivial
  | cons p ps ih =>
    refine ⟨fun topic units hp => ?_, ih fun q hq => hps q (List.mem_cons_of_mem p hq)⟩
    exact absurd (hp ▸ rfl) (hps p List.mem_cons_self)

/-! ## Steps -/

/-- What the broker retains for units that were published. -/
def retainedUnits (published : Option String) : Option Value := published.bind asUnits

structure UnitsInv (s : State) : Prop where
  /-- What is remembered as published will be retained. -/
  published : ∀ topic, s.view (.units topic) = retainedUnits (s.published topic)
  timely : Timely s.memory (s.queue ++ s.out)
  topics : ∀ t ∈ s.topics, t.unitsSettled = true →
    retainedUnits (s.published t.metaTopic) = asUnits t.units
  distinct : (s.topics.map Measure.Topic.topic).Nodup

theorem UnitsInv.handler (h : UnitsInv s) (hout : s.out = [])
    (hps : ∀ p ∈ ps, p.isUnits = false ∧ p.sets ≠ none) (hpublished : s'.published = s.published)
    (htopics : s'.topics = s.topics) (hmemory : s'.memory = s.memory) (hqueue : s'.queue = s.queue)
    (hout' : s'.out = ps) : UnitsInv s' := by
  have hview : s.view = settle sets s.memory s.queue := by simp [State.view, hout]
  have htimely := h.timely
  rw [hout, List.append_nil] at htimely
  refine ⟨fun topic => ?_, ?_, ?_, ?_⟩
  · rw [hpublished, ← h.published topic, State.view, hmemory, hqueue, hout',
      Retained.settle_append, hview]
    exact sameUnits_settle (fun p hp => (hps p hp).1) topic
  · rw [hmemory, hqueue, hout']
    exact timely_append.mpr ⟨htimely, timely_of_sets fun p hp => (hps p hp).2⟩
  · rw [htopics, hpublished]
    exact h.topics
  · rw [htopics]
    exact h.distinct

/-- A packet that is sent reaches the broker, or the session keeps it. -/
theorem UnitsInv.publish (h : UnitsInv s) {taken : Bool} (hkept : UnitsKept s (.publish taken))
    (hstep : s.publish taken = some s') : UnitsInv s' := by
  unfold State.publish at hstep
  split at hstep
  · cases hstep
  · next p rest hout =>
    split at hstep
    · obtain rfl := Option.some.inj hstep
      refine ⟨fun topic => ?_, ?_, h.topics, h.distinct⟩
      · rw [← h.published topic]
        simp [State.view, hout]
      · have htimely := h.timely
        rw [hout] at htimely
        simpa only [List.append_assoc, List.singleton_append] using htimely
    · next hdropped =>
      obtain rfl := Option.some.inj hstep
      have hp : p.isUnits = false := by
        cases taken with
        | true => exact absurd rfl hdropped
        | false => exact hkept p (by simp [hout])
      refine ⟨fun topic => ?_, ?_, h.topics, h.distinct⟩
      · rw [← h.published topic]
        simp only [State.view, hout, Retained.settle_append, Retained.settle_cons]
        exact ((sameUnits_apply hp).settle rest topic).symm
      · have htimely := h.timely
        rw [hout] at htimely
        obtain ⟨hqueue, -, hrest⟩ := timely_append.mp htimely
        exact timely_append.mpr ⟨hqueue, hrest.congr (sameUnits_apply hp)⟩

theorem UnitsInv.deliver (h : UnitsInv s) (hstep : s.deliver = some s') : UnitsInv s' := by
  unfold State.deliver at hstep
  split at hstep
  · cases hstep
  · next p rest hqueue =>
    split at hstep
    · obtain rfl := Option.some.inj hstep
      have htimely := h.timely
      rw [hqueue] at htimely
      refine ⟨fun topic => ?_, htimely.2, h.topics, h.distinct⟩
      rw [← h.published topic]
      simp [State.view, hqueue]
    · cases hstep

theorem sameUnits_resent (rt : Runtime) (m : Key → Option Value) (ps : List Packet) (j : Nat) :
    SameUnits (settle sets (settle sets m ps) ((ps.drop j).filter (resent rt)))
      (settle sets m ps) := by
  have hresent : ∀ p : Packet, p.isUnits = true → p.resent rt = true := by
    intro p hp
    unfold isUnits at hp
    split at hp
    · cases rt <;> rfl
    · cases hp
  intro topic
  rw [sameUnits_filter hresent _ topic]
  have hsplit : settle sets m ps =
      settle sets (settle sets m (ps.take j)) (ps.drop j) := by
    rw [← Retained.settle_append, List.take_append_drop]
  rw [hsplit]
  exact Retained.settle_again _

/-- An outage loses no units. -/
theorem UnitsInv.lose (h : UnitsInv s) {k j : Nat} {kept : Packet → Bool}
    (hkept : ∀ p : Packet, p.isUnits = true → kept p = true)
    (hstep : s.lose rt k j kept = some s') : UnitsInv s' := by
  unfold State.lose at hstep
  split at hstep
  · obtain rfl := Option.some.inj hstep
    -- what the broker got, and what is left of the queue
    have hqueue : settle sets s.memory s.queue =
        settle sets (settle sets s.memory (s.queue.take k)) (s.queue.drop k) := by
      rw [← Retained.settle_append, List.take_append_drop]
    have hagain := sameUnits_resent rt s.memory (s.queue.take k) j
    have hrest : SameUnits (settle sets (settle sets s.memory (s.queue.take k))
        (((s.queue.take k).drop j).filter (resent rt) ++ (s.queue.drop k).filter kept))
        (settle sets s.memory s.queue) := by
      intro topic
      rw [Retained.settle_append, hqueue, hagain.settle _ topic]
      exact sameUnits_filter hkept _ topic
    have htimely := h.timely
    rw [← List.take_append_drop k s.queue, List.append_assoc] at htimely
    obtain ⟨-, hlater⟩ := timely_append.mp htimely
    obtain ⟨hdrop, hout⟩ := timely_append.mp hlater
    refine ⟨fun topic => ?_, ?_, h.topics, h.distinct⟩
    · rw [← h.published topic]
      simp only [State.view]
      rw [Retained.settle_append, Retained.settle_append s.queue]
      exact hrest.settle s.out topic
    · refine timely_append.mpr ⟨timely_append.mpr ⟨timely_of_sets ?_, ?_⟩, ?_⟩
      · intro p hp
        have hresent := (List.mem_filter.mp hp).2
        cases p with
        | set => simp [sets]
        | measurement => cases rt <;> cases hresent
      · exact (hdrop.filter hkept).congr fun topic => (hagain topic).symm
      · rw [← hqueue] at hout
        exact hout.congr fun topic => (hrest topic).symm
  · cases hstep

theorem UnitsInv.connack (h : UnitsInv s) {will : Bool} {forgotten : Key → Bool}
    (hkept : UnitsKept s (.connack will forgotten)) (hstep : s.connack will forgotten = some s') :
    UnitsInv s' := by
  unfold State.connack at hstep
  split at hstep
  · cases hstep
  · obtain rfl := Option.some.inj hstep
    have hsame : SameUnits (nextSession s.memory will forgotten) s.memory := by
      intro topic
      by_cases hnone : s.memory (.units topic) = none
      · simp [nextSession, hnone]
      · simp [nextSession, hkept topic hnone]
    refine ⟨fun topic => ?_, h.timely.congr fun topic => (hsame topic).symm, h.topics, h.distinct⟩
    rw [← h.published topic]
    exact hsame.settle _ topic

theorem built_unsettled (config : Config) : ∀ t ∈ config.built, t.unitsSettled = false := by
  intro t ht
  unfold Config.built at ht
  split at ht
  · obtain ⟨t', -, rfl⟩ := List.mem_map.mp ht
    rfl
  · cases ht

theorem built_distinct (config : Config) : (config.built.map Measure.Topic.topic).Nodup := by
  unfold Config.built
  split
  · have hsame : (config.topics.map fun t => { t with unitsSettled := false }).map
        Measure.Topic.topic = config.topics.map Measure.Topic.topic := by
      simp [List.map_map, Function.comp_def]
    rw [hsame]
    exact config.distinct
  · exact List.nodup_nil

theorem retainedUnits_settled (units : String) :
    retainedUnits none = asUnits units ↔ units.isEmpty = true := by
  cases hempty : units.isEmpty <;> simp [retainedUnits, asUnits, hempty]

theorem metaTopic_inj {t t' : Measure.Topic} (h : t.metaTopic = t'.metaTopic) :
    t.topic = t'.topic := by
  have hlist := congrArg String.toList h
  simp only [Measure.Topic.metaTopic, String.toList_append] at hlist
  exact String.toList_inj.mp (List.append_cancel_right hlist)

theorem settleUnits_spec (topic : Measure.Topic) (published : Measure.PublishedUnits)
    (hsettled : topic.unitsSettled = true →
      retainedUnits (published topic.metaTopic) = asUnits topic.units) :
    ∃ t, (settleUnits topic published).1 = t ∧ t.topic = topic.topic ∧ t.units = topic.units ∧
      (((settleUnits topic published).2.1 = published ∧ (settleUnits topic published).2.2 = [] ∧
          retainedUnits (published topic.metaTopic) = asUnits topic.units) ∨
        ((settleUnits topic published).2.1 =
            Function.update published topic.metaTopic (some topic.units) ∧
          (settleUnits topic published).2.2 = [.units t])) := by
  unfold settleUnits
  split
  · next hunits => exact ⟨topic, rfl, rfl, rfl, Or.inl ⟨rfl, rfl, hsettled hunits⟩⟩
  · refine ⟨{ topic with unitsSettled := true }, ?_, rfl, rfl, ?_⟩
    · simp only
      split <;> rfl
    · simp only
      split
      · next hbefore =>
        refine Or.inl ⟨rfl, rfl, ?_⟩
        rcases hbefore with hsome | ⟨hnone, hempty⟩
        · exact (congrArg retainedUnits hsome).trans rfl
        · exact (congrArg retainedUnits hnone).trans ((retainedUnits_settled _).mpr hempty)
      · exact Or.inr ⟨rfl, rfl⟩

theorem set_distinct {topics : List Measure.Topic} (h : (topics.map Measure.Topic.topic).Nodup)
    {i : Nat} {topic t : Measure.Topic} (hi : topics[i]? = some topic)
    (ht : t.topic = topic.topic) : ((topics.set i t).map Measure.Topic.topic).Nodup := by
  obtain ⟨hlt, rfl⟩ := List.getElem?_eq_some_iff.mp hi
  have hsame : (topics.set i t).map Measure.Topic.topic = topics.map Measure.Topic.topic := by
    rw [List.map_set, ht, ← List.map_set, List.set_getElem_self]
  rwa [hsame]

theorem other_topic {topics : List Measure.Topic} (h : (topics.map Measure.Topic.topic).Nodup)
    {i : Nat} {topic t u : Measure.Topic} (hi : topics[i]? = some topic)
    (ht : t.topic = topic.topic) (hu : u ∈ topics.set i t) :
    u = t ∨ (u ∈ topics ∧ u.metaTopic ≠ t.metaTopic) := by
  by_cases hut : u = t
  · exact Or.inl hut
  · refine Or.inr ⟨(List.mem_or_eq_of_mem_set hu).resolve_right hut, fun hmeta => hut ?_⟩
    exact List.inj_on_of_nodup_map (set_distinct h hi ht) hu
      (List.mem_set (List.getElem?_eq_some_iff.mp hi).1 t) (metaTopic_inj hmeta)

/-- A measurement publishes its units where they changed. -/
theorem UnitsInv.measure (h : UnitsInv s) (hout : s.out = []) {i : Nat}
    (hstep : s.measure i = some s') : UnitsInv s' := by
  obtain ⟨topic, hi, rfl⟩ := Option.map_eq_some_iff.mp hstep
  obtain ⟨t, htopic, hname, hunits, hcases⟩ := settleUnits_spec topic s.published
    (h.topics topic (List.mem_of_getElem? hi))
  have hmeta : t.metaTopic = topic.metaTopic := by rw [Measure.Topic.metaTopic, hname]; rfl
  have hview : s.view = settle sets s.memory s.queue := by simp [State.view, hout]
  -- nothing is being sent, so the session's queue is all there is
  have htimely := h.timely
  rw [hout, List.append_nil] at htimely
  rcases hcases with ⟨hpublished, hnone, hbefore⟩ | ⟨hpublished, hsome⟩
  · -- the units are what was last published
    have hretained : settle sets s.memory s.queue (.units t.metaTopic) = asUnits t.units := by
      rw [← hview, h.published, hmeta, hunits, hbefore]
    refine ⟨fun name => ?_, ?_, ?_, ?_⟩
    · have hbefore' := h.published name
      rw [hview] at hbefore'
      simp only [hpublished, hnone, List.filterMap_nil, List.nil_append, State.view,
        Retained.settle_append]
      exact hbefore'
    · simp only [hnone, htopic, List.filterMap_nil, List.nil_append]
      refine timely_append.mpr ⟨htimely, ⟨?_, trivial⟩⟩
      intro name units hp
      obtain ⟨rfl, rfl⟩ := measurement.inj hp
      exact hretained
    · simp only [hpublished, htopic]
      intro u hu hsettled
      rcases other_topic h.distinct hi hname hu with rfl | ⟨hmem, -⟩
      · rw [hmeta, hunits]
        exact hbefore
      · exact h.topics u hmem hsettled
    · simp only [htopic]
      exact set_distinct h.distinct hi hname
  · -- they are published first
    have hpackets : (settleUnits topic s.published).2.2.filterMap unitsPacket ++
        [measurement t.metaTopic t.units] =
        [.set (.units t.metaTopic) (asUnits t.units), .measurement t.metaTopic t.units] := by
      rw [hsome]
      rfl
    have hset : apply sets (settle sets s.memory s.queue)
        (.set (.units t.metaTopic) (asUnits t.units)) (.units t.metaTopic) = asUnits t.units :=
      Retained.apply_sets rfl
    refine ⟨fun name => ?_, ?_, ?_, ?_⟩
    · simp only [htopic, hpackets, hpublished, State.view, Retained.settle_append,
        Retained.settle_cons, Retained.settle_nil]
      by_cases hname' : name = t.metaTopic
      · subst hname'
        rw [Retained.apply_of_ne (by simp [sets]), hset, hmeta, hunits]
        simp [retainedUnits]
      · rw [Retained.apply_of_ne (by simp [sets]), Retained.apply_of_ne, ← hview, h.published,
          Function.update_of_ne (hmeta ▸ hname')]
        intro v hv
        exact hname' (Key.units.inj (Prod.mk.inj (Option.some.inj hv)).1).symm
    · simp only [htopic, hpackets]
      refine timely_append.mpr ⟨htimely, ⟨?_, ?_, trivial⟩⟩
      · intro name units hp
        cases hp
      · intro name units hp
        obtain ⟨rfl, rfl⟩ := measurement.inj hp
        exact hset
    · simp only [hpublished, htopic]
      intro u hu hsettled
      rcases other_topic h.distinct hi hname hu with rfl | ⟨hmem, hother⟩
      · rw [hmeta, Function.update_self, hunits]
        rfl
      · rw [Function.update_of_ne (hmeta ▸ hother)]
        exact h.topics u hmem hsettled
    · simp only [htopic]
      exact set_distinct h.distinct hi hname

/-- Every event keeps the units retained, sent or queued. -/
theorem UnitsInv.act (h : UnitsInv s) {a : Act} (hkept : UnitsKept s a)
    (hstep : s.act rt a = some s') : UnitsInv s' := by
  -- link reports have topics of their own
  have hlinks : ∀ (r : Runtime) (config : Config) (now : Nat) (reports : List Report),
      ∀ p ∈ reports.map (linkPacket r config now), p.isUnits = false ∧ p.sets ≠ none := by
    intro r config now reports p hp
    obtain ⟨report, -, rfl⟩ := List.mem_map.mp hp
    exact ⟨rfl, by simp [linkPacket, sets]⟩
  have hreload : ∀ (r : Runtime) (config : Config) (now : Nat) (reports : List Report),
      ∀ p ∈ capabilitiesPacket config :: reports.map (linkPacket r config now),
        p.isUnits = false ∧ p.sets ≠ none := by
    intro r config now reports p hp
    rcases List.mem_cons.mp hp with rfl | hp
    · exact ⟨rfl, by simp [capabilitiesPacket, sets]⟩
    · exact hlinks r config now reports p hp
  cases a with
  | publish taken => exact h.publish hkept hstep
  | deliver => exact h.deliver hstep
  | lose k j kept => exact h.lose hkept hstep
  | connack will forgotten => exact h.connack hkept hstep
  | restore now =>
    simp only [State.act] at hstep
    split at hstep
    · next hready =>
      obtain rfl := Option.some.inj hstep
      refine h.handler hready.1 ?_ rfl rfl rfl rfl rfl
      intro p hp
      rcases List.mem_append.mp hp with hp | hp
      · simp only [subscriptions, healthPacket, capabilitiesPacket, List.cons_append, List.nil_append,
          List.mem_cons, List.not_mem_nil, or_false] at hp
        rcases hp with rfl | rfl | rfl | rfl <;> exact ⟨rfl, by simp [sets]⟩
      · exact hlinks rt s.config now _ p hp
    · cases hstep
  | link r now =>
    simp only [State.act] at hstep
    split at hstep
    · next hout =>
      obtain rfl := Option.some.inj hstep
      exact h.handler hout (hlinks rt s.config now [r]) rfl rfl rfl rfl rfl
    · cases hstep
  | reload config reports now =>
    simp only [State.act, State.reload] at hstep
    split at hstep
    · next hout =>
      split at hstep
      · split at hstep
        · obtain rfl := Option.some.inj hstep
          exact h.handler hout (hreload _ _ _ _) rfl rfl rfl rfl rfl
        · cases hstep
      · obtain rfl := Option.some.inj hstep
        exact h.handler hout (hreload _ _ _ _) rfl rfl rfl rfl rfl
      · split at hstep
        · obtain rfl := Option.some.inj hstep
          exact h.handler hout (hreload _ _ _ _) rfl rfl rfl rfl rfl
        · cases hstep
      · cases hstep
    · cases hstep
  | refused reports now =>
    simp only [State.act] at hstep
    split at hstep
    · next hready =>
      obtain rfl := Option.some.inj hstep
      exact h.handler hready.1 (hlinks _ _ _ _) rfl rfl rfl rfl rfl
    · cases hstep
  | rebuild =>
    simp only [State.act] at hstep
    split at hstep
    · next hout =>
      obtain rfl := Option.some.inj hstep
      have hpublished : (if s.config.measurements then s.published else fun _ => none) =
          s.published := by
        split
        · rfl
        · next hoff => exact funext fun topic => (hkept.resolve_left hoff topic).symm
      refine ⟨fun topic => ?_, h.timely, ?_, built_distinct s.config⟩
      · simp only [hpublished]
        exact h.published topic
      · intro t ht hsettled
        rw [built_unsettled s.config t ht] at hsettled
        cases hsettled
    · cases hstep
  | measure i =>
    simp only [State.act] at hstep
    split at hstep
    · next hout => exact h.measure hout hstep
    · cases hstep

theorem unitsInv_start (rt : Runtime) (config : Config) {memory : Key → Option Value}
    (hmemory : ∀ topic, memory (.units topic) = none) : UnitsInv (State.start rt config memory) := by
  have hstartup : ∀ p ∈ startup rt config, p.isUnits = false ∧ p.sets ≠ none := by
    intro p hp
    cases rt <;>
    · simp only [startup, subscriptions, healthPacket, capabilitiesPacket, List.cons_append,
        List.nil_append, List.mem_cons, List.not_mem_nil, or_false] at hp
      rcases hp with rfl | rfl | rfl | rfl <;> exact ⟨rfl, by simp [sets]⟩
  refine ⟨fun topic => ?_, ?_, ?_, built_distinct config⟩
  · have hsame := sameUnits_settle (m := memory) (fun p hp => (hstartup p hp).1) topic
    exact hsame.trans (hmemory topic)
  · exact timely_of_sets fun p hp => (hstartup p hp).2
  · intro t ht hsettled
    rw [built_unsettled config t ht] at hsettled
    cases hsettled

/-! ## Runs -/

/-- **Retained state and broker outages**, in every run of either runtime. Once the restore of the
session has run, with nothing of it dropped, each subscription and each retained message of which no
packet is on its way is that of the running configuration and the current links. A measurement
arrives while its topic's units are retained, in a run that keeps the units. -/
theorem retained_restored (rt : Runtime) (config : Config) (memory : Key → Option Value)
    (acts : List Act) :
    ((run rt config memory acts).intact = true → Restored (run rt config memory acts)) ∧
      ((∀ topic, memory (.units topic) = none) →
        Machine.AllSteps (State.step rt) UnitsKept (State.start rt config memory) acts →
        UnitsCurrent (run rt config memory acts)) := by
  refine ⟨(inv_run rt config memory acts).restored, fun hmemory hkept => ?_⟩
  have hinv : UnitsInv (run rt config memory acts) :=
    Machine.final_induction_of (fun s a ha hs => step_of_act hs fun _ hact => hs.act ha hact) hkept
      (unitsInv_start rt config hmemory)
  intro topic units rest hqueue
  have htimely := hinv.timely
  rw [hqueue] at htimely
  exact htimely.1 topic units rfl

/-- One device, with one measurement topic. -/
def onePlc : Config :=
  { devices := [{ name := "plc", type := none, points := ["temp"] }]
    capabilities := "plc"
    measurements := true
    topics := [{
      topic := "te/device/plc///m/modbus", groupJson := "\"modbus\"", units := "C"
      unitsSettled := false }]
    names := by decide
    distinct := by decide }

/-- `n` packets are taken by the client, and then get to the broker. -/
def sent (n : Nat) : List Act :=
  List.replicate n (.publish true) ++ List.replicate n .deliver

/-- The device connects and a measurement goes out with its units. The broker is lost and forgets what
`forgotten` says. The session is restored, and the next measurement is on its way. -/
def outage (forgotten : Key → Bool) : List Act :=
  sent 4 ++
    [.link { device := "plc", status := .connected, reason := none, info := none } 0] ++ sent 1 ++
    [.measure 0] ++ sent 2 ++ [.lose 0 0 fun _ => true, .connack true forgotten, .restore 1] ++
    sent 5 ++ [.measure 0, .publish true]

def allButUnits : Key → Bool
  | .units _ => false
  | _ => true

theorem outage_kept (s : State) : ∀ a ∈ outage allButUnits, UnitsKept s a := by
  simp [outage, sent, UnitsKept, allButUnits, List.replicate]

/-- An outage and a reconnect. -/
theorem retained_restored_outage :
    Restored (run .rust onePlc (fun _ => none) (outage allButUnits)) ∧
      UnitsCurrent (run .rust onePlc (fun _ => none) (outage allButUnits)) :=
  have h := retained_restored .rust onePlc (fun _ => none) (outage allButUnits)
  ⟨h.1 (by decide), h.2 (fun _ => rfl) (Machine.allSteps_of_mem outage_kept _)⟩

theorem units_forgotten (rt : Runtime) :
    ¬∀ (config : Config) (acts : List Act),
      (run rt config (fun _ => none) acts).intact = true →
        UnitsCurrent (run rt config (fun _ => none) acts) := by
  intro h
  have hcurrent := h onePlc (outage fun _ => true) (by cases rt <;> decide)
    "te/device/plc///m/modbus/meta" "C" [] (by cases rt <;> decide)
  have hnone : (run rt onePlc (fun _ => none) (outage fun _ => true)).memory
      (.units "te/device/plc///m/modbus/meta") = none := by
    cases rt <;> decide
  rw [hnone] at hcurrent
  cases hcurrent

/-- Neither runtime restores units. -/
theorem units_not_restored :
    (¬∀ (config : Config) (acts : List Act),
        (run .rust config (fun _ => none) acts).intact = true →
          UnitsCurrent (run .rust config (fun _ => none) acts)) ∧
      ¬∀ (config : Config) (acts : List Act),
        (run .c config (fun _ => none) acts).intact = true →
          UnitsCurrent (run .c config (fun _ => none) acts) :=
  ⟨units_forgotten .rust, units_forgotten .c⟩

end TedgeDot.BrokerSession
