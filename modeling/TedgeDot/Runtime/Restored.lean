import TedgeDot.Runtime.BrokerSession

/-!
# What is restored

What a restore after a lost session brings back (`BrokerSession`), and what every later step keeps.

- **Restored**: what the broker keeps once the restore of the session has run.
- **Links**: the recorded link states and the link status messages go together, report by report.
- **Steps**: what the broker will have once the packets on their way have arrived (`State.view`)
  stays what the running configuration and the link states say, until the session is lost.
-/

namespace TedgeDot.BrokerSession

open Retained

open TedgeDot.Measure (settleUnits)
open Retained (settle apply Silent)

variable {rt : Runtime} {s s' : State} {m m' : Key → Option Value}

/-! ## What is promised -/

/-- A link status message tells of the device's configuration and link. -/
structure Link.Describes (p : Link) (config : Config) (name : String) (status : LinkStatus) :
    Prop where
  status : p.status = status
  type : p.type = (config.device? name).bind DeviceConfig.type
  points : p.points = (config.device? name).map DeviceConfig.points

/-- The link status of a device, where it is known. -/
def Shown (config : Config) (links : Links) (m : Key → Option Value) (name : String) : Prop :=
  ∀ r, links.lookup name = some r →
    ∃ p : Link, m (.link name) = some (.link p) ∧ p.Describes config name r.status

/-- Both subscriptions exist, and what is retained is that of the configuration and the links. For
each key of which no packet is on its way. -/
structure Restored (s : State) : Prop where
  subscribed : ∀ filter, Silent Packet.sets (.subscription filter) (s.queue ++ s.out) →
    s.memory (.subscription filter) = some .subscribed
  health : Silent Packet.sets .health (s.queue ++ s.out) → s.memory .health = some (.health "up")
  capabilities : Silent Packet.sets .capabilities (s.queue ++ s.out) →
    s.memory .capabilities = some (.capabilities s.config.capabilities)
  links : ∀ d ∈ s.config.devices, Silent Packet.sets (.link d.name) (s.queue ++ s.out) →
    Shown s.config s.links s.memory d.name

/-! ## Restored -/

/-- What the broker will keep. -/
structure Wanted (config : Config) (links : Links) (m : Key → Option Value) : Prop where
  subscribed : ∀ filter, m (.subscription filter) = some .subscribed
  health : m .health = some (.health "up")
  capabilities : m .capabilities = some (.capabilities config.capabilities)
  links : ∀ d ∈ config.devices, Shown config links m d.name

/-- What the broker keeps once the packets on their way have arrived. -/
def State.view (s : State) : Key → Option Value :=
  settle Packet.sets s.memory (s.queue ++ s.out)

/-- A record is filed under its device. -/
def Keyed (links : Links) : Prop := ∀ name r, links.lookup name = some r → r.device = name

/-- The units are not among what is restored. -/
def Key.IsUnits : Key → Prop
  | .units _ => True
  | _ => False

variable {config : Config} {links : Links}

theorem Wanted.congr (h : Wanted config links m) (hm : ∀ k : Key, ¬ k.IsUnits → m' k = m k) :
    Wanted config links m' := by
  refine ⟨fun filter => ?_, ?_, ?_, fun d hd r hr => ?_⟩
  · rw [hm _ (by simp [Key.IsUnits])]
    exact h.subscribed filter
  · rw [hm _ (by simp [Key.IsUnits])]
    exact h.health
  · rw [hm _ (by simp [Key.IsUnits])]
    exact h.capabilities
  · rw [hm _ (by simp [Key.IsUnits])]
    exact h.links d hd r hr

theorem sets_unrestored {p : Packet} (h : p.unrestored = true) {k : Key} (hk : ¬ k.IsUnits)
    (v : Option Value) : p.sets ≠ some (k, v) := by
  intro hsets
  cases p with
  | measurement topic units => cases hsets
  | set key value =>
    obtain ⟨rfl, rfl⟩ := Prod.mk.inj (Option.some.inj hsets)
    cases key with
    | units topic => exact hk trivial
    | _ => cases h

/-! ### Links -/

theorem lookup_record (rt : Runtime) (links : Links) (r : Report) (name : String) :
    ∃ r', (record rt links r).lookup name = (if name = r.device then some r' else links.lookup name) ∧
      r'.device = r.device ∧ r'.status = r.status := by
  cases rt with
  | rust =>
    refine ⟨{ r with
      reason := none, info := r.info.or ((links.lookup r.device).bind Report.info) }, ?_, rfl, rfl⟩
    by_cases hname : name = r.device
    · subst hname
      simp [record]
    · simp [record, hname]
  | c =>
    refine ⟨r, ?_, rfl, rfl⟩
    by_cases hname : name = r.device
    · subst hname
      simp [record]
    · simp [record, hname]

theorem keyed_empty : Keyed (∅ : Links) := by
  intro name r hr
  simp at hr

theorem Keyed.record (h : Keyed links) (r : Report) : Keyed (record rt links r) := by
  intro name r₁ hr₁
  obtain ⟨r', hlookup, hdevice, -⟩ := lookup_record rt links r name
  rw [hlookup] at hr₁
  split at hr₁
  · next hname => rw [← Option.some.inj hr₁, hdevice, hname]
  · exact h name r₁ hr₁

theorem Keyed.reported (h : Keyed links) (reports : List Report) :
    Keyed (State.reported rt links reports) := by
  induction reports generalizing links with
  | nil => exact h
  | cons r reports ih => exact ih (h.record r)

theorem linkPayload_describes (config : Config) (now : Nat) (r : Report) :
    (linkPayload rt config now r).Describes config r.device r.status :=
  ⟨rfl, rfl, rfl⟩

theorem shown_record {name : String} (r : Report) (now : Nat)
    (h : name = r.device ∨ Shown config links m name) :
    Shown config (record rt links r) (apply Packet.sets m (linkPacket rt config now r)) name := by
  intro r₁ hr₁
  obtain ⟨r', hlookup, -, hstatus⟩ := lookup_record rt links r name
  rw [hlookup] at hr₁
  split at hr₁
  · next hname =>
    subst hname
    refine ⟨linkPayload rt config now r, apply_sets rfl, ?_⟩
    rw [← Option.some.inj hr₁, hstatus]
    exact linkPayload_describes config now r
  · next hname =>
    obtain ⟨p, hp, hdescribes⟩ := h.resolve_left hname r₁ hr₁
    refine ⟨p, ?_, hdescribes⟩
    rw [apply_of_ne, hp]
    intro v hv
    obtain ⟨hkey, -⟩ := Prod.mk.inj (Option.some.inj hv)
    exact hname (Key.link.inj hkey).symm

theorem shown_reported {name : String} (reports : List Report) (now : Nat)
    (h : name ∈ reports.map Report.device ∨ Shown config links m name) :
    Shown config (State.reported rt links reports)
      (settle Packet.sets m (reports.map (linkPacket rt config now))) name := by
  induction reports generalizing links m with
  | nil => exact h.resolve_left List.not_mem_nil
  | cons r reports ih =>
    by_cases hlater : name ∈ reports.map Report.device
    · exact ih (Or.inl hlater)
    · refine ih (Or.inr (shown_record r now ?_))
      rcases h with hname | hshown
      · simp only [List.map_cons, List.mem_cons] at hname
        exact Or.inl (hname.resolve_right hlater)
      · exact Or.inr hshown

theorem silent_links {now : Nat} {k : Key} (hk : ∀ name, k ≠ .link name) (reports : List Report) :
    Silent Packet.sets k (reports.map (linkPacket rt config now)) := by
  intro p hp v hv
  obtain ⟨r, -, rfl⟩ := List.mem_map.mp hp
  obtain ⟨hkey, -⟩ := Prod.mk.inj (Option.some.inj hv)
  exact hk _ hkey.symm

theorem Wanted.reported (h : Wanted config links m) (rt : Runtime) (reports : List Report)
    (now : Nat) :
    Wanted config (State.reported rt links reports)
      (settle Packet.sets m (reports.map (linkPacket rt config now))) := by
  refine ⟨fun filter => ?_, ?_, ?_, fun d hd => shown_reported reports now (Or.inr (h.links d hd))⟩
  · rw [settle_of_silent (silent_links (by simp) reports), h.subscribed]
  · rw [settle_of_silent (silent_links (by simp) reports), h.health]
  · rw [settle_of_silent (silent_links (by simp) reports), h.capabilities]

theorem mem_known {d : DeviceConfig} (hd : d ∈ config.devices) {r : Report}
    (hr : links.lookup d.name = some r) : r ∈ known rt config links := by
  cases rt with
  | c => exact List.mem_filterMap.mpr ⟨d, hd, hr⟩
  | rust =>
    refine List.mem_filterMap.mpr ⟨d.name, ?_, hr⟩
    rw [(List.perm_insertionSort _ _).mem_iff, List.mem_filter]
    refine ⟨?_, ?_⟩
    · rw [← AList.mem_keys, ← AList.lookup_isSome, hr]
      rfl
    · rw [Config.device?, List.find?_isSome]
      exact ⟨d, hd, by simp⟩

theorem known_lookup (h : Keyed links) {r : Report} (hr : r ∈ known rt config links) :
    links.lookup r.device = some r := by
  have hsome : ∃ name, links.lookup name = some r := by
    cases rt with
    | c =>
      obtain ⟨d, -, hlookup⟩ := List.mem_filterMap.mp hr
      exact ⟨d.name, hlookup⟩
    | rust =>
      obtain ⟨name, -, hlookup⟩ := List.mem_filterMap.mp hr
      exact ⟨name, hlookup⟩
  obtain ⟨name, hlookup⟩ := hsome
  rw [h name r hlookup, hlookup]

/-- After the retained reports every device shows its link. -/
theorem shown_known (h : Keyed links) (now : Nat) {d : DeviceConfig} (hd : d ∈ config.devices) :
    Shown config links
      (settle Packet.sets m ((known rt config links).map (linkPacket rt config now))) d.name := by
  intro r hr
  have hdevice := h d.name r hr
  have hpacket : linkPacket rt config now r ∈ (known rt config links).map (linkPacket rt config now) :=
    List.mem_map_of_mem (mem_known hd hr)
  refine settle_of_sets
    (P := fun v : Option Value =>
      ∃ p : Link, v = some (Value.link p) ∧ p.Describes config d.name r.status) ?_ ?_
  · intro hsilent
    exact hsilent _ hpacket _ (by rw [linkPacket, hdevice, Packet.sets])
  · intro p hp v hv
    obtain ⟨r', hr', rfl⟩ := List.mem_map.mp hp
    obtain ⟨hkey, rfl⟩ := Prod.mk.inj (Option.some.inj hv)
    -- the report of the device is its record
    have hname : r'.device = d.name := Key.link.inj hkey
    have hlookup := known_lookup h hr'
    rw [hname, hr] at hlookup
    obtain rfl := Option.some.inj hlookup
    exact ⟨_, rfl, hname ▸ linkPayload_describes config now r⟩

theorem wanted_restore (h : Keyed links) (now : Nat) :
    Wanted config links (settle Packet.sets m (restore rt config links now)) := by
  have hlinks : ∀ k : Key, (∀ name, k ≠ .link name) →
      settle Packet.sets m (restore rt config links now) k =
        settle Packet.sets m (subscriptions ++ [healthPacket "up", capabilitiesPacket config]) k := by
    intro k hk
    rw [restore, settle_append, settle_of_silent (silent_links hk _)]
  refine ⟨fun filter => ?_, ?_, ?_, fun d hd => ?_⟩
  · rw [hlinks _ (by simp)]
    cases filter <;> rfl
  · rw [hlinks _ (by simp)]
    rfl
  · rw [hlinks _ (by simp)]
    rfl
  · rw [restore, settle_append]
    exact shown_known h now hd

/-! ### Steps -/

/-- What holds in every state. -/
structure Inv (s : State) : Prop where
  keyed : Keyed s.links
  wanted : s.intact = true → Wanted s.config s.links s.view

theorem wanted_reload {config config' : Config} {links links' : Links} {reports : List Report}
    (now : Nat) (h : Wanted config links m)
    (hlinks : ∀ d ∈ config'.devices, ∀ m₁ : Key → Option Value, Shown config' links'
      (settle Packet.sets m₁ (reports.map (linkPacket rt config' now))) d.name) :
    Wanted config' links' (settle Packet.sets m
      (capabilitiesPacket config' :: reports.map (linkPacket rt config' now))) := by
  have hsilent : ∀ k : Key, (∀ name, k ≠ .link name) →
      settle Packet.sets m (capabilitiesPacket config' :: reports.map (linkPacket rt config' now)) k =
        apply Packet.sets m (capabilitiesPacket config') k := by
    intro k hk
    rw [settle_cons, settle_of_silent (silent_links hk reports)]
  have hother : ∀ k : Key, k ≠ .capabilities → ∀ v, (capabilitiesPacket config').sets ≠ some (k, v) :=
    fun k hk v hv => hk (Prod.mk.inj (Option.some.inj hv)).1.symm
  refine ⟨fun filter => ?_, ?_, ?_, fun d hd => ?_⟩
  · rw [hsilent _ (by simp), apply_of_ne (hother _ (by simp)), h.subscribed]
  · rw [hsilent _ (by simp), apply_of_ne (hother _ (by simp)), h.health]
  · rw [hsilent _ (by simp)]
    exact apply_sets rfl
  · rw [settle_cons]
    exact hlinks d hd _

theorem Inv.publish (h : Inv s) {taken : Bool} (hstep : s.publish taken = some s') : Inv s' := by
  unfold State.publish at hstep
  split at hstep
  · cases hstep
  · next p rest hout =>
    split at hstep
    · obtain rfl := Option.some.inj hstep
      refine ⟨h.keyed, fun hintact => ?_⟩
      have hwanted := h.wanted hintact
      simpa only [State.view, hout, List.append_assoc, List.singleton_append] using hwanted
    · obtain rfl := Option.some.inj hstep
      refine ⟨h.keyed, fun hintact => ?_⟩
      -- what is dropped says nothing of what is restored
      obtain ⟨hbefore, hp⟩ := Bool.and_eq_true_iff.mp hintact
      refine (h.wanted hbefore).congr fun k hk => ?_
      simp only [State.view, hout, settle_append, settle_cons]
      exact settle_congr (apply_of_ne (sets_unrestored hp hk)).symm

theorem Inv.deliver (h : Inv s) (hstep : s.deliver = some s') : Inv s' := by
  unfold State.deliver at hstep
  split at hstep
  · cases hstep
  · next p rest hqueue =>
    split at hstep
    · obtain rfl := Option.some.inj hstep
      refine ⟨h.keyed, fun hintact => ?_⟩
      have hwanted := h.wanted hintact
      simpa only [State.view, hqueue, List.cons_append, settle_cons] using hwanted
    · cases hstep

/-- A reload keeps what is retained in step with the links. -/
theorem Inv.reload (h : Inv s) (hout : s.out = []) {reports : Option (List Report)} {now : Nat}
    (hstep : s.reload rt config reports now = some s') : Inv s' := by
  have hnamed : ∀ reports : List Report, Covers config reports → ∀ d ∈ config.devices,
      ∀ links : Links, ∀ m₁ : Key → Option Value, Shown config (State.reported rt links reports)
        (settle Packet.sets m₁ (reports.map (linkPacket rt config now))) d.name :=
    fun reports hcovers d hd links m₁ => shown_reported reports now (Or.inl (hcovers d hd))
  unfold State.reload at hstep
  split at hstep
  · next reports =>
    split at hstep
    · next hcovers =>
      obtain rfl := Option.some.inj hstep
      refine ⟨h.keyed.reported reports, fun hintact => ?_⟩
      have hwanted := wanted_reload now (h.wanted hintact)
        fun d hd m₁ => hnamed reports hcovers d hd s.links m₁
      simpa only [State.view, hout, List.append_nil, settle_append] using hwanted
    · cases hstep
  · obtain rfl := Option.some.inj hstep
    refine ⟨h.keyed, fun hintact => ?_⟩
    -- the links already known are reported again
    have hshown : ∀ d ∈ config.devices, ∀ m₁ : Key → Option Value, Shown config s.links
        (settle Packet.sets m₁ ((known .rust config s.links).map (linkPacket .rust config now)))
        d.name :=
      fun d hd m₁ => shown_known h.keyed now hd
    have hwanted := wanted_reload now (h.wanted hintact) hshown
    simpa only [State.view, hout, List.append_nil, settle_append] using hwanted
  · next reports =>
    split at hstep
    · next hcovers =>
      obtain rfl := Option.some.inj hstep
      refine ⟨keyed_empty.reported reports, fun hintact => ?_⟩
      have hwanted := wanted_reload now (h.wanted hintact)
        fun d hd m₁ => hnamed reports hcovers d hd ∅ m₁
      simpa only [State.view, hout, List.append_nil, settle_append] using hwanted
    · cases hstep
  · cases hstep

theorem Wanted.units (h : Wanted config links m) {ps : List Packet}
    (hps : ∀ p ∈ ps, p.unrestored = true) : Wanted config links (settle Packet.sets m ps) := by
  refine h.congr fun k hk => ?_
  exact settle_of_silent fun p hp v => sets_unrestored (hps p hp) hk v

theorem units_unrestored (emissions : List Measure.Emission) :
    ∀ p ∈ emissions.filterMap unitsPacket, p.unrestored = true := by
  intro p hp
  obtain ⟨e, -, he⟩ := List.mem_filterMap.mp hp
  cases e with
  | units topic => exact Option.some.inj he ▸ rfl
  | series => cases he

theorem Inv.measure (h : Inv s) (hout : s.out = []) {i : Nat} (hstep : s.measure i = some s') :
    Inv s' := by
  obtain ⟨topic, -, rfl⟩ := Option.map_eq_some_iff.mp hstep
  refine ⟨h.keyed, fun hintact => ?_⟩
  have hout' : ∀ p ∈ (settleUnits topic s.published).2.2.filterMap unitsPacket ++
      [.measurement (settleUnits topic s.published).1.metaTopic
        (settleUnits topic s.published).1.units], p.unrestored = true := by
    intro p hp
    rcases List.mem_append.mp hp with hp | hp
    · exact units_unrestored _ p hp
    · rw [List.mem_singleton.mp hp]
      rfl
  have hwanted := (h.wanted hintact).units hout'
  simpa only [State.view, hout, List.append_nil, settle_append] using hwanted

/-- So does every event. -/
theorem Inv.act (h : Inv s) {a : Act} (hstep : s.act rt a = some s') : Inv s' := by
  cases a with
  | publish taken => exact h.publish hstep
  | deliver => exact h.deliver hstep
  | lose k j kept =>
    simp only [State.act, State.lose] at hstep
    split at hstep
    · obtain rfl := Option.some.inj hstep
      exact ⟨h.keyed, fun hintact => by cases hintact⟩
    · cases hstep
  -- until the session is restored nothing is claimed of what is retained
  | connack will forgotten =>
    simp only [State.act, State.connack] at hstep
    split at hstep
    · cases hstep
    · obtain rfl := Option.some.inj hstep
      exact ⟨h.keyed, fun hintact => by cases hintact⟩
  | restore now =>
    simp only [State.act] at hstep
    split at hstep
    · next hready =>
      obtain rfl := Option.some.inj hstep
      refine ⟨h.keyed, fun _ => ?_⟩
      simp only [State.view, settle_append]
      exact wanted_restore h.keyed now
    · cases hstep
  | link r now =>
    simp only [State.act] at hstep
    split at hstep
    · next hout =>
      obtain rfl := Option.some.inj hstep
      refine ⟨h.keyed.record r, fun hintact => ?_⟩
      have hwanted := (h.wanted hintact).reported rt [r] now
      simpa only [State.view, hout, List.append_nil, settle_append, State.reported,
        List.map_cons, List.map_nil, List.foldl_cons, List.foldl_nil] using hwanted
    · cases hstep
  | reload config reports now =>
    simp only [State.act] at hstep
    split at hstep
    · next hout => exact h.reload hout hstep
    · cases hstep
  -- the links known so far are dropped, and every device is reported again
  | refused reports now =>
    simp only [State.act] at hstep
    split at hstep
    · next hready =>
      obtain ⟨hout, -, hcovers⟩ := hready
      obtain rfl := Option.some.inj hstep
      refine ⟨keyed_empty.reported reports, fun hintact => ?_⟩
      have hwanted := h.wanted hintact
      have hrest := hwanted.reported .c reports now
      refine ⟨?_, ?_, ?_, fun d hd => ?_⟩
      · simpa only [State.view, hout, List.append_nil, settle_append] using
          hrest.subscribed
      · simpa only [State.view, hout, List.append_nil, settle_append] using hrest.health
      · simpa only [State.view, hout, List.append_nil, settle_append] using
          hrest.capabilities
      · simp only [State.view, settle_append]
        exact shown_reported reports now (Or.inl (hcovers d hd))
    · cases hstep
  | rebuild =>
    simp only [State.act] at hstep
    split at hstep
    · next hout =>
      obtain rfl := Option.some.inj hstep
      exact ⟨h.keyed, h.wanted⟩
    · cases hstep
  | measure i =>
    simp only [State.act] at hstep
    split at hstep
    · next hout => exact h.measure hout hstep
    · cases hstep

theorem inv_start (rt : Runtime) (config : Config) (memory : Key → Option Value) :
    Inv (State.start rt config memory) :=
  ⟨keyed_empty, fun hintact => by cases hintact⟩

/-- The state that a run from the start ends in. -/
def run (rt : Runtime) (config : Config) (memory : Key → Option Value) (acts : List Act) : State :=
  Machine.final (State.step rt) (State.start rt config memory) acts

theorem step_of_act {P : State → Prop} {a : Act} (h : P s)
    (hact : ∀ s', s.act rt a = some s' → P s') : P (State.step rt s a).1 := by
  unfold State.step
  cases hstep : s.act rt a with
  | none => exact h
  | some s' => exact hact s' hstep

theorem inv_run (rt : Runtime) (config : Config) (memory : Key → Option Value) (acts : List Act) :
    Inv (run rt config memory acts) :=
  Machine.final_induction (fun _ _ h => step_of_act h fun _ hact => h.act hact) acts
    (inv_start rt config memory)

theorem Inv.restored (h : Inv s) (hintact : s.intact = true) : Restored s := by
  have hwanted := h.wanted hintact
  have hview : ∀ k, Silent Packet.sets k (s.queue ++ s.out) → s.view k = s.memory k :=
    fun k hk => settle_of_silent hk
  refine ⟨fun filter hk => ?_, fun hk => ?_, fun hk => ?_, fun d hd hk r hr => ?_⟩
  · rw [← hview _ hk, hwanted.subscribed]
  · rw [← hview _ hk, hwanted.health]
  · rw [← hview _ hk, hwanted.capabilities]
  · rw [← hview _ hk]
    exact hwanted.links d hd r hr

end TedgeDot.BrokerSession
