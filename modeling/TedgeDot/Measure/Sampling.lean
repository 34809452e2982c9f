import TedgeDot.Measure.Effects

/-!
# Sampling

What `sample` does: it leaves the open messages alone (`Sampled`), and the series it puts out are
those of the points sampled, each once and in the order of the points (`sample_entries`).
`exec_runSampler` is what the results on runs need to know of it.
-/

namespace TedgeDot.Measure

open Machine

/-! ## The open messages -/

namespace Desk

theorem publish_quiet (desk : Desk) (key : Key) (time : OffsetDateTime) (entries : List Entry)
    (ends : Bool) : Quiet desk.dev (desk.publish key time entries ends).1.dev := by
  obtain ⟨h, -⟩ := publish_spec desk key time entries ends
  refine ⟨h.toFixed, ?_, h.openMsgs, h.lastLayerMs⟩
  funext k
  simpa using h.depth k

/-- Sampling leaves the open messages alone, and puts out samples of `every` only. -/
structure Sampled (every : Nat) (dev dev' : DeviceTable) (out : List Emission) : Prop
    extends Quiet dev dev' where
  key : ∀ p ∈ parts out, ∃ t, p.key = (t, .sample every)
  entries_ne : ∀ p ∈ parts out, p.entries ≠ []

namespace Sampled

variable {every : Nat} {dev dev' dev'' : DeviceTable} {out out' : List Emission}

theorem quiet (h : Quiet dev dev') : Sampled every dev dev' [] := ⟨h, by simp, by simp⟩

theorem trans (h : Sampled every dev dev' out) (h' : Sampled every dev' dev'' out') :
    Sampled every dev dev'' (out ++ out') := by
  refine ⟨h.toQuiet.trans h'.toQuiet, fun p hp => ?_, fun p hp => ?_⟩
  · rw [parts_append, List.mem_append] at hp
    exact hp.elim (h.key p) (h'.key p)
  · rw [parts_append, List.mem_append] at hp
    exact hp.elim (h.entries_ne p) (h'.entries_ne p)

theorem of_quiet (hq : Quiet dev dev') (h : Sampled every dev' dev'' out) :
    Sampled every dev dev'' out :=
  ⟨hq.trans h.toQuiet, h.key, h.entries_ne⟩

theorem publish (desk : Desk) (t : Nat) (time : OffsetDateTime) {entries : List Entry}
    (hne : entries ≠ []) (ends : Bool) :
    Sampled every desk.dev (desk.publish (t, .sample every) time entries ends).1.dev
      (desk.publish (t, .sample every) time entries ends).2 := by
  refine ⟨publish_quiet .., fun p hp => ?_, fun p hp => ?_⟩
  · rw [(publish_spec ..).2, List.mem_singleton] at hp
    exact ⟨t, by rw [hp]⟩
  · rw [(publish_spec ..).2, List.mem_singleton] at hp
    rwa [hp]

end Sampled

variable [Ryu]

omit [Ryu] in
theorem sampleRest_sampled (every : Nat) (wall : OffsetDateTime) (bodies : Nat → List Entry)
    (desk : Desk) (t : Nat) :
    Sampled every desk.dev (sampleRest every wall bodies desk t).1.dev
      (sampleRest every wall bodies desk t).2 := by
  unfold sampleRest
  split
  · exact Sampled.quiet (Quiet.refl _)
  · rename_i hne
    exact Sampled.publish _ _ _ (fun h => hne (by rw [h]; rfl)) _

theorem ne_nil_of_overflows {groupLen : Nat} {entries : List Entry} {e : Entry}
    (h : overflows groupLen entries e = true) : entries ≠ [] := by
  rintro rfl
  cases h

theorem sampleValue_sampled (every : Nat) (wall : OffsetDateTime) (t : Nat) (s : Sampling)
    (e : Entry) :
    Sampled every s.desk.dev (sampleValue every wall t s e).1.desk.dev
      (sampleValue every wall t s e).2 := by
  unfold sampleValue
  dsimp only
  split
  · rename_i hfull
    exact Sampled.publish _ _ _ (ne_nil_of_overflows hfull) _
  · exact Sampled.quiet (Quiet.refl _)

theorem exec_sampleValue_sampled (every : Nat) (wall : OffsetDateTime) (t : Nat) (s : Sampling)
    (es : List Entry) :
    Sampled every s.desk.dev (exec (sampleValue every wall t) s es).1.desk.dev
      (exec (sampleValue every wall t) s es).2 :=
  exec_outputs (P := fun (s' : Sampling) out => Sampled every s.desk.dev s'.desk.dev out)
    (fun s' e _ h => h.trans (sampleValue_sampled every wall t s' e)) es
    (Sampled.quiet (Quiet.refl _))

/-- The sample so far, with the slot of the point `k` as a sample at `now` leaves it. -/
def Sampling.took (s : Sampling) (k now : Nat) : Sampling :=
  { s with desk := { s.desk with dev := { s.desk.dev with
      slots := Function.update s.desk.dev.slots k
        (sampledSeries (s.desk.dev.plan k) (s.desk.dev.slots k) s.desk.dev.stale now).1 } } }

/-- The values the point `k` gives to a sample at `now`. -/
def sampleEntries (dev : DeviceTable) (k now : Nat) : List Entry :=
  (sampledSeries (dev.plan k) (dev.slots k) dev.stale now).2.map fun (key, value) =>
    { point := k, key := key, value := value }

theorem samplePoint_of_eq {every now : Nat} {wall : OffsetDateTime} {s : Sampling} {k : Nat}
    (h : (s.desk.dev.plan k).groupBy = .sample every) :
    samplePoint every now wall s k =
      exec (sampleValue every wall (s.desk.dev.plan k).topic) (s.took k now)
        (sampleEntries s.desk.dev k now) := by
  simp only [samplePoint, h, ne_eq, not_true_eq_false, ↓reduceIte]
  rfl

theorem samplePoint_of_ne {every now : Nat} {wall : OffsetDateTime} {s : Sampling} {k : Nat}
    (h : (s.desk.dev.plan k).groupBy ≠ .sample every) :
    samplePoint every now wall s k = (s, []) := by
  simp only [samplePoint, h, ne_eq, not_false_eq_true, ↓reduceIte]

omit [Ryu] in
theorem took_quiet (s : Sampling) (k now : Nat) : Quiet s.desk.dev (s.took k now).desk.dev :=
  ⟨⟨rfl, rfl, SameTopics.refl _⟩, rfl, rfl, rfl⟩

theorem samplePoint_sampled (every now : Nat) (wall : OffsetDateTime) (s : Sampling) (k : Nat) :
    Sampled every s.desk.dev (samplePoint every now wall s k).1.desk.dev
      (samplePoint every now wall s k).2 := by
  by_cases h : (s.desk.dev.plan k).groupBy = .sample every
  · rw [samplePoint_of_eq h]
    exact (exec_sampleValue_sampled every wall _ _ _).of_quiet (took_quiet s k now)
  · rw [samplePoint_of_ne h]
    exact Sampled.quiet (Quiet.refl _)

theorem sample_sampled (every now : Nat) (wall : OffsetDateTime) (desk : Desk) :
    Sampled every desk.dev (desk.sample every now wall).1.dev (desk.sample every now wall).2 := by
  unfold sample
  dsimp only
  refine Sampled.trans (?_ : Sampled every _ (exec (samplePoint every now wall)
    { desk := desk, bodies := fun _ => [] } (List.range desk.dev.points.length)).1.desk.dev _) ?_
  · exact exec_outputs (P := fun (s : Sampling) out => Sampled every desk.dev s.desk.dev out)
      (fun s k out h => h.trans (samplePoint_sampled every now wall s k)) _
      (Sampled.quiet (Quiet.refl _))
  · exact exec_outputs (P := fun (desk' : Desk) out => Sampled every _ desk'.dev out)
      (fun desk' t out h => h.trans (sampleRest_sampled every wall _ desk' t)) _
      (Sampled.quiet (Quiet.refl _))

end Desk

/-! ## Slots -/

/-- A slot that holds nothing, and held nothing good this period. -/
structure Slot.Idle (slot : Slot) : Prop where
  value : slot.value = none
  goodNs : slot.goodNs = 0.0

namespace Slot.Idle

variable {slot : Slot} (now : Nat)

theorem new : (Slot.new now).Idle := ⟨rfl, rfl⟩

theorem close (h : slot.Idle) : (slot.close now).Idle := by
  unfold Slot.close
  rw [h.value]
  exact ⟨rfl, h.goodNs⟩

theorem hold_none (h : slot.Idle) : (slot.hold none now).Idle := ⟨rfl, (h.close now).goodNs⟩

theorem restart (h : slot.Idle) : (slot.restart now).Idle := ⟨h.value, rfl⟩

end Slot.Idle

/-- The names a point is sampled under. -/
def PointPlan.names (plan : PointPlan) : List String :=
  if plan.aggregates.isEmpty then [plan.seriesKey] else plan.aggregates.map Prod.snd

/-- A sampled point has no series but its own, each at most once. -/
theorem sampledSeries_names (plan : PointPlan) (slot : Slot) (stale : Bool) (now : Nat) :
    ((Desk.sampledSeries plan slot stale now).2.map Prod.fst).Sublist plan.names := by
  unfold Desk.sampledSeries PointPlan.names
  split
  · split
    · split <;> simp
    · simp
  · dsimp only
    split
    · induction plan.aggregates with
      | nil => simp
      | cons a aggregates ih =>
        obtain ⟨aggregate, key⟩ := a
        simp only [List.filterMap_cons]
        split
        · exact ih.trans (List.sublist_cons_self _ _)
        · rename_i value hvalue
          obtain ⟨v, -, rfl⟩ := Option.map_eq_some_iff.mp hvalue
          exact ih.cons_cons key
    · simp

theorem sampledSeries_idle {slot : Slot} (h : slot.Idle) (plan : PointPlan) (stale : Bool)
    (now : Nat) :
    (Desk.sampledSeries plan slot stale now).1.Idle ∧
      (Desk.sampledSeries plan slot stale now).2 = [] := by
  unfold Desk.sampledSeries
  split
  · rw [h.value]
    exact ⟨h, rfl⟩
  · have hnot : ¬ (0.0 : Float) < 0.0 := by decide
    dsimp only
    rw [(h.close now).goodNs, if_neg hnot]
    exact ⟨(h.close now).restart now, rfl⟩

/-! ## The series of a sample -/

/-- The series of the messages of a key. -/
def keyEntries (key : Key) (ps : List Part) : List Entry :=
  (ps.filter fun p => p.key = key).flatMap Part.entries

@[simp] theorem keyEntries_nil (key : Key) : keyEntries key [] = [] := rfl

@[simp] theorem keyEntries_append (key : Key) (ps ps' : List Part) :
    keyEntries key (ps ++ ps') = keyEntries key ps ++ keyEntries key ps' := by
  simp [keyEntries]

/-- The names a point may have in the messages of a key, when it is one of `q`. -/
def DeviceTable.names (dev : DeviceTable) (q : Nat → Prop) [DecidablePred q] (key : Key) (k : Nat) :
    List (Nat × String) :=
  if ((dev.plan k).topic, (dev.plan k).groupBy) = key ∧ q k then
    (dev.plan k).names.map fun name => (k, name)
  else []

theorem Fixed.names {dev dev' : DeviceTable} (h : Fixed dev dev') (q : Nat → Prop)
    [DecidablePred q] (key : Key) (k : Nat) : dev'.names q key k = dev.names q key k := by
  simp only [DeviceTable.names, h.plan]

/-- Only the points of `q` may hold anything. -/
def DeviceTable.IdleOff (dev : DeviceTable) (q : Nat → Prop) : Prop :=
  ∀ k, ¬ q k → (dev.slots k).Idle

/-- The series that the point `k` gives to a sample of `every` on topic `t`. -/
def DeviceTable.sampled (dev : DeviceTable) (every now t k : Nat) : List Entry :=
  if ((dev.plan k).topic, (dev.plan k).groupBy) = (t, .sample every) then
    Desk.sampleEntries dev k now
  else []

/-- The slot that a sample of `every` leaves of the point `k`. -/
def DeviceTable.slotAfter (dev : DeviceTable) (every now k : Nat) : Slot :=
  if (dev.plan k).groupBy = .sample every then
    (Desk.sampledSeries (dev.plan k) (dev.slots k) dev.stale now).1
  else dev.slots k

/-- The same samplers, and the device as stale as before. -/
structure SameClock (dev dev' : DeviceTable) : Prop where
  samplers : dev'.samplers = dev.samplers
  stale : dev'.stale = dev.stale

namespace SameClock

variable {dev dev' dev'' : DeviceTable}

theorem refl (dev : DeviceTable) : SameClock dev dev := ⟨rfl, rfl⟩

theorem trans (h : SameClock dev dev') (h' : SameClock dev' dev'') : SameClock dev dev'' :=
  ⟨h'.samplers.trans h.samplers, h'.stale.trans h.stale⟩

end SameClock

namespace Desk

theorem keyEntries_publish (desk : Desk) (key key' : Key) (time : OffsetDateTime)
    (entries : List Entry) (ends : Bool) :
    keyEntries key' (parts (desk.publish key time entries ends).2) =
      if key = key' then entries else [] := by
  rw [(publish_spec ..).2, keyEntries]
  split <;> simp_all

theorem publish_sameClock (desk : Desk) (key : Key) (time : OffsetDateTime) (entries : List Entry)
    (ends : Bool) : SameClock desk.dev (desk.publish key time entries ends).1.dev := ⟨rfl, rfl⟩

theorem publish_slots (desk : Desk) (key : Key) (time : OffsetDateTime) (entries : List Entry)
    (ends : Bool) : (desk.publish key time entries ends).1.dev.slots = desk.dev.slots :=
  (publish_spec desk key time entries ends).1.slots

variable [Ryu]

theorem sampleValue_entries (every : Nat) (wall : OffsetDateTime) (t : Nat) (s : Sampling)
    (e : Entry) (t' : Nat) :
    keyEntries (t', .sample every) (parts (sampleValue every wall t s e).2) ++
        (sampleValue every wall t s e).1.bodies t' =
      s.bodies t' ++ if t = t' then [e] else [] := by
  unfold sampleValue
  dsimp only
  by_cases ht : t = t'
  · subst ht
    split
    · simp [keyEntries_publish]
    · simp
  · have hkey : ((t, .sample every) : Key) ≠ (t', .sample every) := fun h => ht (by simpa using h)
    split
    · simp [keyEntries_publish, ht, Ne.symm ht]
    · simp [Ne.symm ht]

theorem exec_sampleValue_entries (every : Nat) (wall : OffsetDateTime) (t : Nat) (s : Sampling)
    (es : List Entry) (t' : Nat) :
    keyEntries (t', .sample every) (parts (exec (sampleValue every wall t) s es).2) ++
        (exec (sampleValue every wall t) s es).1.bodies t' =
      s.bodies t' ++ if t = t' then es else [] := by
  induction es generalizing s with
  | nil => simp
  | cons e es ih =>
    rw [exec_cons, parts_append, keyEntries_append, List.append_assoc, ih, ← List.append_assoc,
      sampleValue_entries]
    split <;> simp

theorem exec_sampleValue_slots (every : Nat) (wall : OffsetDateTime) (t : Nat) (s : Sampling)
    (es : List Entry) :
    (exec (sampleValue every wall t) s es).1.desk.dev.slots = s.desk.dev.slots ∧
      SameClock s.desk.dev (exec (sampleValue every wall t) s es).1.desk.dev := by
  refine final_induction
    (P := fun s' : Sampling => s'.desk.dev.slots = s.desk.dev.slots ∧
      SameClock s.desk.dev s'.desk.dev) (fun s' e h => ?_) es ⟨rfl, SameClock.refl _⟩
  unfold sampleValue
  dsimp only
  split
  · exact ⟨(publish_slots ..).trans h.1, h.2.trans (publish_sameClock ..)⟩
  · exact h

theorem samplePoint_entries (every now : Nat) (wall : OffsetDateTime) (s : Sampling) (k : Nat) :
    (∀ t, keyEntries (t, .sample every) (parts (samplePoint every now wall s k).2) ++
        (samplePoint every now wall s k).1.bodies t =
      s.bodies t ++ s.desk.dev.sampled every now t k) ∧
      (samplePoint every now wall s k).1.desk.dev.slots =
        Function.update s.desk.dev.slots k (s.desk.dev.slotAfter every now k) ∧
      SameClock s.desk.dev (samplePoint every now wall s k).1.desk.dev := by
  by_cases h : (s.desk.dev.plan k).groupBy = .sample every
  · rw [samplePoint_of_eq h]
    obtain ⟨hslots, hclock⟩ := exec_sampleValue_slots every wall (s.desk.dev.plan k).topic
      (s.took k now) (sampleEntries s.desk.dev k now)
    refine ⟨fun t => ?_, ?_, ⟨hclock.samplers, hclock.stale⟩⟩
    · rw [exec_sampleValue_entries]
      simp only [DeviceTable.sampled, Prod.mk.injEq, h, and_true]
      rfl
    · rw [hslots, DeviceTable.slotAfter, if_pos h]
      rfl
  · rw [samplePoint_of_ne h]
    refine ⟨fun t => ?_, ?_, SameClock.refl _⟩
    · have hkey : ((s.desk.dev.plan k).topic, (s.desk.dev.plan k).groupBy) ≠ (t, .sample every) :=
        fun heq => h (congrArg Prod.snd heq)
      simp [DeviceTable.sampled, hkey]
    · rw [DeviceTable.slotAfter, if_neg h, Function.update_eq_self]

omit [Ryu] in
theorem sampleRest_entries (every : Nat) (wall : OffsetDateTime) (bodies : Nat → List Entry)
    (desk : Desk) (t t' : Nat) :
    keyEntries (t, .sample every) (parts (sampleRest every wall bodies desk t').2) =
      if t' = t then bodies t else [] := by
  unfold sampleRest
  by_cases ht : t' = t
  · subst ht
    split
    · rename_i hlen
      simp [List.length_eq_zero_iff.mp hlen]
    · rw [keyEntries_publish, if_pos rfl, if_pos rfl]
  · have hkey : ((t', .sample every) : Key) ≠ (t, .sample every) := fun h => ht (by simpa using h)
    rw [if_neg ht]
    split
    · rfl
    · rw [keyEntries_publish, if_neg hkey]

omit [Ryu] in
theorem exec_sampleRest_entries (every : Nat) (wall : OffsetDateTime) (bodies : Nat → List Entry)
    (desk : Desk) (n t : Nat) :
    keyEntries (t, .sample every)
        (parts (exec (sampleRest every wall bodies) desk (List.range n)).2) =
      if t < n then bodies t else [] := by
  induction n with
  | zero => simp
  | succ n ih =>
    rw [List.range_succ, exec_append, parts_append, keyEntries_append, ih]
    simp only [exec_cons, exec_nil, List.append_nil, sampleRest_entries]
    -- the topics are different, so `t` comes once
    rcases Nat.lt_trichotomy t n with ht | ht | ht
    · rw [if_pos ht, if_neg (by omega), if_pos (by omega), List.append_nil]
    · rw [if_neg (by omega), if_pos (by omega), if_pos (by omega), List.nil_append]
    · rw [if_neg (by omega), if_neg (by omega), if_neg (by omega), List.nil_append]

omit [Ryu] in
theorem exec_sampleRest_slots (every : Nat) (wall : OffsetDateTime) (bodies : Nat → List Entry)
    (desk : Desk) (ts : List Nat) :
    (exec (sampleRest every wall bodies) desk ts).1.dev.slots = desk.dev.slots ∧
      SameClock desk.dev (exec (sampleRest every wall bodies) desk ts).1.dev := by
  refine final_induction
    (P := fun desk' : Desk => desk'.dev.slots = desk.dev.slots ∧ SameClock desk.dev desk'.dev)
    (fun desk' t h => ?_) ts ⟨rfl, SameClock.refl _⟩
  unfold sampleRest
  split
  · exact h
  · exact ⟨(publish_slots ..).trans h.1, h.2.trans (publish_sameClock ..)⟩

/-- The loop over the points, up to one of them. -/
theorem exec_samplePoint (every now : Nat) (wall : OffsetDateTime) (desk : Desk) (n : Nat) :
    let s := exec (samplePoint every now wall) { desk := desk, bodies := fun _ => [] } (List.range n)
    (∀ t, keyEntries (t, .sample every) (parts s.2) ++ s.1.bodies t =
        (List.range n).flatMap (desk.dev.sampled every now t)) ∧
      (∀ k, s.1.desk.dev.slots k =
        if k < n then desk.dev.slotAfter every now k else desk.dev.slots k) ∧
      Fixed desk.dev s.1.desk.dev ∧ SameClock desk.dev s.1.desk.dev := by
  -- a point's slot is closed in its own round
  induction n with
  | zero => exact ⟨fun t => rfl, fun k => rfl, Fixed.refl _, SameClock.refl _⟩
  | succ n ih =>
    obtain ⟨hentries, hslots, hfixed, hclock⟩ := ih
    rw [List.range_succ, exec_append]
    simp only [exec_cons, exec_nil, List.append_nil]
    generalize exec (samplePoint every now wall) { desk := desk, bodies := fun _ => [] }
      (List.range n) = s at hentries hslots hfixed hclock
    obtain ⟨hentries', hslots', hclock'⟩ := samplePoint_entries every now wall s.1 n
    -- the point `n` is as it was before the sample
    have hslot : s.1.desk.dev.slots n = desk.dev.slots n := by simp [hslots]
    have hsampled : ∀ t, s.1.desk.dev.sampled every now t n = desk.dev.sampled every now t n := by
      intro t
      simp only [DeviceTable.sampled, sampleEntries, hfixed.plan, hslot, hclock.stale]
    have hafter : s.1.desk.dev.slotAfter every now n = desk.dev.slotAfter every now n := by
      simp only [DeviceTable.slotAfter, hfixed.plan, hslot, hclock.stale]
    refine ⟨fun t => ?_, fun k => ?_,
      hfixed.trans (samplePoint_sampled every now wall s.1 n).toQuiet.toFixed, hclock.trans hclock'⟩
    · rw [parts_append, keyEntries_append, List.append_assoc, hentries', ← List.append_assoc,
        hentries, hsampled, List.flatMap_append, List.flatMap_singleton]
    · rw [hslots', hafter]
      by_cases hk : k = n
      · subst hk
        rw [Function.update_self, if_pos (Nat.lt_succ_self k)]
      · rw [Function.update_of_ne hk, hslots]
        simp only [show k < n + 1 ↔ k < n by omega]

/-- **The series of a sample**: in the messages of a topic, those of the points sampled there,
each once and in order. -/
theorem sample_entries (every now : Nat) (wall : OffsetDateTime) (desk : Desk) :
    (∀ t, ∃ rest, keyEntries (t, .sample every) (parts (desk.sample every now wall).2) ++ rest =
        (List.range desk.dev.points.length).flatMap (desk.dev.sampled every now t) ∧
        (t < desk.dev.topics.length → rest = [])) ∧
      (∀ k, (desk.sample every now wall).1.dev.slots k =
        if k < desk.dev.points.length then desk.dev.slotAfter every now k else desk.dev.slots k) ∧
      SameClock desk.dev (desk.sample every now wall).1.dev := by
  obtain ⟨hentries, hslots, hfixed, hclock⟩ :=
    exec_samplePoint every now wall desk desk.dev.points.length
  unfold sample
  dsimp only
  generalize exec (samplePoint every now wall) { desk := desk, bodies := fun _ => [] }
    (List.range desk.dev.points.length) = s at hentries hslots hfixed hclock ⊢
  obtain ⟨hslots', hclock'⟩ := exec_sampleRest_slots every wall s.1.bodies s.1.desk
    (List.range desk.dev.topics.length)
  refine ⟨fun t => ?_, fun k => ?_, hclock.trans hclock'⟩
  · rw [parts_append, keyEntries_append, exec_sampleRest_entries, ← hentries]
    by_cases ht : t < desk.dev.topics.length
    · exact ⟨[], by simp [ht], fun _ => rfl⟩
    · exact ⟨s.1.bodies t, by simp [ht], fun h => absurd h ht⟩
  · rw [hslots', hslots]

omit [Ryu] in
theorem sampled_names (dev : DeviceTable) (every now t k : Nat) (q : Nat → Prop) [DecidablePred q]
    (hidle : dev.IdleOff q) :
    ((dev.sampled every now t k).map fun e => (e.point, e.key)).Sublist
      (dev.names q (t, .sample every) k) := by
  unfold DeviceTable.sampled
  split
  · rename_i hkey
    by_cases hk : q k
    · simp only [sampleEntries, DeviceTable.names, hkey, hk, and_self, ↓reduceIte, List.map_map]
      have hnames := (sampledSeries_names (dev.plan k) (dev.slots k) dev.stale now).map
        fun name => (k, name)
      simpa [Function.comp_def] using hnames
    · rw [sampleEntries, (sampledSeries_idle (hidle k hk) _ _ _).2]
      exact List.nil_sublist _
  · exact List.nil_sublist _

/-- **The names of a sample**: in the messages of a topic, those of the points of `q` that are
sampled there, each once and in order. -/
theorem sample_names (every now : Nat) (wall : OffsetDateTime) (desk : Desk) {q : Nat → Prop}
    [DecidablePred q] (hidle : desk.dev.IdleOff q) :
    (desk.sample every now wall).1.dev.IdleOff q ∧ ∀ t,
      ((keyEntries (t, .sample every) (parts (desk.sample every now wall).2)).map
        fun e => (e.point, e.key)).Sublist
        ((List.range desk.dev.points.length).flatMap (desk.dev.names q (t, .sample every))) := by
  obtain ⟨hentries, hslots, -⟩ := sample_entries every now wall desk
  refine ⟨fun k hk => ?_, fun t => ?_⟩
  · rw [hslots]
    unfold DeviceTable.slotAfter
    split
    · split
      · exact (sampledSeries_idle (hidle k hk) _ _ _).1
      · exact hidle k hk
    · exact hidle k hk
  · obtain ⟨rest, hrest, -⟩ := hentries t
    have hall : ∀ ks : List Nat,
        ((ks.flatMap (desk.dev.sampled every now t)).map fun e => (e.point, e.key)).Sublist
          (ks.flatMap (desk.dev.names q (t, .sample every))) := by
      intro ks
      induction ks with
      | nil => exact List.Sublist.refl _
      | cons k ks ih =>
        rw [List.flatMap_cons, List.flatMap_cons, List.map_append]
        exact (sampled_names desk.dev every now t k q hidle).append ih
    refine List.Sublist.trans ?_ (hall _)
    rw [← hrest, List.map_append]
    exact List.sublist_append_left _ _

/-! ## The samplers -/

structure SampleParts (dev : DeviceTable) (new : List Part) : Prop where
  key : ∀ p ∈ new, ∃ t every, p.key = (t, .sample every)
  entries_ne : ∀ p ∈ new, p.entries ≠ []
  names : ∀ q : Nat → Prop, [DecidablePred q] → dev.IdleOff q → ∀ p ∈ new,
    (p.entries.map fun e => (e.point, e.key)).Sublist
      ((List.range dev.points.length).flatMap (dev.names q p.key))

omit [Ryu] in
theorem SampleParts.nil (dev : DeviceTable) : SampleParts dev [] :=
  ⟨by simp, by simp, by simp⟩

omit [Ryu] in
theorem entries_of_mem {ps : List Part} {p : Part} (hp : p ∈ ps) :
    p.entries.Sublist (keyEntries p.key ps) := by
  have hmem : p ∈ ps.filter fun p' => p'.key = p.key := List.mem_filter.mpr ⟨hp, by simp⟩
  rw [keyEntries, List.flatMap_def]
  exact List.sublist_flatten_of_mem (List.mem_map_of_mem hmem)

/-- What one sampler emits. -/
theorem runSampler_parts (now : Nat) (wall : OffsetDateTime) (desk : Desk) (i : Nat) :
    Quiet desk.dev (runSampler now wall desk i).1.dev ∧
      (∀ q, desk.dev.IdleOff q → (runSampler now wall desk i).1.dev.IdleOff q) ∧
      SampleParts desk.dev (parts (runSampler now wall desk i).2) := by
  unfold runSampler
  split
  · exact ⟨Quiet.refl _, fun _ h => h, SampleParts.nil _⟩
  · split
    · exact ⟨Quiet.refl _, fun _ h => h, SampleParts.nil _⟩
    · rename_i every next _ _
      have h := sample_sampled every now wall desk
      refine ⟨⟨⟨h.points, h.index, h.topics⟩, h.depth, h.openMsgs, h.lastLayerMs⟩, ?_, ?_, ?_, ?_⟩
      · intro q hidle
        classical exact (sample_names every now wall desk hidle).1
      · intro p hp
        obtain ⟨t, ht⟩ := h.key p hp
        exact ⟨t, every, ht⟩
      · exact h.entries_ne
      · intro q _ hidle p hp
        obtain ⟨t, ht⟩ := h.key p hp
        have hnames := (entries_of_mem hp).map fun e => (e.point, e.key)
        rw [ht] at hnames ⊢
        exact hnames.trans ((sample_names every now wall desk hidle).2 t)

/-- What all samplers emit in one round. -/
theorem exec_runSampler (now : Nat) (wall : OffsetDateTime) (desk : Desk) (is : List Nat) :
    Quiet desk.dev (exec (runSampler now wall) desk is).1.dev ∧
      (∀ q, desk.dev.IdleOff q → (exec (runSampler now wall) desk is).1.dev.IdleOff q) ∧
      SampleParts desk.dev (parts (exec (runSampler now wall) desk is).2) := by
  refine exec_outputs
    (P := fun (desk' : Desk) out => Quiet desk.dev desk'.dev ∧
      (∀ q, desk.dev.IdleOff q → desk'.dev.IdleOff q) ∧ SampleParts desk.dev (parts out))
    (fun desk' i out hP => ?_) is ⟨Quiet.refl _, fun _ h => h, SampleParts.nil _⟩
  obtain ⟨hquiet, hidle, hparts⟩ := hP
  obtain ⟨hquiet', hidle', hparts'⟩ := runSampler_parts now wall desk' i
  refine ⟨hquiet.trans hquiet', fun q h => hidle' q (hidle q h), ?_, ?_, ?_⟩
  · intro p hp
    rw [parts_append, List.mem_append] at hp
    exact hp.elim (hparts.key p) (hparts'.key p)
  · intro p hp
    rw [parts_append, List.mem_append] at hp
    exact hp.elim (hparts.entries_ne p) (hparts'.entries_ne p)
  · intro q _ h p hp
    rw [parts_append, List.mem_append] at hp
    refine hp.elim (hparts.names q h p) fun hp => ?_
    have hnames := hparts'.names q (hidle q h) p hp
    rwa [hquiet.points, funext fun k => hquiet.toFixed.names q p.key k] at hnames

namespace SampleParts

variable {dev : DeviceTable} {new : List Part}

omit [Ryu] in
theorem keyOf (h : SampleParts dev new) {p : Part} (hp : p ∈ new) {e : Entry} (he : e ∈ p.entries) :
    ((dev.plan e.point).topic, (dev.plan e.point).groupBy) = p.key := by
  have hmem : (e.point, e.key) ∈ p.entries.map fun e => (e.point, e.key) := List.mem_map_of_mem he
  have hall := (h.names (fun _ => True) (by simp [DeviceTable.IdleOff]) p hp).subset hmem
  obtain ⟨k, -, hk⟩ := List.mem_flatMap.mp hall
  unfold DeviceTable.names at hk
  split at hk
  · rename_i hkey
    obtain ⟨name, -, heq⟩ := List.mem_map.mp hk
    simp only [Prod.mk.injEq] at heq
    rw [← heq.1]
    exact hkey.1
  · cases hk

omit [Ryu] in
theorem none (h : SampleParts dev new) (hk : ∀ k, (dev.plan k).groupBy.isSample = false) :
    new = [] := by
  refine List.eq_nil_iff_forall_not_mem.mpr fun p hp => ?_
  obtain ⟨e, he⟩ := List.exists_mem_of_ne_nil _ (h.entries_ne p hp)
  obtain ⟨t, every, hkey⟩ := h.key p hp
  have hsample := congrArg Prod.snd ((h.keyOf hp he).trans hkey)
  simp only at hsample
  have hnot := hk e.point
  rw [hsample] at hnot
  cases hnot

end SampleParts

end Desk

end TedgeDot.Measure
