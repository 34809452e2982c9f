import TedgeDot.Measure.Distinct
import TedgeDot.Measure.Slots

/-!
# Deadlines

The runtime sleeps until `next_deadline` and then calls `due`. Before the deadline `due` has nothing
to do, and after `due` the next deadline lies ahead, so the loop neither misses work nor spins.

The windows: `due` closes every frame whose window has ended, and a frame that stays keeps its
window. The samplers: one that was due moves at least to the period after `now`, which is ahead
because the loader accepts no period of zero.
-/

namespace TedgeDot.Measure

open Machine Desk

/-! ## The next deadline -/

/-- When the window of an open frame ends. -/
def DeviceTable.windowEnd (dev : DeviceTable) (key : Key) : Option Nat :=
  match key.2, dev.openMsgs.lookup key with
  | .frame window, some (first :: _) => some (first.opened + window)
  | _, _ => none

/-- The times a device waits for: the ends of its windows, and its next samples. -/
def DeviceTable.deadlines (dev : DeviceTable) : List Nat :=
  dev.openMsgs.keys.filterMap dev.windowEnd ++ dev.samplers.map Prod.snd

/-- `next_deadline`: the earliest time `due` has something to do, if any. -/
def Batcher.nextDeadline (b : Batcher) : Option Nat :=
  (b.devices.flatMap DeviceTable.deadlines).min?

/-- Every deadline of the device lies ahead. -/
def DeviceTable.Waiting (dev : DeviceTable) (now : Nat) : Prop := ∀ t ∈ dev.deadlines, now < t

variable {now : Nat} {config : ConnectorConfig} {device : DeviceConfig}

theorem nextDeadline_ahead_iff {b : Batcher} :
    (∀ t ∈ b.nextDeadline, now < t) ↔ ∀ dev ∈ b.devices, dev.Waiting now := by
  have hall : (∀ dev ∈ b.devices, dev.Waiting now) ↔
      ∀ t ∈ b.devices.flatMap DeviceTable.deadlines, now + 1 ≤ t := by
    simp only [DeviceTable.Waiting, List.mem_flatMap, forall_exists_index, and_imp]
    exact ⟨fun h t dev hdev ht => h dev hdev t ht, fun h dev hdev t ht => h t dev hdev ht⟩
  rw [hall, Batcher.nextDeadline]
  cases hmin : (b.devices.flatMap DeviceTable.deadlines).min? with
  | none => simp [List.min?_eq_none_iff.mp hmin]
  | some first =>
    simp only [Option.mem_some_iff, forall_eq']
    exact List.le_min?_iff hmin

theorem endedAt_eq (dev : DeviceTable) (now : Nat) (key : Key) :
    (endedAt dev now key).isSome = true ↔ ∃ t, dev.windowEnd key = some t ∧ t ≤ now := by
  unfold endedAt DeviceTable.windowEnd
  split
  · split <;> simp_all
  · simp

theorem endedAt_key {dev : DeviceTable} {key : Key} {e : Nat × Key}
    (h : endedAt dev now key = some e) : e.2 = key := by
  unfold endedAt at h
  split at h
  · split at h
    · rw [← Option.some.inj h]
    · cases h
  · cases h

/-- The keys `due` closes, in its order. -/
def endedKeys (iter : IterOrder) (now : Nat) (dev : DeviceTable) : List Key :=
  (((iter.apply dev.openMsgs.keys).filterMap (endedAt dev now)).mergeSort
    fun a b => a.1 < b.1 || (a.1 == b.1 && a.2.1 ≤ b.2.1)).map Prod.snd

theorem mem_endedKeys {iter : IterOrder} {dev : DeviceTable} {key : Key} :
    key ∈ endedKeys iter now dev ↔
      key ∈ dev.openMsgs ∧ ∃ t, dev.windowEnd key = some t ∧ t ≤ now := by
  simp only [endedKeys, List.mem_map, List.mem_mergeSort, List.mem_filterMap,
    (iter.perm _).mem_iff, ← endedAt_eq, Option.isSome_iff_exists]
  constructor
  · rintro ⟨e, ⟨key', hopen, he⟩, rfl⟩
    rw [endedAt_key he]
    exact ⟨hopen, e, he⟩
  · rintro ⟨hopen, e, he⟩
    exact ⟨e, ⟨key, hopen, he⟩, endedAt_key he⟩

/-! ## Before the deadline -/

variable [Ryu]

theorem due_eq (iter : IterOrder) (now : Nat) (wall : OffsetDateTime) (desk : Desk) :
    desk.due iter now wall =
      let closed := desk.closeAll (endedKeys iter now desk.dev)
      let sampled := exec (runSampler now wall) closed.1 (List.range closed.1.dev.samplers.length)
      (sampled.1, closed.2 ++ sampled.2) := rfl

/-- With no deadline reached a round of deadlines does nothing. -/
theorem due_idle (iter : IterOrder) (wall : OffsetDateTime) {desk : Desk} (h : desk.dev.Waiting now) :
    desk.due iter now wall = (desk, []) := by
  have hended : endedKeys iter now desk.dev = [] := by
    rw [List.eq_nil_iff_forall_not_mem]
    intro key hkey
    obtain ⟨hopen, t, ht, hle⟩ := mem_endedKeys.mp hkey
    have hmem : t ∈ desk.dev.deadlines :=
      List.mem_append_left _ (List.mem_filterMap.mpr ⟨key, hopen, ht⟩)
    exact absurd hle (Nat.not_le.mpr (h t hmem))
  have hsamplers : exec (runSampler now wall) desk (List.range desk.dev.samplers.length) =
      (desk, []) := by
    apply exec_idle
    intro i _
    unfold runSampler
    split
    · rfl
    · rename_i every next hi
      have hmem : next ∈ desk.dev.deadlines :=
        List.mem_append_right _ (List.mem_map.mpr ⟨_, List.mem_of_getElem? hi, rfl⟩)
      rw [if_pos (h next hmem)]
  simp [due_eq, hended, closeAll, hsamplers]

/-! ## After `due` -/

omit [Ryu] in
theorem closeAll_lookup (desk : Desk) (keys : List Key) (key : Key) :
    (desk.closeAll keys).1.dev.openMsgs.lookup key =
      if key ∈ keys then none else desk.dev.openMsgs.lookup key := by
  induction keys generalizing desk with
  | nil => simp [closeAll]
  | cons first rest ih =>
    have hrest := ih (desk.close first).1
    simp only [closeAll, exec_cons] at hrest ⊢
    rw [hrest, (close_spec desk first).1.openMsgs]
    by_cases hkey : key = first
    · subst hkey
      simp
    · simp [AList.lookup_erase_ne hkey, hkey]

/-- A sampler after `due`: one that was due is on its period's grid, or restarts when it fell a
whole period behind. -/
def advanced (now : Nat) (s : Nat × Nat) : Nat × Nat :=
  if now < s.2 then s else (s.1, if s.2 + s.1 ≤ now then now + s.1 else s.2 + s.1)

omit [Ryu] in
theorem advanced_fst (now : Nat) (s : Nat × Nat) : (advanced now s).1 = s.1 := by
  unfold advanced
  split <;> rfl

omit [Ryu] in
theorem advanced_ahead {s : Nat × Nat} (h : 0 < s.1) : now < (advanced now s).2 := by
  unfold advanced
  split
  · assumption
  · dsimp only
    split <;> omega

theorem runSampler_samplers (now : Nat) (wall : OffsetDateTime) (desk : Desk) (i : Nat) :
    (runSampler now wall desk i).1.dev.samplers = desk.dev.samplers.modify i (advanced now) := by
  rw [List.modify_eq_set_getElem?]
  unfold runSampler
  split
  · rename_i hnone
    simp [hnone]
  · rename_i every next hi
    split
    · rename_i hlt
      have hself : desk.dev.samplers.set i (every, next) = desk.dev.samplers := by
        obtain ⟨_, heq⟩ := List.getElem?_eq_some_iff.mp hi
        rw [← heq, List.set_getElem_self]
      simp [hi, advanced, hlt, hself]
    · rename_i hge
      have hclock := (sample_entries every now wall desk).2.2
      simp [hi, advanced, hge, hclock.samplers]

theorem exec_runSampler_samplers (now : Nat) (wall : OffsetDateTime) (desk : Desk) (n j : Nat) :
    (exec (runSampler now wall) desk (List.range n)).1.dev.samplers[j]? =
      if j < n then desk.dev.samplers[j]?.map (advanced now) else desk.dev.samplers[j]? := by
  induction n with
  | zero => simp
  | succ n ih =>
    rw [List.range_succ, exec_append]
    simp only [exec_cons, exec_nil, runSampler_samplers, List.getElem?_modify, ih]
    by_cases hj : j = n
    · subst hj
      simp
    · have hlt : j < n + 1 ↔ j < n := by omega
      simp [hlt, Ne.symm hj]

def DeviceTable.Timed (dev : DeviceTable) : Prop := ∀ s ∈ dev.samplers, 0 < s.1

/-- After a round no deadline that is reached is left. -/
theorem due_waiting (iter : IterOrder) (now : Nat) (wall : OffsetDateTime) {desk : Desk}
    (h : desk.dev.Timed) : (desk.due iter now wall).1.dev.Waiting now := by
  have hlookup := closeAll_lookup desk (endedKeys iter now desk.dev)
  have hclock := closeAll_clock desk (endedKeys iter now desk.dev)
  rw [due_eq]
  dsimp only
  generalize desk.closeAll (endedKeys iter now desk.dev) = closed at hlookup hclock ⊢
  have hquiet := (exec_runSampler now wall closed.1 (List.range closed.1.dev.samplers.length)).1
  intro t ht
  rcases List.mem_append.mp ht with ht | ht
  · -- a window that is still open had not ended
    obtain ⟨key, hkey, ht⟩ := List.mem_filterMap.mp ht
    rw [DeviceTable.windowEnd, hquiet.openMsgs, hlookup] at ht
    by_cases hmem : key ∈ endedKeys iter now desk.dev
    · simp [hmem] at ht
    · rw [if_neg hmem] at ht
      rw [hquiet.openMsgs] at hkey
      have hopen := AList.lookup_isSome.mpr (AList.mem_keys.mpr hkey)
      rw [hlookup, if_neg hmem, AList.lookup_isSome] at hopen
      by_contra hle
      exact hmem (mem_endedKeys.mpr ⟨hopen, t, ht, Nat.not_lt.mp hle⟩)
  · -- every sampler has been advanced
    obtain ⟨s, hs, rfl⟩ := List.mem_map.mp ht
    obtain ⟨j, hj⟩ := List.getElem?_of_mem hs
    rw [exec_runSampler_samplers] at hj
    split at hj
    · obtain ⟨s, hbefore, rfl⟩ := Option.map_eq_some_iff.mp hj
      apply advanced_ahead
      apply h
      rw [← hclock.samplers]
      exact List.mem_of_getElem? hbefore
    · rename_i hout
      have hlt := (List.getElem?_eq_some_iff.mp hj).1
      exact absurd hlt hout

/-! ## Periods -/

/-- Every call keeps the deadlines ahead of their layers. -/
theorem call_timed (desk : Desk) (c : Call) (h : desk.dev.Timed) : (desk.call c).1.dev.Timed := by
  have hkept {dev : DeviceTable} (hclock : SameClock desk.dev dev) : dev.Timed := by
    unfold DeviceTable.Timed
    rw [hclock.samplers]
    exact h
  cases c with
  | value k ts v now =>
    cases hg : (desk.dev.plan k).groupBy with
    | sample every =>
      simp only [call, offerValue, hg]
      exact hkept ⟨rfl, rfl⟩
    | time =>
      have hadd := add_slotted 0 desk (k := k) (by simp [hg]) ts v now
      simp only [call, offerValue, hg]
      exact hkept hadd.toSameClock
    | frame window =>
      have hadd := add_slotted 0 desk (k := k) (by simp [hg]) ts v now
      simp only [call, offerValue, hg]
      exact hkept hadd.toSameClock
  | nothing k quality now =>
    simp only [call, offerNone]
    split
    · exact hkept ⟨rfl, rfl⟩
    · exact h
  | endOfPass iter => exact hkept (closeAll_clock desk _)
  | flushAll iter => exact hkept (closeAll_clock desk _)
  | due iter now wall =>
    simp only [call, due_eq]
    have hclock := closeAll_clock desk (endedKeys iter now desk.dev)
    generalize desk.closeAll (endedKeys iter now desk.dev) = closed at hclock ⊢
    intro s hs
    obtain ⟨j, hj⟩ := List.getElem?_of_mem hs
    rw [exec_runSampler_samplers] at hj
    split at hj
    · obtain ⟨s, hbefore, rfl⟩ := Option.map_eq_some_iff.mp hj
      rw [advanced_fst]
      exact hkept hclock s (List.mem_of_getElem? hbefore)
    · exact hkept hclock s (List.mem_of_getElem? hj)
  | setStale stale now =>
    -- the staleness changes, the samplers do not
    intro s hs
    exact h s hs

omit [Ryu] in
/-- An interval that passed the check is long enough. -/
theorem every_checked {table : Toml} (h : checkBatch table = .ok ()) {v : Toml}
    (hv : batchEntry table "every" = some v) :
    ∃ d, v.asStr.bind parseDuration = some d ∧ EVERY_MIN ≤ d := by
  obtain ⟨map, hmap, hget⟩ := Option.bind_eq_some_iff.mp hv
  obtain ⟨batch, hbatch, hmap⟩ := Option.bind_eq_some_iff.mp hmap
  unfold checkBatch at h
  rw [hbatch] at h
  cases batch with
  | table map' =>
    obtain rfl := Option.some.inj hmap
    obtain ⟨_, _, h⟩ := bind_ok h
    obtain ⟨_, _, h⟩ := bind_ok h
    obtain ⟨_, hevery, _⟩ := bind_ok h
    unfold checkWithin at hevery
    simp only [hget] at hevery
    split at hevery
    · rename_i d hd
      split at hevery
      · rename_i hrange
        rw [Bool.and_eq_true, decide_eq_true_eq, decide_eq_true_eq] at hrange
        exact ⟨d, hd, hrange.1⟩
      · cases hevery
    · cases hevery
  | _ => cases hmap

omit [Ryu] in
/-- So is the one a point of a loaded configuration samples at. -/
theorem Accepted.every_min {connector deviceTable : Toml} {libraries : List (List Toml)}
    {inline : List Toml} {point : PointConfig} {resolved : Toml} {every : Nat}
    (h : Accepted connector deviceTable libraries inline config device point resolved
      (.sample every)) :
    EVERY_MIN ≤ every := by
  have hconnector : Written connector := written (h.wellFormed _ (by simp)) (h.checked _ (by simp))
  have hdevice : Written deviceTable := written (h.wellFormed _ (by simp)) (h.checked _ (by simp))
  have hchecked {d : Toml} (hd : d ∈ layers libraries inline resolved point.id) :
      d.WellFormed ∧ checkBatch d = .ok () := by
    have hmem := List.mem_cons_of_mem connector
      (List.mem_cons_of_mem deviceTable (h.layers_mem hd).1)
    exact ⟨h.wellFormed d hmem, h.checked d hmem⟩
  have hplain : ∀ d ∈ layers libraries inline resolved point.id, ∀ v,
      batchEntry d "every" = some v → v.asTable = none := by
    intro d hd v hv
    obtain ⟨every, hevery, -⟩ := every_checked (hchecked hd).2 hv
    cases v with
    | table map => cases hevery
    | _ => rfl
  -- what the definitions of the point leave is the period of one of them
  obtain ⟨hlevel, -, hentry⟩ := batchEntry_definitions (fun d hd => (hchecked hd).1)
    (fun d hd => h.layer_written hd) (fun d hd => (h.layers_mem hd).2) hplain h.layers_merge
  have hresolved {v : Toml} (hv : batchEntry resolved "every" = some v) :
      ∃ d, v.asStr.bind parseDuration = some d ∧ EVERY_MIN ≤ d := by
    rw [hentry] at hv
    obtain ⟨d, hd, hv⟩ := List.exists_of_findSome?_eq_some hv
    exact every_checked (hchecked (List.mem_reverse.mp hd)).2 hv
  have hall : ∀ v, (batchTable config device point).get "every" = some v →
      ∃ d, v.asStr.bind parseDuration = some d ∧ EVERY_MIN ≤ d := by
    intro v hv
    rw [batchTable, h.configBatch, h.deviceBatch, h.pointBatch,
      get_mergeBatchLevel _ hlevel (by decide), get_mergeBatchLevel _ hdevice.toLevel (by decide),
      get_mergeBatchLevel _ hconnector.toLevel (by decide)] at hv
    simp only [Option.or_eq_some_iff, Option.map_eq_some_iff] at hv
    rcases hv with ⟨w, hw, rfl⟩ | ⟨-, ⟨w, hw, rfl⟩ | ⟨-, ⟨w, hw, rfl⟩ | ⟨-, hv⟩⟩⟩
    · rw [asStr_toJson]
      exact hresolved hw
    · rw [asStr_toJson]
      exact every_checked (h.checked _ (by simp)) hw
    · rw [asStr_toJson]
      exact every_checked (h.checked _ (by simp)) hw
    · cases hv
  have hmerged := h.merged
  unfold GroupBy.fromTable at hmerged
  dsimp only at hmerged
  split at hmerged
  · split at hmerged <;> cases hmerged
  · split at hmerged
    · split at hmerged
      · rename_i d hd
        obtain rfl : d = every := GroupBy.sample.inj (Except.ok.inj hmerged)
        obtain ⟨s, hs, hparse⟩ := Option.bind_eq_some_iff.mp hd
        obtain ⟨v, hv, hstr⟩ := Option.bind_eq_some_iff.mp hs
        obtain ⟨d', hd', hmin⟩ := hall v hv
        rw [hstr, Option.bind_some, hparse] at hd'
        rwa [Option.some.inj hd']
      · cases hmerged
    · cases hmerged

omit [Ryu] in
theorem Loaded.every_pos {point : PointConfig} {every : Nat} (h : Loaded config)
    (hdevice : device ∈ config.devices) (hpoint : point ∈ device.points)
    (hgroup : groupByOf config device point = .sample every) : 0 < every := by
  obtain ⟨_, _, _, _, _, groupBy, haccepted⟩ := h.points device hdevice point hpoint
  have hsample : groupBy = .sample every := by
    simp only [groupByOf, haccepted.merged] at hgroup
    split at hgroup
    · cases hgroup
    · exact hgroup
  subst hsample
  exact Nat.lt_of_lt_of_le (by decide) haccepted.every_min

omit [Ryu] in
/-- Every sampler has a point of its interval. -/
theorem building_sampler_point (config : ConnectorConfig) (device : DeviceConfig) (now : Nat)
    (points : List PointConfig) :
    ∀ s ∈ (points.foldl (Building.addPoint config device now) {}).samplers,
      ∃ point ∈ points, groupByOf config device point = .sample s.1 := by
  induction points using List.reverseRecOn with
  | nil => simp
  | append_singleton points point ih =>
    intro s hs
    rw [List.foldl_append] at hs
    simp only [List.foldl_cons, List.foldl_nil] at hs
    rw [(Building.addPoint_samplers config device now _ point).1] at hs
    have hearlier (hs : s ∈ (points.foldl (Building.addPoint config device now) {}).samplers) :
        ∃ p ∈ points ++ [point], groupByOf config device p = .sample s.1 := by
      obtain ⟨p, hp, hgroup⟩ := ih s hs
      exact ⟨p, List.mem_append_left _ hp, hgroup⟩
    split at hs
    · rename_i every hevery
      split at hs
      · exact hearlier hs
      · rcases List.mem_append.mp hs with hs | hs
        · exact hearlier hs
        · rw [List.mem_singleton.mp hs]
          exact ⟨point, by simp, hevery⟩
    · exact hearlier hs

omit [Ryu] in
theorem built_timed (h : Loaded config) (hdevice : device ∈ config.devices) (now : Nat) :
    (DeviceTable.new config device now).Timed := by
  intro s hs
  obtain ⟨point, hpoint, hgroup⟩ := building_sampler_point config device now device.points s hs
  exact h.every_pos hdevice hpoint hgroup

/-! ## The batcher -/

omit [Ryu] in
/-- In a pass over all devices each is changed by its own step. -/
theorem eachDevice_device {b : Batcher} {f : Nat → Desk → Desk × List Emission} {d : Nat}
    {dev' : DeviceTable} (h : (b.eachDevice f).1.devices[d]? = some dev') :
    ∃ dev published, b.devices[d]? = some dev ∧ dev' = (f d ⟨dev, published⟩).1.dev := by
  have hloop : ∀ n, ∀ dev',
      (exec (fun b d => b.onDevice d (f d)) b (List.range n)).1.devices[d]? = some dev' →
        ∃ dev, b.devices[d]? = some dev ∧
          (n ≤ d → dev' = dev) ∧ (d < n → ∃ published, dev' = (f d ⟨dev, published⟩).1.dev) := by
    intro n
    induction n with
    | zero => exact fun dev' h => ⟨dev', h, fun _ => rfl, fun h => absurd h (Nat.not_lt_zero d)⟩
    | succ n ih =>
      intro dev' h
      rw [List.range_succ, exec_append] at h
      simp only [exec_cons, exec_nil] at h
      generalize (exec (fun b d => Batcher.onDevice b d (f d)) b (List.range n)).1 = mid at h ih
      unfold Batcher.onDevice at h
      split at h
      · rename_i hnone
        obtain ⟨dev, hdev, hlater, hdone⟩ := ih dev' h
        have hne : d ≠ n := by
          rintro rfl
          rw [hnone] at h
          cases h
        exact ⟨dev, hdev, fun hle => hlater (by omega), fun hlt => hdone (by omega)⟩
      · rename_i here hhere
        by_cases hd : n = d
        · subst hd
          dsimp only at h
          rw [List.getElem?_set_self (List.getElem?_eq_some_iff.mp hhere).1] at h
          obtain ⟨dev, hdev, hlater, -⟩ := ih here hhere
          obtain rfl := hlater (Nat.le_refl _)
          exact ⟨here, hdev, fun hle => absurd hle (by omega),
            fun _ => ⟨mid.publishedUnits, (Option.some.inj h).symm⟩⟩
        · dsimp only at h
          rw [List.getElem?_set_ne hd] at h
          obtain ⟨dev, hdev, hlater, hdone⟩ := ih dev' h
          exact ⟨dev, hdev, fun hle => hlater (by omega), fun hlt => hdone (by omega)⟩
  obtain ⟨dev, hdev, hlater, hdone⟩ := hloop b.devices.length dev' h
  obtain ⟨published, heq⟩ := hdone (List.getElem?_eq_some_iff.mp hdev).1
  exact ⟨dev, published, hdev, heq⟩

theorem timed_run (h : Loaded config) (start : Nat) (previous : Option Batcher) (ops : List Op) :
    ∀ dev ∈ (final step (Batcher.new config start previous) ops).devices, dev.Timed := by
  intro dev hdev
  obtain ⟨d, hd⟩ := List.getElem?_of_mem hdev
  refine Batcher.device_history (C := fun _ _ => True) (P := fun dev _ _ => dev.Timed)
    (fun _ _ _ => trivial) (fun desk c _ _ _ _ htimed => call_timed desk c htimed)
    (allSteps_of_forall (fun _ _ _ _ _ _ => trivial) _ ops) (fun dev₀ hdev₀ => ?_) hd
  obtain ⟨device, hdevice, rfl⟩ := built_batcher config start previous hdev₀
  exact built_timed h (List.mem_of_getElem? hdevice) start

/-- **Deadlines are exact.** In every state a run reaches: while the next deadline lies ahead `due`
publishes nothing and changes nothing, and after `due` the next deadline, if any, lies ahead. -/
theorem deadlines_exact {config : ConnectorConfig} (h : Loaded config) (start : Nat)
    (previous : Option Batcher) (ops : List Op) (iter : Nat → IterOrder) (now : Nat)
    (wall : OffsetDateTime) :
    let b := final step (Batcher.new config start previous) ops
    ((∀ t ∈ b.nextDeadline, now < t) → b.due iter now wall = (b, [])) ∧
      ∀ t ∈ (b.due iter now wall).1.nextDeadline, now < t := by
  intro b
  have htimed : ∀ dev ∈ b.devices, dev.Timed := timed_run h start previous ops
  constructor
  · intro hahead
    have hwaiting := nextDeadline_ahead_iff.mp hahead
    apply exec_idle
    intro d hd
    have hlt := List.mem_range.mp hd
    have hdev := List.getElem?_eq_getElem hlt
    have hidle : Desk.due (iter d) now wall ⟨b.devices[d], b.publishedUnits⟩ = (_, []) :=
      due_idle (iter d) wall (hwaiting b.devices[d] (List.getElem_mem hlt))
    simp [Batcher.onDevice, hdev, hidle]
  · rw [nextDeadline_ahead_iff]
    intro dev' hdev'
    obtain ⟨d, hd⟩ := List.getElem?_of_mem hdev'
    obtain ⟨dev, published, hdev, rfl⟩ := eachDevice_device hd
    exact due_waiting (iter d) now wall (htimed dev (List.mem_of_getElem? hdev))

/-! A point sampled every second beside one in frames of 100 ms. -/

def framedSpeed : Toml := .table [
  ("batch", .table [("group_by", .string "frame"), ("window", .string "100ms")]),
  ("id", .string "speed")]

/-- The table of `[connector]`. -/
def sampledConnector : Toml := .table [
  ("batch", .table [("every", .string "1s"), ("group_by", .string "sample")])]

def mixedConfig : ConnectorConfig :=
  { protocol := "modbus"
    output := some "measurements"
    batch := batchJson sampledConnector
    devices := [{ name := "plc", points := [{ id := "temp" },
      { id := "speed", batch := batchJson framedSpeed }] }] }

omit [Ryu] in
/-- The example's configuration passes its checks. -/
theorem loaded_mixedConfig : Loaded mixedConfig where
  output := rfl
  resolved := by decide +kernel
  points device hdevice point hpoint := by
    have hwellFormed : ∀ t ∈ ([sampledConnector, .table [], tempPoint, framedSpeed] : List Toml),
        t.WellFormed := by
      simp [sampledConnector, tempPoint, framedSpeed, Toml.WellFormed, Toml.EntriesWellFormed]
      decide
    have hchecked : ∀ t ∈ ([sampledConnector, .table [], tempPoint, framedSpeed] : List Toml),
        checkBatch t = .ok () := by decide +kernel
    have hresolved : checkResolvedBatches mixedConfig = .ok () := by decide +kernel
    have hplc := List.mem_singleton.mp hdevice
    subst hplc
    simp only [List.mem_cons, List.not_mem_nil, or_false] at hpoint
    rcases hpoint with rfl | rfl
    · exact ⟨sampledConnector, .table [], [], [tempPoint, framedSpeed], tempPoint,
        .sample (Duration.fromSecs 1), hwellFormed, hchecked, rfl, rfl, rfl,
        by simp [Library.resolvedPoints], rfl, List.mem_singleton.mpr rfl, by simp, hresolved,
        by decide +kernel⟩
    · exact ⟨sampledConnector, .table [], [], [tempPoint, framedSpeed], framedSpeed,
        .frame (Duration.fromMillis 100), hwellFormed, hchecked, rfl, rfl, rfl,
        by simp [Library.resolvedPoints], rfl, List.mem_singleton.mpr rfl, by simp, hresolved,
        by decide +kernel⟩

omit [Ryu] in
/-- The frame that opened at 0 is what `due` waits for; called after 5 s, it closes the frame and
restarts the sampler. -/
theorem deadlines_exact_mixed :
    letI := plainRyu
    let b := final step (Batcher.new mixedConfig 0 none)
      [.offer ⟨"plc", "speed", 0, .typed, .good, some (.number 3.0)⟩ 0]
    b.nextDeadline = some (Duration.fromMillis 100) ∧
      ((∀ t ∈ b.nextDeadline, Duration.fromSecs 5 < t) →
        b.due (fun _ => keepOrder) (Duration.fromSecs 5) 0 = (b, [])) ∧
      ∀ t ∈ (b.due (fun _ => keepOrder) (Duration.fromSecs 5) 0).1.nextDeadline,
        Duration.fromSecs 5 < t :=
  letI := plainRyu
  ⟨by decide +kernel, deadlines_exact loaded_mixedConfig 0 none _ (fun _ => keepOrder) _ 0⟩

end TedgeDot.Measure
