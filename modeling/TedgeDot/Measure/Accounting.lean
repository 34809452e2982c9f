import TedgeDot.Measure.Built

/-!
# Accounting

Batching loses and duplicates nothing. On a device without `"sample"` points, what has been
published together with what the table still holds (`held`) is, up to order, what was
offered (`Accounted`): closing moves held series out, a reading adds its own. A flush leaves
nothing held, so a run that ends with one published each reading once (`measured_once`).
-/

namespace TedgeDot.Measure

open Machine Desk DeviceTable

/-! ## One device -/

/-- The series of a message, each with its key. -/
def Part.series (p : Part) : List (Key × Entry) := p.entries.map fun e => (p.key, e)

def Open.series (key : Key) (o : Open) : List (Key × Entry) := o.entries.map fun e => (key, e)

def DeviceTable.held (dev : DeviceTable) : List (Key × Entry) :=
  Table.items (fun key layers => layers.flatMap (Open.series key)) dev.openMsgs

section Held

variable {dev dev' : DeviceTable} {key : Key} {ts : OffsetDateTime} {e : Entry} {o : Open} {k : Nat}

theorem held_split (dev : DeviceTable) (key : Key) :
    dev.held.Perm ((dev.layers key).flatMap (Open.series key) ++
      Table.items (fun key layers => layers.flatMap (Open.series key)) (dev.openMsgs.erase key)) := by
  unfold held layers
  cases hlookup : dev.openMsgs.lookup key with
  | none =>
    rw [Table.erase_of_lookup_none hlookup]
    simp
  | some layers => exact Table.items_erase hlookup

theorem closing_series (dev : DeviceTable) (key : Key) :
    (dev.closing key).flatMap Part.series = (dev.layers key).flatMap (Open.series key) := by
  rw [closing, List.flatMap_map]
  rfl

theorem held_closed (hc : Closed key dev dev') :
    ((dev.closing key).flatMap Part.series ++ dev'.held).Perm dev.held := by
  rw [closing_series]
  refine List.Perm.trans (List.Perm.of_eq ?_) (held_split dev key).symm
  rw [held, hc.openMsgs]

theorem held_of_insert {layers : List Open}
    (h : dev'.openMsgs = dev.openMsgs.insert key layers) :
    dev'.held.Perm (layers.flatMap (Open.series key) ++
      Table.items (fun key layers => layers.flatMap (Open.series key)) (dev.openMsgs.erase key)) := by
  unfold held
  rw [h]
  exact Table.items_insert

theorem held_started (hs : Started key ts e o dev dev') :
    dev'.held.Perm (dev.held ++ [(key, e)]) := by
  have hnew : Open.series key o = [(key, e)] := by simp [Open.series, hs.entries]
  refine (held_of_insert hs.openMsgs).trans ?_
  refine List.Perm.trans ?_ ((held_split dev key).symm.append_right _)
  simp only [List.flatMap_append, List.flatMap_cons, List.flatMap_nil, hnew, List.append_nil,
    List.append_assoc]
  exact List.perm_append_comm.append_left _

theorem held_filled {o' : Open} {out : List (Key × Entry)} (ho : (dev.layers key)[dev.depth k]? =
    some o)
    (hf : Filled key k o' dev dev') (hout : out ++ o'.series key = o.series key ++ [(key, e)]) :
    (out ++ dev'.held).Perm (dev.held ++ [(key, e)]) := by
  have hswap : (o'.series key ++ out).Perm (o.series key ++ [(key, e)]) :=
    List.perm_append_comm.trans (List.Perm.of_eq hout)
  have hset := Table.flatMap_set_perm (Open.series key) ho hswap
  refine ((held_of_insert hf.openMsgs).append_left out).trans ?_
  refine List.Perm.trans ?_ ((held_split dev key).symm.append_right _)
  rw [← List.append_assoc, List.append_assoc _ _ [(key, e)]]
  refine ((List.perm_append_comm.trans hset).append_right _).trans ?_
  rw [List.append_assoc]
  exact List.perm_append_comm.append_left _

end Held

def DeviceTable.offeredSeries (dev : DeviceTable) (i : Nat × Float) : Key × Entry :=
  (dev.keyOf i.1, dev.entry i.1 i.2)

/-- What has been published and what is held is what was offered. -/
structure Accounted (dev₀ dev : DeviceTable) (ins : List (Nat × Float)) (past : List Part) :
    Prop where
  fixed : Fixed dev₀ dev
  topic : ∀ p ∈ past, p.topic = (dev₀.topic p.key.1).topic
  balance : (past.flatMap Part.series ++ dev.held).Perm (ins.map dev₀.offeredSeries)

variable [Ryu]

theorem held_added {dev dev' : DeviceTable} {k : Nat} {ts : OffsetDateTime} {v : Float} {now : Nat}
    {new : List Part} (ha : Added dev k ts v now dev' new) :
    (new.flatMap Part.series ++ dev'.held).Perm (dev.held ++ [(dev.keyOf k, dev.entry k v)]) := by
  cases ha with
  | fill o hstay ho hfilled =>
    refine held_filled ho hfilled ?_
    cases dev.splits k v o with
    | true => simp [Part.series, Open.series]
    | false => simp [Open.series]
  | start o hstay hdepth hstarted =>
    rw [List.flatMap_nil, List.nil_append]
    exact held_started hstarted
  | @restart mid _ o hclose hclosed hdepth hstarted =>
    refine ((held_started hstarted).append_left _).trans ?_
    rw [← List.append_assoc]
    exact (held_closed hclosed).append_right _

theorem topic_added {dev dev' : DeviceTable} {k : Nat} {ts : OffsetDateTime} {v : Float} {now : Nat}
    {new : List Part} (ha : Added dev k ts v now dev' new) :
    Fixed dev dev' ∧ ∀ p ∈ new, p.topic = (dev.topic p.key.1).topic := by
  cases ha with
  | fill o hstay ho hfilled =>
    refine ⟨hfilled.toFixed, fun p hp => ?_⟩
    split at hp
    · rw [List.mem_singleton.mp hp]
    · cases hp
  | start o hstay hdepth hstarted => exact ⟨hstarted.toFixed, by simp⟩
  | restart o hclose hclosed hdepth hstarted =>
    refine ⟨hclosed.toFixed.trans hstarted.toFixed, fun p hp => ?_⟩
    obtain ⟨o', -, rfl⟩ := List.mem_map.mp hp
    rfl

variable {b : Batcher} {d : Nat} {dev : DeviceTable}

/-- **Account of a device**: without `"sample"` points, what is published and what is held is what
was offered, in every run. -/
theorem accounted_run {ops : List Op} {dev₀ dev : DeviceTable} (hdev₀ : b.devices[d]? = some dev₀)
    (hL : Layered dev₀) (hopen : dev₀.openMsgs = ∅)
    (hsample : ∀ k, (dev₀.plan k).groupBy.isSample = false)
    (hdev : (final step b ops).devices[d]? = some dev) :
    Accounted dev₀ dev (Batcher.offeredTo d (ops.flatMap b.calls))
      (Batcher.partsOf d ((log step b ops).flatMap fun e => e.2.emissions)) := by
  refine (layered_history (C := fun _ _ => True) (P := Accounted dev₀) (fun _ _ _ => trivial)
    ?_ ?_ ?_ ?_ (allSteps_of_forall (fun b op c _ dev _ => trivial) b ops) ?_ hdev).2
  -- closing moves what is held to what is published
  · intro dev dev' key ins past hL hc hP
    refine ⟨hP.fixed.trans hc.toFixed, fun p hp => ?_, ?_⟩
    · rcases List.mem_append.mp hp with hp | hp
      · exact hP.topic p hp
      · obtain ⟨o, -, rfl⟩ := List.mem_map.mp hp
        exact hP.fixed.topic_topic key.1
    · rw [List.flatMap_append, List.append_assoc]
      exact ((held_closed hc).append_left _).trans hP.balance
  · intro dev dev' ins past new hq hnew hP
    have hnil : new = [] := hnew.none fun k => by rw [hP.fixed.plan, hsample k]
    rw [hnil, List.append_nil]
    refine ⟨hP.fixed.trans hq.toFixed, hP.topic, ?_⟩
    rw [show dev'.held = dev.held by rw [held, hq.openMsgs]; rfl]
    exact hP.balance
  · intro dev dev' ins past k v hq hk hP
    rw [hP.fixed.plan, hsample k] at hk
    cases hk
  · intro dev dev' k ts v now new ins past hL hlocated hk hC ha hP
    obtain ⟨hfixed, htopic⟩ := topic_added ha
    refine ⟨hP.fixed.trans hfixed, fun p hp => ?_, ?_⟩
    · rcases List.mem_append.mp hp with hp | hp
      · exact hP.topic p hp
      · rw [htopic p hp, hP.fixed.topic_topic]
    · rw [List.flatMap_append, List.append_assoc, List.map_append]
      refine ((held_added ha).append_left _).trans ?_
      rw [← List.append_assoc]
      refine (hP.balance.append_right _).trans (List.Perm.of_eq ?_)
      simp [offeredSeries, entry, hP.fixed.keyOf, hP.fixed.plan]
  · intro dev hdev
    obtain rfl : dev₀ = dev := Option.some.inj (hdev₀.symm.trans hdev)
    refine ⟨hL, Fixed.refl _, by simp, ?_⟩
    simp [held, hopen]

/-! ## Flushing -/

omit [Ryu] in
theorem mem_closeAll (desk : Desk) (keys : List Key) (key : Key) :
    key ∈ (desk.closeAll keys).1.dev.openMsgs ↔ key ∈ desk.dev.openMsgs ∧ key ∉ keys := by
  unfold closeAll
  induction keys generalizing desk with
  | nil => simp
  | cons key' keys ih =>
    rw [exec_cons, ih, (close_spec desk key').1.openMsgs, AList.mem_erase, List.mem_cons]
    tauto

omit [Ryu] in
theorem flushAll_empty (iter : IterOrder) (desk : Desk) (key : Key) :
    key ∉ (desk.flushAll iter).1.dev.openMsgs := by
  unfold flushAll
  rw [mem_closeAll]
  rintro ⟨hmem, hnot⟩
  exact hnot (List.mem_mergeSort.mpr ((iter.perm _).mem_iff.mpr (AList.mem_keys.mp hmem)))

/-- A flush leaves nothing held. -/
theorem flushed (iter : Nat → IterOrder) (hdev : (step b (.flushAll iter)).1.devices[d]? = some dev) :
    dev.held = [] := by
  have hstep : (step b (.flushAll iter)).1 = final Batcher.call b (b.calls (.flushAll iter)) :=
    congrArg Prod.fst (Batcher.step_eq_calls b (.flushAll iter))
  -- the calls are flushes, one for each device, and a flushed device stays empty
  have hlanded : ∀ dev, (step b (.flushAll iter)).1.devices[d]? = some dev →
      ∀ key, key ∉ dev.openMsgs := by
    rw [hstep]
    refine final_of_mem (C := fun _ c => ∃ iter, c.2 = .flushAll iter) (L := fun c => c.1 = d)
      (S := fun _ => True)
      (K := fun b : Batcher => ∀ dev, b.devices[d]? = some dev → ∀ key, key ∉ dev.openMsgs)
      (fun _ _ _ _ => trivial) ?_ ?_ ?_ trivial ?_
    · rintro b ⟨d', c⟩ ⟨iter, rfl⟩ rfl - dev' hdev'
      obtain ⟨dev, -, rfl⟩ := Batcher.call_device hdev'
      rw [if_pos rfl]
      exact flushAll_empty iter _
    · rintro b ⟨d', c⟩ ⟨iter, rfl⟩ hkept dev' hdev'
      obtain ⟨dev, hdev, rfl⟩ := Batcher.call_device hdev'
      split
      · exact flushAll_empty iter _
      · exact hkept dev hdev
    · refine allSteps_of_mem (fun _ c hc => ?_) b
      obtain ⟨d', -, rfl⟩ := List.mem_map.mp hc
      exact ⟨iter d', rfl⟩
    · have hlt := (List.getElem?_eq_some_iff.mp hdev).1
      rw [Batcher.layout_length (Batcher.layout_step b _)] at hlt
      exact ⟨_, List.mem_map_of_mem (List.mem_range.mpr hlt), rfl⟩
  exact Table.items_eq_nil (hlanded dev hdev)

/-! ## All devices -/

/-- A series, with the device and the point of its reading. -/
structure Series where
  device : String
  point : String
  topic : String
  key : String
  value : Float

def deviceName (config : ConnectorConfig) (d : Nat) : String :=
  (config.devices[d]?.map DeviceConfig.name).getD ""

def pointId (config : ConnectorConfig) (d k : Nat) : String :=
  ((config.devices[d]?.bind fun dc => dc.points[k]?).map PointConfig.id).getD ""

def publishedSeries (config : ConnectorConfig) : Nat × Emission → List Series
  | (_, .units _) => []
  | (d, .series topic _ _ entries _) => entries.map fun e =>
    { device := deviceName config d, point := pointId config d e.point, topic := topic.topic,
      key := e.key, value := e.value }

/-- The value of a reading as a number. -/
def readingValue : Option Value → Option Float
  | some (.number n) => some n
  | some (.bool v) => some (if v then 1.0 else 0.0)
  | _ => none

/-- The series of a reading, from the configuration: on the topic of its device and group, under
the key of its series. -/
def seriesFor (config : ConnectorConfig) (sample : Sample) : Option Series :=
  (findPoint config sample.device sample.point).bind fun (device, point) =>
    (readingValue sample.value).map fun value =>
      { device := sample.device, point := sample.point
        topic := topicName device.name (groupOf config point)
        key := quoted (seriesOf config point) ++ ":", value := value }

/-- The call was an offer that reported its reading as measured. -/
def Out.measured (out : Out) : Bool := out.routing.any Routing.measured

/-- The series of the reading of a call, if it was measured. -/
def measuredSeries (config : ConnectorConfig) (e : Op × Out) : List Series :=
  match e.1 with
  | .offer sample _ => if e.2.measured then (seriesFor config sample).toList else []
  | _ => []

/-! ### Readings and series of a batcher -/

/-- A series of a device's table, as it is published. -/
def DeviceTable.render (config : ConnectorConfig) (d : Nat) (dev : DeviceTable)
    (x : Key × Entry) : Series :=
  { device := deviceName config d, point := pointId config d x.2.point
    topic := (dev.topic x.1.1).topic, key := x.2.key, value := x.2.value }

/-- The series of the reading a call offers. -/
def Batcher.offeredSeries (config : ConnectorConfig) (b : Batcher) (c : Nat × Call) : List Series :=
  match b.devices[c.1]? with
  | none => []
  | some dev => c.2.offered.map fun i => dev.render config c.1 (dev.offeredSeries i)

omit [Ryu] in
/-- What is published for a device is the parts, rendered. -/
theorem published_of_parts (config : ConnectorConfig) (out : List (Nat × Emission))
    (htopic : ∀ p ∈ Batcher.partsOf d out, p.topic = (dev.topic p.key.1).topic) :
    (out.filter fun e => e.1 = d).flatMap (publishedSeries config) =
      ((Batcher.partsOf d out).flatMap Part.series).map (dev.render config d) := by
  induction out with
  | nil => rfl
  | cons e out ih =>
    obtain ⟨d', e⟩ := e
    have hsplit : Batcher.partsOf d ((d', e) :: out) =
        (if d' = d then parts [e] else []) ++ Batcher.partsOf d out := by
      rw [← Batcher.partsOf_map d d' [e], ← Batcher.partsOf_append]
      rfl
    rw [hsplit] at htopic ⊢
    have hrest := ih fun p hp => htopic p (List.mem_append_right _ hp)
    by_cases hd : d' = d
    · subst hd
      simp only [decide_true, List.filter_cons_of_pos, List.flatMap_cons, ↓reduceIte,
        List.flatMap_append, List.map_append, hrest]
      congr 1
      cases e with
      | units topic => rfl
      | series topic key time entries ends =>
        have hp := htopic _ (List.mem_append_left _ (by rw [if_pos rfl]; exact List.mem_cons_self))
        simp only [publishedSeries, parts, List.filterMap_cons, List.filterMap_nil, Emission.part?,
          List.flatMap_cons, List.flatMap_nil, List.append_nil, Part.series, List.map_map]
        refine List.map_congr_left fun e _ => ?_
        simp only [Function.comp_apply, render]
        rw [← hp]
    · simp only [hd, decide_false, Bool.false_eq_true, not_false_eq_true,
        List.filter_cons_of_neg, ↓reduceIte, List.nil_append, hrest]

omit [Ryu] in
theorem offered_of_device (config : ConnectorConfig) (b : Batcher) (hdev : b.devices[d]? = some dev)
    (cs : List (Nat × Call)) :
    (cs.filter fun c => c.1 = d).flatMap (b.offeredSeries config) =
      ((Batcher.offeredTo d cs).map dev.offeredSeries).map (dev.render config d) := by
  induction cs with
  | nil => rfl
  | cons c cs ih =>
    by_cases hd : c.1 = d
    · subst hd
      simp only [decide_true, List.filter_cons_of_pos, List.flatMap_cons, ih, Batcher.offeredTo,
        ↓reduceIte, List.map_append]
      congr 1
      simp [Batcher.offeredSeries, hdev]
    · simp only [hd, decide_false, Bool.false_eq_true, not_false_eq_true, List.filter_cons_of_neg,
        ih, Batcher.offeredTo, List.flatMap_cons, ↓reduceIte, List.nil_append]

theorem emissions_device (b : Batcher) (cs : List (Nat × Call)) :
    ∀ e ∈ (exec Batcher.call b cs).2, e.1 < b.devices.length := by
  have hrun : (exec Batcher.call b cs).1.layout = b.layout ∧
      ∀ e ∈ (exec Batcher.call b cs).2, e.1 < b.devices.length := by
    refine exec_outputs (P := fun (b' : Batcher) (out : List (Nat × Emission)) =>
      b'.layout = b.layout ∧ ∀ e ∈ out, e.1 < b.devices.length) ?_ cs ⟨rfl, by simp⟩
    rintro b' ⟨d, c⟩ out ⟨hlayout, hout⟩
    refine ⟨(Batcher.layout_call b' _).trans hlayout, fun e he => ?_⟩
    rcases List.mem_append.mp he with he | he
    · exact hout e he
    · cases hdev : b'.devices[d]? with
      | none => simp [Batcher.call_of_none hdev] at he
      | some dev =>
        rw [Batcher.call_of_some hdev] at he
        obtain ⟨e', -, rfl⟩ := List.mem_map.mp he
        have hlt := (List.getElem?_eq_some_iff.mp hdev).1
        rwa [Batcher.layout_length hlayout] at hlt
  exact hrun.2

/-- **Account of a batcher**: without `"sample"` points, a run that ends with a flush published
what was offered, and nothing else. -/
theorem published_perm_offered (config : ConnectorConfig)
    (hdevices : ∀ (d : Nat) dev, b.devices[d]? = some dev → Layered dev ∧ dev.openMsgs = ∅ ∧ ∀ k,
      (dev.plan k).groupBy.isSample = false)
    (ops : List Op) (iter : Nat → IterOrder) :
    (((log step b (ops ++ [Op.flushAll iter])).flatMap fun e => e.2.emissions).flatMap
        (publishedSeries config)).Perm
      (((ops ++ [Op.flushAll iter]).flatMap b.calls).flatMap (b.offeredSeries config)) := by
  -- device by device, with what each device put out and took in
  refine Table.flatMap_perm_of_filter Prod.fst Prod.fst fun d => ?_
  have hlayout := Batcher.layout_final b (ops ++ [Op.flushAll iter])
  cases hdev : (final step b (ops ++ [Op.flushAll iter])).devices[d]? with
  | none =>
    have hge : b.devices.length ≤ d := by
      rw [← Batcher.layout_length hlayout]
      exact List.getElem?_eq_none_iff.mp hdev
    have hout : ((log step b (ops ++ [Op.flushAll iter])).flatMap fun e => e.2.emissions).filter
        (fun e => e.1 = d) = [] := by
      refine List.filter_eq_nil_iff.mpr fun e he => ?_
      have hlt := emissions_device b _ e (by rw [Batcher.run_eq_calls]; exact he)
      simp only [decide_eq_true_eq]
      omega
    have hin : ∀ c : Nat × Call, c.1 = d → b.offeredSeries config c = [] := by
      rintro ⟨d', c⟩ rfl
      simp [Batcher.offeredSeries, List.getElem?_eq_none hge]
    rw [hout, List.flatMap_nil]
    refine List.Perm.of_eq (List.flatMap_eq_nil_iff.mpr fun c hc => hin c ?_).symm
    simpa using (List.mem_filter.mp hc).2
  | some dev =>
    obtain ⟨dev₀, hdev₀⟩ : ∃ dev₀, b.devices[d]? = some dev₀ := by
      have hlt := (List.getElem?_eq_some_iff.mp hdev).1
      rw [Batcher.layout_length hlayout] at hlt
      exact ⟨_, List.getElem?_eq_getElem hlt⟩
    obtain ⟨hL, hopen, hsample⟩ := hdevices d dev₀ hdev₀
    have hrun := accounted_run hdev₀ hL hopen hsample hdev
    have hheld : dev.held = [] := by
      rw [final_append] at hdev
      exact flushed iter hdev
    rw [published_of_parts config _ hrun.topic, offered_of_device config b hdev₀]
    have hbalance := hrun.balance
    rw [hheld, List.append_nil] at hbalance
    exact hbalance.map _

/-! ### From the configuration -/

omit [Ryu] in
theorem readingValue_of_seriesValue {plan : PointPlan} {sample : Sample} {v : Float}
    (h : b.seriesValue plan sample = some v) : readingValue sample.value = some v := by
  unfold Batcher.seriesValue at h
  split at h
  · cases h
  · cases hvalue : sample.value with
    | none => simp [hvalue] at h
    | some value =>
      cases value with
      | number n =>
        simp only [hvalue, Option.ite_none_right_eq_some] at h
        simpa [readingValue] using h.2
      | bool x =>
        simp only [hvalue, Option.ite_none_right_eq_some] at h
        simpa [readingValue] using h.2
      | text t => simp [hvalue] at h

/-- **Measured readings**: a reading is reported as measured exactly when it is offered to the
table of its device. -/
theorem measured_cases (b : Batcher) (sample : Sample) (now : Nat) :
    ((step b (.offer sample now)).2.measured = true ∧
        ∃ d k v, b.locate sample.device sample.point = some (d, k) ∧
          readingValue sample.value = some v ∧
          b.calls (.offer sample now) = [(d, .value k sample.ts v now)]) ∨
      ((step b (.offer sample now)).2.measured = false ∧
        ∀ c ∈ b.calls (.offer sample now), c.2.offered = []) := by
  simp only [Out.measured, step, Batcher.offer, Batcher.calls]
  cases hlocate : b.locate sample.device sample.point with
  | none => simp
  | some dk =>
    obtain ⟨d, k⟩ := dk
    dsimp only
    cases hvalue : b.seriesValue ((b.devices[d]?.map fun dev => dev.plan k).getD default) sample with
    | none => simp [Call.offered]
    | some v => simp [readingValue_of_seriesValue hvalue]

/-- One operation offers what it measures. -/
theorem measuredSeries_step (config : ConnectorConfig) (now : Nat) (previous : Option Batcher)
    (op : Op) :
    let b := Batcher.new config now previous
    measuredSeries config (op, (step b op).2) = (b.calls op).flatMap (b.offeredSeries config) ∧
      ((step b op).2.measured → ∃ s, measuredSeries config (op, (step b op).2) = [s]) := by
  intro b
  -- operations that offer nothing measure nothing
  have hnone : ∀ cs : List (Nat × Call), (∀ c ∈ cs, c.2.offered = []) →
      cs.flatMap (b.offeredSeries config) = [] := by
    intro cs hcs
    refine List.flatMap_eq_nil_iff.mpr fun c hc => ?_
    unfold Batcher.offeredSeries
    split
    · rfl
    · rw [hcs c hc, List.map_nil]
  cases op with
  | offer sample at' =>
    rcases measured_cases b sample at' with ⟨hmeasured, d, k, v, hlocate, hvalue, hcalls⟩ | ⟨hnot, hcs⟩
    · obtain ⟨dc, pc, hdc, hpc, hname, hid, hfind⟩ := locate_spec config now previous hlocate
      have hdev : b.devices[d]? = some (new config dc now) := by
        simp [b, Batcher.new, hdc]
      have hof := built_deviceTable config dc now
      have htopic := (hof.topic hpc).name
      have hkey := (hof.plan k pc hpc).seriesKey
      have hoffered : (b.calls (.offer sample at')).flatMap (b.offeredSeries config) =
          [(new config dc now).render config d
            ((new config dc now).offeredSeries (k, v))] := by
        simp only [hcalls, List.flatMap_cons, List.flatMap_nil, Batcher.offeredSeries, hdev,
          Call.offered, List.map_cons, List.map_nil, List.append_nil]
      have hseries : measuredSeries config (.offer sample at', (step b (.offer sample at')).2) =
          [(new config dc now).render config d
            ((new config dc now).offeredSeries (k, v))] := by
        simp only [measuredSeries, if_pos hmeasured, seriesFor, hfind, hvalue, Option.bind_some,
          Option.map_some, Option.toList_some, render, offeredSeries,
          entry, htopic, hkey]
        simp [deviceName, pointId, hdc, hpc, hname, hid]
      exact ⟨hseries.trans hoffered.symm, fun _ => ⟨_, hseries⟩⟩
    · refine ⟨?_, fun h => by rw [hnot] at h; cases h⟩
      rw [hnone _ hcs]
      simp [measuredSeries, hnot]
  | endOfPass iter =>
    refine ⟨(hnone _ ?_).symm, by simp [Out.measured, step]⟩
    simp [Batcher.calls, Call.offered]
  | flushAll iter =>
    refine ⟨(hnone _ ?_).symm, by simp [Out.measured, step]⟩
    simp [Batcher.calls, Call.offered]
  | due iter now wall =>
    refine ⟨(hnone _ ?_).symm, by simp [Out.measured, step]⟩
    simp [Batcher.calls, Call.offered]
  | setStale device stale now =>
    refine ⟨(hnone _ ?_).symm, by simp [Out.measured, step]⟩
    simp only [Batcher.calls]
    cases b.byName device <;> simp [Call.offered]

/-- **Batching loses and duplicates nothing.** No point of the configuration is grouped by
`"sample"`. In a run of any calls that ends with a flush, each reading that was reported as measured
is one series, and the series of all published messages are, up to order, those of the measured
readings: each on the topic of its device and group, under its point's series key and with its
value. -/
theorem measured_once (config : ConnectorConfig) (now : Nat) (previous : Option Batcher)
    (hgroup : ∀ device ∈ config.devices, ∀ point ∈ device.points,
      (groupByOf config device point).isSample = false)
    (ops : List Op) (iter : Nat → IterOrder) :
    let run := log step (Batcher.new config now previous) (ops ++ [Op.flushAll iter])
    (∀ e ∈ run, e.2.measured → ∃ s, measuredSeries config e = [s]) ∧
      ((run.flatMap fun e => e.2.emissions).flatMap (publishedSeries config)).Perm
        (run.flatMap (measuredSeries config)) := by
  intro run
  have hstep : ∀ e ∈ run,
      measuredSeries config e = ((Batcher.new config now previous).calls e.1).flatMap
          ((Batcher.new config now previous).offeredSeries config) ∧
        (e.2.measured → ∃ s, measuredSeries config e = [s]) := by
    refine log_forall_of (C := fun _ _ => True)
      (P := fun b : Batcher => b.layout = (Batcher.new config now previous).layout)
      (fun b op _ h => (Batcher.layout_step b op).trans h) (fun b op _ h => ?_)
      (allSteps_of_forall (fun _ _ => trivial) _ _) rfl
    -- what is measured depends on the layout only
    have hspec := measuredSeries_step config now previous op
    simp only [measuredSeries, Out.measured, Batcher.routing_congr h op] at hspec ⊢
    exact hspec
  refine ⟨fun e he => (hstep e he).2, ?_⟩
  have hmeasured : run.flatMap (measuredSeries config) =
      ((ops ++ [Op.flushAll iter]).flatMap (Batcher.new config now previous).calls).flatMap
        ((Batcher.new config now previous).offeredSeries config) := by
    rw [List.flatMap_congr fun e he => (hstep e he).1, List.flatMap_assoc]
    exact log_flatMap_fst (fun op => ((Batcher.new config now previous).calls op).flatMap
      ((Batcher.new config now previous).offeredSeries config)) _ _
  rw [hmeasured]
  refine published_perm_offered config (fun d dev hdev => ?_) ops iter
  obtain ⟨device, hdevice, rfl⟩ := built_batcher config now previous hdev
  refine ⟨Layered.empty rfl fun _ => rfl, rfl, fun k => ?_⟩
  exact (built_deviceTable config device now).groupBy_forall (p := fun g => g.isSample = false) rfl
    (hgroup device (List.mem_of_getElem? hdevice)) k

/-! ### A run -/

/-- A formatter for runs that publish whole numbers, which do not need one. -/
@[reducible] def plainRyu : Ryu := ⟨toString⟩

/-- The keys in the order of the table. -/
def keepOrder : IterOrder := ⟨id, fun _ => List.Perm.refl _⟩

/-- A device with two points, in frames of a second. -/
def frameConfig : ConnectorConfig :=
  { protocol := "modbus"
    output := some "measurements"
    batch := some (.object [("group_by", .string "frame"), ("window", .string "1s")])
    devices := [{ name := "plc", points := [{ id := "temp" }, { id := "speed" }] }] }

omit [Ryu] in
/-- Two layers of a frame, flushed. -/
theorem measured_once_frame :
    letI := plainRyu
    let run := log step (Batcher.new frameConfig 0 none)
      ([.offer ⟨"plc", "temp", 0, .typed, .good, some (.number 21.0)⟩ 0,
        .offer ⟨"plc", "temp", 0, .typed, .good, some (.number 22.0)⟩ 5] ++
        [Op.flushAll fun _ => keepOrder])
    (∀ e ∈ run, e.2.measured → ∃ s, measuredSeries frameConfig e = [s]) ∧
      ((run.flatMap fun e => e.2.emissions).flatMap (publishedSeries frameConfig)).Perm
        (run.flatMap (measuredSeries frameConfig)) :=
  letI := plainRyu
  measured_once frameConfig 0 none (by decide) _ _

end TedgeDot.Measure
