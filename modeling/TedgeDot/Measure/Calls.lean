import TedgeDot.Measure.Sampling

/-!
# Calls on one device

A call on the batcher is a run of calls on its devices (`Batcher.calls`), and a run of the batcher
is one long run of those (`run_eq_calls`). What holds of one device over its own calls therefore
holds of it in every run of the batcher (`run_history`).
-/

namespace TedgeDot.Measure

open Machine

inductive Call where
  | value (k : Nat) (ts : OffsetDateTime) (value : Float) (now : Nat)
  | nothing (k : Nat) (quality : Quality) (now : Nat)
  | endOfPass (iter : IterOrder)
  | flushAll (iter : IterOrder)
  | due (iter : IterOrder) (now : Nat) (wall : OffsetDateTime)
  | setStale (stale : Bool) (now : Nat)

/-- The reading a call offers to the measurements. -/
def Call.offered : Call → List (Nat × Float)
  | .value k _ v _ => [(k, v)]
  | _ => []

def DeviceTable.Located (dev : DeviceTable) (k : Nat) : Prop := ∃ id, dev.index id = some k

/-- The points a call is about are in the index. -/
def Call.Located (dev : DeviceTable) : Call → Prop
  | .value k _ _ _ => dev.Located k
  | .nothing k _ _ => dev.Located k
  | _ => True

variable [Ryu]

namespace Desk

def call (desk : Desk) : Call → Desk × List Emission
  | .value k ts value now => desk.offerValue k ts value now
  | .nothing k quality now => desk.offerNone k quality now
  | .endOfPass iter => desk.endOfPass iter
  | .flushAll iter => desk.flushAll iter
  | .due iter now wall => desk.due iter now wall
  | .setStale stale now => desk.setStale stale now

/-! ## What holds of one device -/

omit [Ryu] in
theorem closeAll_rule {P : DeviceTable → List Part → Prop}
    (hclose : ∀ (desk : Desk) key past, P desk.dev past →
      P (desk.close key).1.dev (past ++ parts (desk.close key).2))
    (desk : Desk) (keys : List Key) {past : List Part} (h : P desk.dev past) :
    P (desk.closeAll keys).1.dev (past ++ parts (desk.closeAll keys).2) := by
  refine exec_outputs (P := fun (desk' : Desk) out => P desk'.dev (past ++ parts out))
    (fun desk' key out hP => ?_) keys (by simpa using h)
  have hkept := hclose desk' key _ hP
  rwa [List.append_assoc, ← parts_append] at hkept

theorem offerValue_sample (desk : Desk) {k : Nat} (ts : OffsetDateTime) (v : Float) (now : Nat)
    (h : (desk.dev.plan k).groupBy.isSample) :
    Quiet desk.dev (desk.offerValue k ts v now).1.dev ∧ (desk.offerValue k ts v now).2 = [] := by
  unfold offerValue
  dsimp only
  split
  · exact ⟨⟨⟨rfl, rfl, SameTopics.refl _⟩, rfl, rfl, rfl⟩, rfl⟩
  · rename_i hg
    cases hk : (desk.dev.plan k).groupBy with
    | sample every => exact absurd hk (hg every)
    | time => simp [hk, GroupBy.isSample] at h
    | frame window => simp [hk, GroupBy.isSample] at h

theorem offerValue_add (desk : Desk) {k : Nat} (ts : OffsetDateTime) (v : Float) (now : Nat)
    (h : (desk.dev.plan k).groupBy.isSample = false) :
    desk.offerValue k ts v now = desk.add k ts v now := by
  unfold offerValue
  dsimp only
  split
  · rename_i hg
    simp [hg, GroupBy.isSample] at h
  · rfl

omit [Ryu] in
theorem offerNone_quiet (desk : Desk) (k : Nat) (quality : Quality) (now : Nat) :
    Quiet desk.dev (desk.offerNone k quality now).1.dev ∧ (desk.offerNone k quality now).2 = [] := by
  unfold offerNone
  split
  · exact ⟨⟨⟨rfl, rfl, SameTopics.refl _⟩, rfl, rfl, rfl⟩, rfl⟩
  · exact ⟨Quiet.refl _, rfl⟩

/-- **Call rule**: a property of a device, its readings and its published series that closing
keeps, that does not depend on slots and samples, and that taking a reading keeps, is kept by
every call. -/
theorem call_rule {P : DeviceTable → List (Nat × Float) → List Part → Prop}
    (hclose : ∀ (desk : Desk) key ins past, P desk.dev ins past →
      P (desk.close key).1.dev ins (past ++ parts (desk.close key).2))
    (hquiet : ∀ dev dev' ins past new, Quiet dev dev' → SampleParts dev new → P dev ins past →
      P dev' ins (past ++ new))
    (hhold : ∀ dev dev' ins past k v, Quiet dev dev' → (dev.plan k).groupBy.isSample →
      P dev ins past → P dev' (ins ++ [(k, v)]) past)
    (desk : Desk) (c : Call) (ins : List (Nat × Float)) (past : List Part)
    (hadd : ∀ k ts v now, c = .value k ts v now → (desk.dev.plan k).groupBy.isSample = false →
      P (desk.add k ts v now).1.dev (ins ++ [(k, v)]) (past ++ parts (desk.add k ts v now).2))
    (h : P desk.dev ins past) :
    P (desk.call c).1.dev (ins ++ c.offered) (past ++ parts (desk.call c).2) := by
  have hquiet' : ∀ desk' : Desk, Quiet desk.dev desk'.dev → P desk'.dev ins past := by
    intro desk' hq
    simpa using hquiet _ _ _ _ [] hq (SampleParts.nil _) h
  cases c with
  | value k ts v now =>
    simp only [call, Call.offered]
    cases hg : (desk.dev.plan k).groupBy.isSample with
    | true =>
      obtain ⟨hq, hout⟩ := offerValue_sample desk ts v now hg
      rw [hout, parts_nil, List.append_nil]
      exact hhold _ _ _ _ k v hq hg h
    | false =>
      rw [offerValue_add desk ts v now hg]
      exact hadd k ts v now rfl hg
  | nothing k quality now =>
    obtain ⟨hq, hout⟩ := offerNone_quiet desk k quality now
    simp only [call, Call.offered, hout, parts_nil, List.append_nil]
    exact hquiet' _ hq
  | endOfPass iter =>
    simp only [call, Call.offered, List.append_nil]
    exact closeAll_rule (P := fun dev past => P dev ins past)
      (fun desk key past => hclose desk key ins past) desk _ h
  | flushAll iter =>
    simp only [call, Call.offered, List.append_nil]
    exact closeAll_rule (P := fun dev past => P dev ins past)
      (fun desk key past => hclose desk key ins past) desk _ h
  | due iter now wall =>
    simp only [call, Call.offered, List.append_nil, due, parts_append]
    rw [← List.append_assoc]
    -- first the ended frames close, then the samplers run
    have hclosed := closeAll_rule (P := fun dev past => P dev ins past)
      (fun desk key past => hclose desk key ins past) desk
      ((((iter.apply desk.dev.openMsgs.keys).filterMap (endedAt desk.dev now)).mergeSort
        fun a b => a.1 < b.1 || (a.1 == b.1 && a.2.1 ≤ b.2.1)).map Prod.snd) h
    generalize desk.closeAll _ = closed at hclosed ⊢
    obtain ⟨hq, -, hsampled⟩ := exec_runSampler now wall closed.1
      (List.range closed.1.dev.samplers.length)
    exact hquiet _ _ _ _ _ hq hsampled hclosed
  | setStale stale now =>
    simp only [call, Call.offered, List.append_nil]
    have hq : Quiet desk.dev (desk.setStale stale now).1.dev :=
      ⟨⟨rfl, rfl, SameTopics.refl _⟩, rfl, rfl, rfl⟩
    simpa [setStale] using hquiet' _ hq

theorem fill_fixed (desk : Desk) (key : Key) (e : Entry) :
    Fixed desk.dev (desk.fill key e).1.dev := by
  cases ho : (desk.dev.layers key)[desk.dev.depth e.point]? with
  | none =>
    unfold fill
    simp only [ho]
    exact Fixed.refl _
  | some o => exact (fill_spec desk key e ho).1.toFixed

theorem add_fixed (desk : Desk) (k : Nat) (ts : OffsetDateTime) (v : Float) (now : Nat) :
    Fixed desk.dev (desk.add k ts v now).1.dev := by
  unfold add
  dsimp only
  refine Fixed.trans ?_ (fill_fixed _ _ _)
  split
  · have hclosed := (close_spec desk ((desk.dev.plan k).topic, (desk.dev.plan k).groupBy)).1.toFixed
    split
    · exact hclosed.trans ⟨rfl, rfl, SameTopics.refl _⟩
    · exact hclosed
  · split
    · exact ⟨rfl, rfl, SameTopics.refl _⟩
    · exact Fixed.refl _

theorem call_fixed (desk : Desk) (c : Call) : Fixed desk.dev (desk.call c).1.dev := by
  refine call_rule (P := fun dev _ _ => Fixed desk.dev dev)
    (fun desk' key _ _ h => h.trans (close_spec desk' key).1.toFixed)
    (fun _ _ _ _ _ hq _ h => h.trans hq.toFixed)
    (fun _ _ _ _ _ _ hq _ h => h.trans hq.toFixed)
    desk c [] [] (fun k ts v now _ _ => add_fixed desk k ts v now)
    (Fixed.refl _)

end Desk

/-! ## Runs of calls -/

namespace Batcher

def call (b : Batcher) (c : Nat × Call) : Batcher × List (Nat × Emission) :=
  b.onDevice c.1 fun desk => desk.call c.2

omit [Ryu] in
/-- The calls on devices that a call on the batcher makes. -/
def calls (b : Batcher) : Op → List (Nat × Call)
  | .offer sample now =>
    match b.locate sample.device sample.point with
    | none => []
    | some (d, k) =>
      let plan := (b.devices[d]?.map fun dev => dev.plan k).getD default
      match b.seriesValue plan sample with
      | none => [(d, .nothing k sample.quality now)]
      | some value => [(d, .value k sample.ts value now)]
  | .endOfPass iter => (List.range b.devices.length).map fun d => (d, .endOfPass (iter d))
  | .flushAll iter => (List.range b.devices.length).map fun d => (d, .flushAll (iter d))
  | .due iter now wall => (List.range b.devices.length).map fun d => (d, .due (iter d) now wall)
  | .setStale device stale now =>
    match b.byName device with
    | none => []
    | some d => [(d, .setStale stale now)]

/-- An operation of the batcher is its calls, one after the other. -/
theorem step_eq_calls (b : Batcher) (op : Op) :
    ((step b op).1, (step b op).2.emissions) = exec call b (b.calls op) := by
  cases op with
  | offer sample now =>
    simp only [step, offer, calls]
    cases b.locate sample.device sample.point with
    | none => rfl
    | some dk =>
      obtain ⟨d, k⟩ := dk
      dsimp only
      cases b.seriesValue ((b.devices[d]?.map fun dev => dev.plan k).getD default) sample with
      | none => simp [call, Desk.call]
      | some value => simp [call, Desk.call]
  | endOfPass iter =>
    simp only [calls, exec_map]
    rfl
  | flushAll iter =>
    simp only [calls, exec_map]
    rfl
  | due iter now wall =>
    simp only [calls, exec_map]
    rfl
  | setStale device stale now =>
    simp only [step, setStale, calls]
    cases b.byName device with
    | none => rfl
    | some d => simp [call, Desk.call]

/-! ### What calls depend on -/

omit [Ryu] in
/-- What a batcher's calls on devices depend on: no call changes it. -/
def layout (b : Batcher) :
    (String → Option Nat) × Bool × List (List PointPlan × (String → Option Nat)) :=
  (b.byName, b.includeBoolean, b.devices.map fun dev => (dev.points, dev.index))

omit [Ryu] in
theorem layout_device {b b' : Batcher} (h : b'.layout = b.layout) (d : Nat) :
    (b'.devices[d]?).map (fun dev => (dev.points, dev.index)) =
      (b.devices[d]?).map fun dev => (dev.points, dev.index) := by
  have hdevices : b'.devices.map (fun dev => (dev.points, dev.index)) =
      b.devices.map fun dev => (dev.points, dev.index) := congrArg (fun l => l.2.2) h
  simpa only [List.getElem?_map] using congrArg (fun l : List _ => l[d]?) hdevices

omit [Ryu] in
theorem layout_length {b b' : Batcher} (h : b'.layout = b.layout) :
    b'.devices.length = b.devices.length := by
  simpa [layout] using congrArg (fun l => l.2.2.length) h

section Layout

variable {b b' : Batcher}

omit [Ryu] in
theorem locate_congr (h : b'.layout = b.layout) (device point : String) :
    b'.locate device point = b.locate device point := by
  have hname : b'.byName = b.byName := congrArg (fun l => l.1) h
  have hindex : ∀ d : Nat, (b'.devices[d]?.bind fun dev => dev.index point) =
      b.devices[d]?.bind fun dev => dev.index point := by
    intro d
    have hd := layout_device h d
    cases hdev' : b'.devices[d]? <;> cases hdev : b.devices[d]? <;> simp_all
  simp only [locate, hname, hindex]

omit [Ryu] in
theorem plan_congr (h : b'.layout = b.layout) (d k : Nat) :
    (b'.devices[d]?.map fun dev => dev.plan k) = b.devices[d]?.map fun dev => dev.plan k := by
  have hd := layout_device h d
  cases hdev' : b'.devices[d]? <;> cases hdev : b.devices[d]? <;> simp_all [DeviceTable.plan]

omit [Ryu] in
theorem seriesValue_congr (h : b'.layout = b.layout) (plan : PointPlan) (sample : Sample) :
    b'.seriesValue plan sample = b.seriesValue plan sample := by
  have hboolean : b'.includeBoolean = b.includeBoolean := congrArg (fun l => l.2.1) h
  simp only [seriesValue, hboolean]

omit [Ryu] in
theorem calls_congr (h : b'.layout = b.layout) (op : Op) : b'.calls op = b.calls op := by
  have hname : b'.byName = b.byName := congrArg (fun l => l.1) h
  cases op <;>
    simp only [calls, hname, locate_congr h, layout_length h, plan_congr h, seriesValue_congr h]

theorem routing_congr (h : b'.layout = b.layout) (op : Op) :
    (step b' op).2.routing = (step b op).2.routing := by
  cases op with
  | offer sample now =>
    simp only [step, offer, locate_congr h]
    cases b.locate sample.device sample.point with
    | none => rfl
    | some dk =>
      obtain ⟨d, k⟩ := dk
      dsimp only
      rw [plan_congr h, seriesValue_congr h]
      cases b.seriesValue ((b.devices[d]?.map fun dev => dev.plan k).getD default) sample <;> rfl
  | _ => rfl

end Layout

variable {b : Batcher} {d : Nat} {dev : DeviceTable} {C : DeviceTable → Call → Prop}

theorem call_of_some (h : b.devices[d]? = some dev) (c : Call) :
    b.call (d, c) =
      ({ b with
          devices := b.devices.set d
            (Desk.call { dev := dev, publishedUnits := b.publishedUnits } c).1.dev
          publishedUnits :=
            (Desk.call { dev := dev, publishedUnits := b.publishedUnits } c).1.publishedUnits },
        (Desk.call { dev := dev, publishedUnits := b.publishedUnits } c).2.map fun e => (d, e)) := by
  simp only [call, onDevice, h]

theorem call_of_none (h : b.devices[d]? = none) (c : Call) : b.call (d, c) = (b, []) := by
  simp only [call, onDevice, h]

theorem call_device {d d' : Nat} {c : Call} {dev' : DeviceTable}
    (h : (b.call (d', c)).1.devices[d]? = some dev') :
    ∃ dev, b.devices[d]? = some dev ∧
      dev' = if d' = d then (Desk.call { dev := dev, publishedUnits := b.publishedUnits } c).1.dev
        else dev := by
  cases hdev : b.devices[d']? with
  | none =>
    rw [call_of_none hdev] at h
    have hne : d' ≠ d := fun heq => by simp [heq, h] at hdev
    exact ⟨dev', h, by simp [hne]⟩
  | some dev =>
    rw [call_of_some hdev] at h
    by_cases heq : d' = d
    · subst heq
      rw [List.getElem?_set_self (List.getElem?_eq_some_iff.mp hdev).1, Option.some.injEq] at h
      exact ⟨dev, hdev, by rw [if_pos rfl, h]⟩
    · rw [List.getElem?_set_ne heq] at h
      exact ⟨dev', h, by rw [if_neg heq]⟩

/-- No call changes the layout. -/
theorem layout_call (b : Batcher) (c : Nat × Call) : (b.call c).1.layout = b.layout := by
  obtain ⟨d, c⟩ := c
  cases hdev : b.devices[d]? with
  | none => rw [call_of_none hdev]
  | some dev =>
    have hfixed := Desk.call_fixed { dev := dev, publishedUnits := b.publishedUnits } c
    rw [call_of_some hdev]
    simp only [layout, List.map_set, hfixed.points, hfixed.index]
    congr 2
    apply List.ext_getElem?
    intro i
    rw [List.getElem?_set]
    split
    · rename_i hi
      subst hi
      simp only [List.length_map, List.getElem?_map, hdev, Option.map_some]
      rw [if_pos (List.getElem?_eq_some_iff.mp hdev).1]
    · rfl

theorem layout_step (b : Batcher) (op : Op) : (step b op).1.layout = b.layout := by
  rw [congrArg Prod.fst (step_eq_calls b op)]
  exact final_induction (P := fun b' : Batcher => b'.layout = b.layout)
    (fun b' c h => (layout_call b' c).trans h) _ rfl

/-- **A run of the batcher is a run of calls on its devices.** -/
theorem run_eq_calls (b : Batcher) (ops : List Op) :
    exec call b (ops.flatMap b.calls) =
      (final step b ops, (log step b ops).flatMap fun e => e.2.emissions) := by
  induction ops generalizing b with
  | nil => rfl
  | cons op ops ih =>
    have hstep := step_eq_calls b op
    have hcalls : (step b op).1.calls = b.calls := funext (calls_congr (layout_step b op))
    rw [List.flatMap_cons, exec_append, ← hstep, ← hcalls, ih]
    simp

/-! ### One device in a run -/

omit [Ryu] in
/-- The readings a run of calls offers to device `d`. -/
def offeredTo (d : Nat) (cs : List (Nat × Call)) : List (Nat × Float) :=
  cs.flatMap fun c => if c.1 = d then c.2.offered else []

omit [Ryu] in
/-- The series a run published for device `d`. -/
def partsOf (d : Nat) (out : List (Nat × Emission)) : List Part :=
  parts ((out.filter fun e => e.1 = d).map Prod.snd)

omit [Ryu] in
@[simp] theorem partsOf_append (d : Nat) (out out' : List (Nat × Emission)) :
    partsOf d (out ++ out') = partsOf d out ++ partsOf d out' := by
  simp [partsOf]

omit [Ryu] in
theorem partsOf_map (d d' : Nat) (out : List Emission) :
    partsOf d (out.map fun e => (d', e)) = if d' = d then parts out else [] := by
  by_cases h : d' = d
  · simp [partsOf, h, List.filter_map, Function.comp_def]
  · simp [partsOf, h, List.filter_map, Function.comp_def]

/-- The condition `C` on a call and the table it works on, for each call that a call on the
batcher makes. -/
def Meets (C : DeviceTable → Call → Prop) (b : Batcher) (c : Nat × Call) : Prop :=
  ∀ dev, b.devices[c.1]? = some dev → C dev c.2

omit [Ryu] in
instance decidableMeets (C : DeviceTable → Call → Prop) [∀ dev c, Decidable (C dev c)] (b : Batcher)
    (c : Nat × Call) : Decidable (Meets C b c) :=
  match h : b.devices[c.1]? with
  | none => .isTrue fun dev hdev => by simp [h] at hdev
  | some dev =>
    decidable_of_iff (C dev c.2)
      ⟨fun hC dev' hdev' => Option.some.inj (h.symm.trans hdev') ▸ hC, fun hC => hC dev h⟩

/-- **Device rule**: what the calls on a device keep of its table, its readings and its published
series holds of each device in a run of calls. -/
theorem run_history {P : DeviceTable → List (Nat × Float) → List Part → Prop}
    (hcall : ∀ (desk : Desk) c ins past, C desk.dev c → P desk.dev ins past →
      P (desk.call c).1.dev (ins ++ c.offered) (past ++ parts (desk.call c).2))
    {cs : List (Nat × Call)} (hdev : b.devices[d]? = some dev) (hC : AllSteps call (Meets C) b cs)
    (h : P dev [] []) :
    ∃ dev', (exec call b cs).1.devices[d]? = some dev' ∧
      P dev' (offeredTo d cs) (partsOf d (exec call b cs).2) := by
  have hstart : ∃ dev, b.devices[d]? = some dev ∧ P dev [] (partsOf d []) := ⟨dev, hdev, h⟩
  refine exec_history
    (P := fun (b : Batcher) ins outs => ∃ dev, b.devices[d]? = some dev ∧ P dev ins (partsOf d outs))
    (fun c => if c.1 = d then c.2.offered else []) ?_ hC hstart
  rintro b ⟨d', c⟩ ins outs hmeets ⟨dev, hdev, hP⟩
  cases hdev' : b.devices[d']? with
  | none =>
    have hne : d' ≠ d := fun heq => by simp [heq, hdev] at hdev'
    rw [call_of_none hdev']
    simpa [hne] using ⟨dev, hdev, hP⟩
  | some dev' =>
    rw [call_of_some hdev', partsOf_append, partsOf_map]
    by_cases heq : d' = d
    · subst heq
      obtain rfl : dev' = dev := Option.some.inj (hdev'.symm.trans hdev)
      have hlt := (List.getElem?_eq_some_iff.mp hdev).1
      simp only [↓reduceIte]
      refine ⟨_, by rw [List.getElem?_set_self hlt], ?_⟩
      exact hcall { dev := dev', publishedUnits := b.publishedUnits } c _ _ (hmeets _ hdev') hP
    · simp only [heq, ↓reduceIte, List.append_nil]
      refine ⟨dev, ?_, hP⟩
      simpa [List.getElem?_set_ne heq] using hdev

theorem exec_call_device (hdev : b.devices[d]? = some dev) (cs : List Call) :
    (exec call b (cs.map fun c => (d, c))).2 =
      (exec Desk.call { dev := dev, publishedUnits := b.publishedUnits } cs).2.map
        fun e => (d, e) := by
  induction cs generalizing b dev with
  | nil => rfl
  | cons c cs ih =>
    have hlt := (List.getElem?_eq_some_iff.mp hdev).1
    rw [List.map_cons, exec_cons, exec_cons, call_of_some hdev, List.map_append]
    exact congrArg (_ ++ ·) (ih (List.getElem?_set_self hlt))

/-! ### One device in a run of the batcher -/

omit [Ryu] in
/-- An operation is one call at its device, or calls that offer nothing. -/
theorem calls_cases (b : Batcher) (op : Op) :
    (∃ c, b.calls op = [c] ∧ Meets (fun dev c => c.Located dev) b c) ∨
      ∀ c ∈ b.calls op, c.2.offered = [] ∧ ∀ dev, c.2.Located dev := by
  cases op with
  | offer sample now =>
    simp only [calls]
    cases hlocate : b.locate sample.device sample.point with
    | none => simp
    | some dk =>
      obtain ⟨d, k⟩ := dk
      have hlocated : ∀ dev, b.devices[d]? = some dev → dev.Located k := by
        intro dev hdev
        refine ⟨sample.point, ?_⟩
        simp only [locate, Option.bind_eq_some_iff, Option.map_eq_some_iff, Prod.mk.injEq] at hlocate
        obtain ⟨d', -, k', ⟨dev', hdev', hk'⟩, rfl, rfl⟩ := hlocate
        obtain rfl : dev' = dev := Option.some.inj (hdev'.symm.trans hdev)
        exact hk'
      left
      dsimp only
      cases b.seriesValue ((b.devices[d]?.map fun dev => dev.plan k).getD default) sample with
      | none => exact ⟨_, rfl, hlocated⟩
      | some value => exact ⟨_, rfl, hlocated⟩
  | endOfPass iter => simp [calls, Call.offered, Call.Located]
  | flushAll iter => simp [calls, Call.offered, Call.Located]
  | due iter now wall => simp [calls, Call.offered, Call.Located]
  | setStale device stale now =>
    simp only [calls]
    cases b.byName device with
    | none => simp
    | some d => simp [Call.offered, Call.Located]

/-- The condition `C` on each call that an operation makes. -/
def OpMeets (C : DeviceTable → Call → Prop) (b : Batcher) (op : Op) : Prop :=
  ∀ c ∈ b.calls op, Meets C b c

omit [Ryu] in
instance decidableOpMeets (C : DeviceTable → Call → Prop) [∀ dev c, Decidable (C dev c)]
    (b : Batcher) (op : Op) : Decidable (OpMeets C b op) :=
  inferInstanceAs (Decidable (∀ c ∈ b.calls op, Meets C b c))

theorem allSteps_calls (hfree : ∀ dev c, c.offered = [] → C dev c) {ops : List Op}
    (hC : AllSteps step (OpMeets C) b ops) :
    AllSteps call (Meets fun dev c => c.Located dev ∧ C dev c) b (ops.flatMap b.calls) := by
  induction ops generalizing b with
  | nil => trivial
  | cons op ops ih =>
    have hstep := congrArg Prod.fst (step_eq_calls b op)
    have hcalls : (step b op).1.calls = b.calls := funext (calls_congr (layout_step b op))
    rw [List.flatMap_cons, allSteps_append]
    refine ⟨?_, ?_⟩
    · rcases calls_cases b op with ⟨c, hc, hlocated⟩ | hnone
      · have hmeets := hC.1
        rw [OpMeets, hc] at hmeets
        rw [hc]
        exact ⟨fun dev hdev => ⟨hlocated dev hdev, hmeets c (by simp) dev hdev⟩, trivial⟩
      · exact allSteps_of_mem
          (fun b' c hc dev _ => ⟨(hnone c hc).2 dev, hfree dev c.2 (hnone c hc).1⟩) b
    · have hrest := ih hC.2
      rwa [hcalls, show (step b op).1 = final call b (b.calls op) from hstep] at hrest

theorem layout_final (b : Batcher) (ops : List Op) : (final step b ops).layout = b.layout :=
  final_induction (P := fun b' : Batcher => b'.layout = b.layout)
    (fun b' op h => (layout_step b' op).trans h) ops rfl

/-- **Device rule** for runs of the batcher. -/
theorem device_history {P : DeviceTable → List (Nat × Float) → List Part → Prop}
    (hfree : ∀ dev c, c.offered = [] → C dev c)
    (hcall : ∀ (desk : Desk) c ins past, c.Located desk.dev → C desk.dev c → P desk.dev ins past →
      P (desk.call c).1.dev (ins ++ c.offered) (past ++ parts (desk.call c).2))
    {ops : List Op} (hC : AllSteps step (OpMeets C) b ops)
    (h : ∀ dev, b.devices[d]? = some dev → P dev [] [])
    (hdev : (final step b ops).devices[d]? = some dev) :
    P dev (offeredTo d (ops.flatMap b.calls))
      (partsOf d ((log step b ops).flatMap fun e => e.2.emissions)) := by
  obtain ⟨dev₀, hdev₀⟩ : ∃ dev₀, b.devices[d]? = some dev₀ := by
    have hlayout := layout_device (layout_final b ops) d
    rw [hdev] at hlayout
    cases hdev₀ : b.devices[d]? with
    | none => simp [hdev₀] at hlayout
    | some dev₀ => exact ⟨dev₀, rfl⟩
  obtain ⟨dev', hdev', hP⟩ := run_history (fun desk c ins past hc => hcall desk c ins past hc.1 hc.2)
    hdev₀ (allSteps_calls hfree hC) (h dev₀ hdev₀)
  rw [run_eq_calls] at hdev' hP
  obtain rfl : dev' = dev := Option.some.inj (hdev'.symm.trans hdev)
  exact hP

end Batcher

end TedgeDot.Measure
