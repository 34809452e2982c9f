import TedgeDot.Measure.Built

/-!
# Message sizes

A message is split before its estimated size passes `SIZE_BUDGET`. The estimate is made twice, in
`add` and in `sample`, of what is being filled, the comma and the piece to come; both are
`overflows`, and what is filled after a piece went in always fits (`fits_next`). So every message
holds a single series or is within the budget, in every run (`emissions_fit`).
-/

namespace TedgeDot.Measure

open Machine Desk

variable [Ryu]

/-! ## What fits a message -/

theorem bodyText_singleton (e : Entry) : bodyText [e] = e.piece := by
  rw [bodyText, List.map_singleton, String.intercalate_singleton]

theorem size_bodyText_append {entries : List Entry} (h : entries ≠ []) (e : Entry) :
    (bodyText (entries ++ [e])).utf8ByteSize =
      (bodyText entries).utf8ByteSize + 1 + e.piece.utf8ByteSize := by
  have hne : entries.map Entry.piece ≠ [] := by simpa using h
  rw [bodyText, List.map_append, String.intercalate_append_of_ne_nil hne (by simp)]
  simp only [List.map_cons, List.map_nil, String.intercalate_singleton, String.utf8ByteSize_append]
  rfl

/-- The entries one message may hold: one of any size, or as many as the budget allows. -/
def Fits (groupLen : Nat) (entries : List Entry) : Prop :=
  entries.length = 1 ∨
    estimate groupLen (bodyText entries).utf8ByteSize entries.length ≤ SIZE_BUDGET

theorem fits_next (groupLen : Nat) (entries : List Entry) (e : Entry) :
    Fits groupLen (if overflows groupLen entries e then [e] else entries ++ [e]) := by
  split
  · exact .inl rfl
  · rename_i hfull
    cases entries with
    | nil => exact .inl rfl
    | cons first rest =>
      right
      rw [size_bodyText_append (List.cons_ne_nil first rest), List.length_append,
        List.length_singleton]
      simpa [overflows] using hfull

def Emission.Fits : Emission → Prop
  | .units _ => True
  | .series topic _ _ entries _ => Measure.Fits topic.groupJson.utf8ByteSize entries

/-- The bytes of the group name in the messages of a key. -/
def DeviceTable.groupLen (dev : DeviceTable) (t : Nat) : Nat := (dev.topic t).groupJson.utf8ByteSize

omit [Ryu] in
theorem Fixed.groupLen {dev dev' : DeviceTable} (h : Fixed dev dev') (t : Nat) :
    dev'.groupLen t = dev.groupLen t := by
  rw [DeviceTable.groupLen, h.topic_groupJson, DeviceTable.groupLen]

/-- What is published of entries that fit, fits. -/
theorem publish_fits (desk : Desk) (key : Key) (time : OffsetDateTime) {entries : List Entry}
    (ends : Bool) (h : Fits (desk.dev.groupLen key.1) entries) :
    ∀ e ∈ (desk.publish key time entries ends).2, e.Fits := by
  have hbuilt := settleUnits_built (desk.dev.topic key.1) desk.publishedUnits
  have hunits : ∀ e ∈ (settleUnits (desk.dev.topic key.1) desk.publishedUnits).2.2, e.Fits := by
    unfold settleUnits
    dsimp only
    split
    · simp
    · split
      · simp
      · simp [Emission.Fits]
  intro e he
  simp only [publish, List.mem_append, List.mem_singleton] at he
  rcases he with he | rfl
  · exact hunits e he
  · have hjson : (settleUnits (desk.dev.topic key.1) desk.publishedUnits).1.groupJson =
        (desk.dev.topic key.1).groupJson := congrArg (fun b => b.2.1) hbuilt
    rw [Emission.Fits, hjson]
    exact h

/-! ## Open messages -/

def DeviceTable.Fitting (dev : DeviceTable) : Prop :=
  ∀ key, ∀ o ∈ dev.layers key, o.entries ≠ [] → Fits (dev.groupLen key.1) o.entries

theorem DeviceTable.Fitting.quiet {dev dev' : DeviceTable} (h : dev.Fitting) (hq : Quiet dev dev') :
    dev'.Fitting := by
  intro key o ho hne
  rw [hq.layers] at ho
  rw [hq.toFixed.groupLen]
  exact h key o ho hne

/-- Closing a key publishes nothing too long. -/
theorem close_fits {desk : Desk} (h : desk.dev.Fitting) (key : Key) :
    (∀ e ∈ (desk.close key).2, e.Fits) ∧ (desk.close key).1.dev.Fitting := by
  have hlayers : ∀ (layers : List Open) (desk : Desk),
      (∀ o ∈ layers, o.entries ≠ [] → Fits (desk.dev.groupLen key.1) o.entries) →
        ∀ e ∈ (exec (closeLayer key) desk layers).2, e.Fits := by
    intro layers
    induction layers with
    | nil => simp
    | cons o layers ih =>
      intro desk ho e he
      rw [exec_cons, List.mem_append] at he
      rcases he with he | he
      · unfold closeLayer at he
        dsimp only at he
        split at he
        · simp at he
        · rename_i hn
          refine publish_fits _ key o.time true ?_ e he
          exact ho o List.mem_cons_self fun hnil => hn (by rw [Open.n, hnil]; rfl)
      · refine ih (closeLayer key desk o).1 (fun o' ho' hne => ?_) e he
        rw [(closeLayer_spec key desk o).1.toFixed.groupLen]
        exact ho o' (List.mem_cons_of_mem o ho') hne
  constructor
  · unfold close
    split
    · simp
    · rename_i layers hlookup
      apply hlayers
      intro o ho
      exact h key o (by simpa [DeviceTable.layers, hlookup] using ho)
  · have hclosed := (close_spec desk key).1
    intro key' o ho hne
    rw [hclosed.layers] at ho
    rw [hclosed.toFixed.groupLen]
    split at ho
    · cases ho
    · exact h key' o ho hne

theorem closeAll_fits {desk : Desk} (h : desk.dev.Fitting) (keys : List Key) :
    (∀ e ∈ (desk.closeAll keys).2, e.Fits) ∧ (desk.closeAll keys).1.dev.Fitting := by
  refine exec_outputs (P := fun (desk : Desk) (out : List Emission) =>
    (∀ e ∈ out, e.Fits) ∧ desk.dev.Fitting) (fun desk key out hP => ?_) keys ⟨by simp, h⟩
  obtain ⟨hout, hfitting⟩ := close_fits hP.2 key
  exact ⟨fun e he => (List.mem_append.mp he).elim (hP.1 e) (hout e), hfitting⟩

theorem openLayer_fits {dev : DeviceTable} (h : dev.Fitting) (key : Key) (ts : OffsetDateTime)
    (opened : Nat) : (openLayer dev key ts opened).Fitting := by
  intro key' o ho hne
  have hlayers := @layers_of_insert dev (openLayer dev key ts opened) key _ rfl key'
  rw [hlayers] at ho
  split at ho
  · rename_i heq
    subst heq
    rcases List.mem_append.mp ho with ho | ho
    · exact h key' o ho hne
    · rw [List.mem_singleton.mp ho] at hne
      exact absurd rfl hne
  · exact h key' o ho hne

/-- Filling splits before a part becomes too long. -/
theorem fill_fits {desk : Desk} (h : desk.dev.Fitting) (key : Key) (e : Entry) :
    (∀ x ∈ (desk.fill key e).2, x.Fits) ∧ (desk.fill key e).1.dev.Fitting := by
  cases ho : (desk.dev.layers key)[desk.dev.depth e.point]? with
  | none =>
    unfold fill
    simp only [ho]
    exact ⟨by simp, h⟩
  | some o =>
    have hmem : o ∈ desk.dev.layers key := List.mem_of_getElem? ho
    constructor
    · unfold fill
      simp only [ho]
      split
      · rename_i hfull
        exact publish_fits desk key o.time false (h key o hmem (ne_nil_of_overflows hfull))
      · simp
    · have hfilled := (fill_spec desk key e ho).1
      intro key' o' ho' hne
      rw [hfilled.layers] at ho'
      rw [hfilled.toFixed.groupLen]
      split at ho'
      · rename_i heq
        subst heq
        rcases List.mem_or_eq_of_mem_set ho' with ho' | rfl
        · exact h key' o' ho' hne
        · exact fits_next _ o.entries e
      · exact h key' o' ho' hne

/-- Adding a value, with the close that may come before. -/
theorem add_fits {desk : Desk} (h : desk.dev.Fitting) (k : Nat) (ts : OffsetDateTime) (v : Float)
    (now : Nat) :
    (∀ e ∈ (desk.add k ts v now).2, e.Fits) ∧ (desk.add k ts v now).1.dev.Fitting := by
  let key : Key := ((desk.dev.plan k).topic, (desk.dev.plan k).groupBy)
  have hclosed (must : Bool) :
      (∀ e ∈ (if must then desk.close key else (desk, [])).2, e.Fits) ∧
        (if must then desk.close key else (desk, [])).1.dev.Fitting := by
    cases must with
    | true => exact close_fits h key
    | false => exact ⟨by simp, h⟩
  have hopened {desk : Desk} (h : desk.dev.Fitting) (opened : Nat) :
      (if desk.dev.depth k = (desk.dev.layers key).length then
        { desk with dev := openLayer desk.dev key ts opened } else desk).dev.Fitting := by
    split
    · exact openLayer_fits h key ts opened
    · exact h
  unfold add
  dsimp only
  obtain ⟨hout, hfitting⟩ := fill_fits (hopened (hclosed _).2 _) key
    { point := k, key := (desk.dev.plan k).seriesKey, value := v }
  exact ⟨fun e he => (List.mem_append.mp he).elim ((hclosed _).1 e) (hout e), hfitting⟩

/-! ## Samples -/

/-- A sample being filled fits, and so does what its device has open. -/
structure SampleFits (groupLen : Nat → Nat) (s : Sampling) : Prop where
  table : s.desk.dev.groupLen = groupLen
  bodies : ∀ t, s.bodies t ≠ [] → Fits (groupLen t) (s.bodies t)

/-- One value of a sample. -/
theorem sampleValue_fits {groupLen : Nat → Nat} {s : Sampling} (h : SampleFits groupLen s)
    (every : Nat) (wall : OffsetDateTime) (t : Nat) (e : Entry) :
    (∀ x ∈ (sampleValue every wall t s e).2, x.Fits) ∧
      SampleFits groupLen (sampleValue every wall t s e).1 := by
  have hfixed := (sampleValue_sampled every wall t s e).toQuiet.toFixed
  refine ⟨?_, ?_, fun t' hne => ?_⟩
  · unfold sampleValue
    dsimp only
    split
    · rename_i hfull
      refine publish_fits s.desk _ wall false ?_
      rw [h.table]
      exact h.bodies t (ne_nil_of_overflows hfull)
    · simp
  · rw [← h.table]
    exact funext hfixed.groupLen
  · simp only [sampleValue] at hne ⊢
    by_cases ht : t' = t
    · subst ht
      rw [Function.update_self, ← h.table]
      exact fits_next _ (s.bodies t') e
    · rw [Function.update_of_ne ht] at hne ⊢
      exact h.bodies t' hne

theorem samplePoint_fits {groupLen : Nat → Nat} {s : Sampling} (h : SampleFits groupLen s)
    (every now : Nat) (wall : OffsetDateTime) (k : Nat) :
    (∀ x ∈ (samplePoint every now wall s k).2, x.Fits) ∧
      SampleFits groupLen (samplePoint every now wall s k).1 := by
  by_cases hk : (s.desk.dev.plan k).groupBy = .sample every
  · rw [samplePoint_of_eq hk]
    refine exec_outputs (P := fun (s : Sampling) (out : List Emission) =>
      (∀ x ∈ out, x.Fits) ∧ SampleFits groupLen s) (fun s e out hP => ?_) _ ⟨by simp, ?_⟩
    · obtain ⟨hout, hfitting⟩ := sampleValue_fits hP.2 every wall _ e
      exact ⟨fun x hx => (List.mem_append.mp hx).elim (hP.1 x) (hout x), hfitting⟩
    · exact ⟨h.table, h.bodies⟩
  · rw [samplePoint_of_ne hk]
    exact ⟨by simp, h⟩

/-- A whole sample. -/
theorem sample_fits (every now : Nat) (wall : OffsetDateTime) (desk : Desk) :
    ∀ e ∈ (desk.sample every now wall).2, e.Fits := by
  have hpoints : ∀ ks : List Nat,
      (∀ x ∈ (exec (samplePoint every now wall) ⟨desk, fun _ => []⟩ ks).2, x.Fits) ∧
        SampleFits desk.dev.groupLen
          (exec (samplePoint every now wall) ⟨desk, fun _ => []⟩ ks).1 := by
    intro ks
    refine exec_outputs (P := fun (s : Sampling) (out : List Emission) =>
      (∀ x ∈ out, x.Fits) ∧ SampleFits desk.dev.groupLen s) (fun s k out hP => ?_)
      (s := ⟨desk, fun _ => []⟩) ks ⟨by simp, rfl, by simp⟩
    obtain ⟨hout, hfitting⟩ := samplePoint_fits hP.2 every now wall k
    exact ⟨fun x hx => (List.mem_append.mp hx).elim (hP.1 x) (hout x), hfitting⟩
  obtain ⟨hout, hfitting⟩ := hpoints (List.range desk.dev.points.length)
  unfold sample
  dsimp only
  generalize exec (samplePoint every now wall) ⟨desk, fun _ => []⟩
    (List.range desk.dev.points.length) = s at hout hfitting
  have hrest : ∀ ts : List Nat,
      (∀ e ∈ (exec (sampleRest every wall s.1.bodies) s.1.desk ts).2, e.Fits) ∧
        (exec (sampleRest every wall s.1.bodies) s.1.desk ts).1.dev.groupLen =
          desk.dev.groupLen := by
    intro ts
    refine exec_outputs (P := fun (desk' : Desk) (out : List Emission) =>
      (∀ e ∈ out, e.Fits) ∧ desk'.dev.groupLen = desk.dev.groupLen) (fun desk' t out hP => ?_) ts
      ⟨by simp, hfitting.table⟩
    refine ⟨fun e he => (List.mem_append.mp he).elim (hP.1 e) fun he => ?_, ?_⟩
    · unfold sampleRest at he
      split at he
      · simp at he
      · rename_i hne
        refine publish_fits desk' _ wall true ?_ e he
        rw [hP.2]
        exact hfitting.bodies t fun hnil => hne (by rw [hnil]; rfl)
    · rw [← hP.2]
      exact funext (sampleRest_sampled every wall s.1.bodies desk' t).toQuiet.toFixed.groupLen
  intro e he
  exact (List.mem_append.mp he).elim (hout e) ((hrest _).1 e)

/-! ## In every run -/

/-- Every call. -/
theorem call_fits {desk : Desk} (h : desk.dev.Fitting) (c : Call) :
    (∀ e ∈ (desk.call c).2, e.Fits) ∧ (desk.call c).1.dev.Fitting := by
  cases c with
  | value k ts v now =>
    cases hg : (desk.dev.plan k).groupBy.isSample with
    | true =>
      obtain ⟨hq, hout⟩ := offerValue_sample desk ts v now hg
      simp only [call, hout]
      exact ⟨by simp, h.quiet hq⟩
    | false =>
      simp only [call, offerValue_add desk ts v now hg]
      exact add_fits h k ts v now
  | nothing k quality now =>
    obtain ⟨hq, hout⟩ := offerNone_quiet desk k quality now
    simp only [call, hout]
    exact ⟨by simp, h.quiet hq⟩
  | endOfPass iter => exact closeAll_fits h _
  | flushAll iter => exact closeAll_fits h _
  | due iter now wall =>
    simp only [call, due]
    have hclosed := closeAll_fits h
      ((((iter.apply desk.dev.openMsgs.keys).filterMap (endedAt desk.dev now)).mergeSort
        fun a b => a.1 < b.1 || (a.1 == b.1 && a.2.1 ≤ b.2.1)).map Prod.snd)
    generalize desk.closeAll _ = closed at hclosed ⊢
    -- after the timers, each sampler publishes what it has
    have hsampler (desk : Desk) (i : Nat) : ∀ e ∈ (runSampler now wall desk i).2, e.Fits := by
      unfold runSampler
      split
      · simp
      · split
        · simp
        · exact sample_fits _ now wall desk
    have hsampled (is : List Nat) :
        (∀ e ∈ (exec (runSampler now wall) closed.1 is).2, e.Fits) ∧
          (exec (runSampler now wall) closed.1 is).1.dev.Fitting := by
      refine exec_outputs (P := fun (desk : Desk) (out : List Emission) =>
        (∀ e ∈ out, e.Fits) ∧ desk.dev.Fitting) (fun desk i out hP => ?_) is ⟨by simp, hclosed.2⟩
      exact ⟨fun e he => (List.mem_append.mp he).elim (hP.1 e) (hsampler desk i e),
        hP.2.quiet (runSampler_parts now wall desk i).1⟩
    exact ⟨fun e he => (List.mem_append.mp he).elim (hclosed.1 e) ((hsampled _).1 e),
      (hsampled _).2⟩
  | setStale stale now =>
    exact ⟨by simp [call, setStale], h.quiet ⟨⟨rfl, rfl, SameTopics.refl _⟩, rfl, rfl, rfl⟩⟩

/-- So nothing published by a run is too long. -/
theorem emissions_fit (config : ConnectorConfig) (start : Nat) (previous : Option Batcher)
    (ops : List Op) :
    ∀ x ∈ (log step (Batcher.new config start previous) ops).flatMap fun e => e.2.emissions,
      x.2.Fits := by
  have hrun := Batcher.run_eq_calls (Batcher.new config start previous) ops
  have hkeep : (∀ x ∈ (exec Batcher.call (Batcher.new config start previous)
        (ops.flatMap (Batcher.new config start previous).calls)).2, x.2.Fits) ∧
      ∀ dev ∈ (exec Batcher.call (Batcher.new config start previous)
        (ops.flatMap (Batcher.new config start previous).calls)).1.devices, dev.Fitting := by
    refine exec_outputs (P := fun (b : Batcher) (out : List (Nat × Emission)) =>
      (∀ x ∈ out, x.2.Fits) ∧ ∀ dev ∈ b.devices, dev.Fitting) (fun b c out hP => ?_) _
      ⟨by simp, fun dev hdev => ?_⟩
    · obtain ⟨d, c⟩ := c
      cases hd : b.devices[d]? with
      | none =>
        rw [Batcher.call_of_none hd]
        exact ⟨by simpa using hP.1, hP.2⟩
      | some dev =>
        have hcall := @call_fits _ ⟨dev, b.publishedUnits⟩
          (hP.2 dev (List.mem_of_getElem? hd)) c
        rw [Batcher.call_of_some hd]
        constructor
        · intro x hx
          rcases List.mem_append.mp hx with hx | hx
          · exact hP.1 x hx
          · obtain ⟨e, he, rfl⟩ := List.mem_map.mp hx
            exact hcall.1 e he
        · intro dev' hdev'
          rcases List.mem_or_eq_of_mem_set hdev' with hdev' | rfl
          · exact hP.2 dev' hdev'
          · exact hcall.2
    · obtain ⟨d, hd⟩ := List.getElem?_of_mem hdev
      obtain ⟨device, -, rfl⟩ := built_batcher config start previous hd
      intro key o ho
      cases ho
  rw [hrun] at hkeep
  exact hkeep.1

end TedgeDot.Measure
