import TedgeDot.Measure.Accounting

/-!
# Layer times

The messages of a frame key, in the order they are published, followed by the layers still open,
are the key's `timeline`. Closing the key does not change it; a reading adds a layer at its end, or
a value to a layer of it. `Ordered` says that its times increase and that each point's values stand
in it in the order they were offered. It is kept by closing (`Ordered.closed`), by a value in a
layer (`Ordered.filled`), by a split of the first layer (`Ordered.split`), and by a new layer that
has a date (`Ordered.started`).
-/

namespace TedgeDot.Measure

open Machine Desk

/-! ## The timeline of a key -/

/-- The time of a message, in Unix milliseconds. -/
def Part.ms (p : Part) : Int := p.time.unixMs

/-- What a key has published, and what it will publish from the layers it holds. -/
def timeline (key : Key) (past : List Part) (dev : DeviceTable) : List Part :=
  (past.filter fun p => p.key = key) ++ dev.closing key

/-- One message comes before another: only a split layer repeats its time, with other points. -/
structure Part.Before (a b : Part) : Prop where
  le : a.ms ≤ b.ms
  lt : a.ends = true → a.ms < b.ms
  apart : a.ms = b.ms → ∀ e ∈ a.entries, ∀ e' ∈ b.entries, e.point ≠ e'.point

/-- The values of a point, in the order of the messages. -/
def valuesOf (k : Nat) (ps : List Part) : List Float :=
  ps.flatMap fun p => (p.entries.filter fun e => e.point = k).map Entry.value

def offeredValues (k : Nat) (ins : List (Nat × Float)) : List Float :=
  (ins.filter fun i => i.1 = k).map Prod.snd

@[simp] theorem valuesOf_append (k : Nat) (ps ps' : List Part) :
    valuesOf k (ps ++ ps') = valuesOf k ps ++ valuesOf k ps' := by simp [valuesOf]

@[simp] theorem valuesOf_cons (k : Nat) (p : Part) (ps : List Part) :
    valuesOf k (p :: ps) =
      (p.entries.filter fun e => e.point = k).map Entry.value ++ valuesOf k ps := by simp [valuesOf]

/-- The timeline of a frame key is in order. -/
structure Ordered (key : Key) (dev : DeviceTable) (ins : List (Nat × Float)) (past : List Part) :
    Prop where
  before : (timeline key past dev).Pairwise Part.Before
  nodup : ∀ p ∈ timeline key past dev, (p.entries.map Entry.point).Nodup
  last : ∀ p ∈ timeline key past dev, ∃ ms, dev.lastLayerMs key = some ms ∧ p.ms ≤ ms
  /-- The parts a layer has already published were of points in it. -/
  points : ∀ o ∈ dev.layers key, ∀ p ∈ past, p.key = key → p.ms = o.time.unixMs →
    ∀ e ∈ p.entries, e.point ∈ o.points
  values : ∀ k, dev.keyOf k = key → valuesOf k (timeline key past dev) = offeredValues k ins

section Timeline

variable {dev dev' : DeviceTable} {key key' : Key} {past new : List Part} {ins : List (Nat × Float)}

theorem closing_key {p : Part} (hp : p ∈ dev.closing key) : p.key = key := by
  obtain ⟨o, -, rfl⟩ := List.mem_map.mp hp
  rfl

theorem closing_congr (hf : Fixed dev dev') (hlayers : dev'.layers key = dev.layers key) :
    dev'.closing key = dev.closing key := by
  simp only [DeviceTable.closing, hlayers, hf.topic_topic]

theorem timeline_other (past : List Part) (hf : Fixed dev dev') (hlayers : dev'.layers key =
    dev.layers key)
    (hnew : ∀ p ∈ new, p.key ≠ key) : timeline key (past ++ new) dev' = timeline key past dev := by
  have hnil : new.filter (fun p => p.key = key) = [] :=
    List.filter_eq_nil_iff.mpr fun p hp => by simpa using hnew p hp
  rw [timeline, timeline, List.filter_append, hnil, List.append_nil, closing_congr hf hlayers]

theorem timeline_closed (past : List Part) (hc : Closed key dev dev') :
    timeline key (past ++ dev.closing key) dev' = timeline key past dev := by
  have hall : (dev.closing key).filter (fun p => p.key = key) = dev.closing key :=
    List.filter_eq_self.mpr fun p hp => by simpa using closing_key hp
  have hnil : dev'.closing key = [] := by
    rw [DeviceTable.closing, hc.layers, if_pos rfl, List.map_nil]
  rw [timeline, timeline, List.filter_append, hall, hnil, List.append_nil]

/-- What happens at other keys leaves the timeline as it is. -/
theorem Ordered.other (h : Ordered key dev ins past) (new : List Part) (more : List (Nat × Float))
    (hf : Fixed dev dev') (hlayers : dev'.layers key = dev.layers key)
    (hlast : dev'.lastLayerMs key = dev.lastLayerMs key) (hnew : ∀ p ∈ new, p.key ≠ key)
    (hmore : ∀ i ∈ more, dev.keyOf i.1 ≠ key) :
    Ordered key dev' (ins ++ more) (past ++ new) := by
  have htimeline := timeline_other past hf hlayers hnew
  refine ⟨by rw [htimeline]; exact h.before, by rw [htimeline]; exact h.nodup,
    by rw [htimeline, hlast]; exact h.last, ?_, ?_⟩
  · intro o ho p hp hkey
    rw [hlayers] at ho
    rcases List.mem_append.mp hp with hp | hp
    · exact h.points o ho p hp hkey
    · exact absurd hkey (hnew p hp)
  · intro k hk
    rw [hf.keyOf] at hk
    have hnone : more.filter (fun i => i.1 = k) = [] :=
      List.filter_eq_nil_iff.mpr fun i hi => by
        simp only [decide_eq_true_eq]
        rintro rfl
        exact hmore i hi hk
    rw [htimeline, h.values k hk, offeredValues, offeredValues, List.filter_append, hnone,
      List.append_nil]

theorem Ordered.closed (h : Ordered key dev ins past) (hc : Closed key dev dev') :
    Ordered key dev' ins (past ++ dev.closing key) := by
  have htimeline := timeline_closed past hc
  refine ⟨by rw [htimeline]; exact h.before, by rw [htimeline]; exact h.nodup,
    by rw [htimeline, hc.lastLayerMs]; exact h.last, ?_, ?_⟩
  · intro o ho
    rw [hc.layers, if_pos rfl] at ho
    cases ho
  · intro k hk
    rw [htimeline]
    exact h.values k (by rwa [hc.toFixed.keyOf] at hk)

/-! ## Filling a layer -/

theorem Part.Before.of_lt {a b : Part} (h : a.ms < b.ms) : a.Before b :=
  ⟨h.le, fun _ => h, fun heq => absurd heq h.ne⟩

theorem pairwise_replace {α : Type*} {R : α → α → Prop} {l l' : List α} {x x' : α}
    (h : (l ++ x :: l').Pairwise R) (hleft : ∀ a ∈ l, R a x → R a x')
    (hright : ∀ b ∈ l', R x b → R x' b) : (l ++ x' :: l').Pairwise R := by
  rw [List.pairwise_append, List.pairwise_cons] at h ⊢
  obtain ⟨hl, ⟨hx, hl'⟩, hcross⟩ := h
  refine ⟨hl, ⟨fun b hb => hright b hb (hx b hb), hl'⟩, fun a ha b hb => ?_⟩
  rcases List.mem_cons.mp hb with rfl | hb
  · exact hleft a ha (hcross a ha x List.mem_cons_self)
  · exact hcross a ha b (List.mem_cons_of_mem x hb)

theorem forall_mem_replace {α : Type*} {P : α → Prop} {l l' : List α} {x x' : α}
    (h : ∀ a ∈ l ++ x :: l', P a) (hx : P x → P x') : ∀ a ∈ l ++ x' :: l', P a := by
  rw [List.forall_mem_append, List.forall_mem_cons] at h ⊢
  exact ⟨h.1, hx h.2.1, h.2.2⟩

theorem timeline_around {k : Nat} {o o' : Open} (past past' : List Part)
    (ho : (dev.layers key)[dev.depth k]? = some o) (hf : Filled key k o' dev dev') :
    let rest := Open.rest (dev.topic key.1).topic key
    ∃ before after : List Open,
      dev.layers key = before ++ o :: after ∧
      before.length = dev.depth k ∧
      dev'.layers key = before ++ o' :: after ∧
      timeline key past dev =
        (past.filter (fun p => p.key = key) ++ before.map rest) ++ rest o :: after.map rest ∧
      timeline key past' dev' =
        (past'.filter (fun p => p.key = key) ++ before.map rest) ++ rest o' :: after.map rest := by
  intro rest
  obtain ⟨hlt, hget⟩ := List.getElem?_eq_some_iff.mp ho
  have hlayers : dev.layers key =
      (dev.layers key).take (dev.depth k) ++ o :: (dev.layers key).drop (dev.depth k + 1) := by
    rw [← hget, List.getElem_cons_drop, List.take_append_drop]
  have hset : dev'.layers key =
      (dev.layers key).take (dev.depth k) ++ o' :: (dev.layers key).drop (dev.depth k + 1) := by
    rw [hf.layers, if_pos rfl, List.set_eq_take_append_cons_drop, if_pos hlt]
  refine ⟨_, _, hlayers, by rw [List.length_take]; omega, hset, ?_, ?_⟩
  · conv_lhs => rw [timeline, DeviceTable.closing, hlayers]
    rw [List.map_append, List.map_cons, List.append_assoc]
  · rw [timeline, DeviceTable.closing, hset, hf.toFixed.topic_topic, List.map_append, List.map_cons,
      List.append_assoc]

variable {o : Open} {e : Entry}

theorem Layered.notMem_from {before after : List Open} {k : Nat} (hL : Layered dev)
    (hlayers : dev.layers key = before ++ o :: after) (hlength : before.length = dev.depth k) :
    ∀ o' ∈ o :: after, k ∉ o'.points := by
  intro o' ho' hk
  obtain ⟨i, hi⟩ := List.getElem?_of_mem ho'
  have hat : (dev.layers key)[before.length + i]? = some o' := by
    rw [hlayers, List.getElem?_append_right (Nat.le_add_right _ _), Nat.add_sub_cancel_left]
    exact hi
  have hlt := ((hL.mem_points key _ o' hat k).mp hk).2
  omega

theorem Open.Sound.mem_points (ho : o.Sound dev) (he : e ∈ o.entries) : e.point ∈ o.points :=
  ho.held.subset (List.mem_map_of_mem he)

theorem valuesOf_of_notMem {os : List Open} {k : Nat} (topic : String) (key : Key)
    (hsound : ∀ o ∈ os, o.Sound dev) (hk : ∀ o ∈ os, k ∉ o.points) :
    valuesOf k (os.map (Open.rest topic key)) = [] := by
  refine List.flatMap_eq_nil_iff.mpr fun p hp => ?_
  obtain ⟨o, ho, rfl⟩ := List.mem_map.mp hp
  rw [List.filter_eq_nil_iff.mpr, List.map_nil]
  intro e he
  simp only [decide_eq_true_eq]
  rintro rfl
  exact hk o ho ((hsound o ho).mem_points he)

/-- A reading that joins a layer. -/
theorem Ordered.filled (h : Ordered key dev ins past) (hL : Layered dev)
    (ho : (dev.layers key)[dev.depth e.point]? = some o)
    (hf : Filled key e.point { o with entries := o.entries ++ [e], points := o.points ++ [e.point] }
      dev dev') :
    Ordered key dev' (ins ++ [(e.point, e.value)]) past := by
  obtain ⟨before, after, hlayers, hlength, hlayers', hsplit, hsplit'⟩ :=
    timeline_around past past ho hf
  -- the point is in no layer above
  have hout := hL.notMem_from hlayers hlength
  have hsound : ∀ o' ∈ o :: after, o'.Sound dev := fun o' ho' =>
    hL.sound key o' (by rw [hlayers]; exact List.mem_append_right _ ho')
  refine ⟨?_, ?_, ?_, ?_, ?_⟩
  · have hbefore := h.before
    rw [hsplit] at hbefore
    rw [hsplit']
    refine pairwise_replace hbefore (fun a ha hao => ⟨hao.le, hao.lt, fun heq x hx x' hx' => ?_⟩)
      fun b _ hob => ?_
    · -- a message with the layer's time is a part of it, which the point is not in
      rcases List.mem_append.mp hx' with hx' | hx'
      · exact hao.apart heq x hx x' hx'
      · obtain rfl := List.mem_singleton.mp hx'
        rcases List.mem_append.mp ha with ha | ha
        · obtain ⟨ha, hkey⟩ := List.mem_filter.mp ha
          have hpoints := h.points o (List.mem_of_getElem? ho) a ha (by simpa using hkey) heq x hx
          exact fun hxe => hout o List.mem_cons_self (hxe ▸ hpoints)
        · obtain ⟨a', -, rfl⟩ := List.mem_map.mp ha
          exact absurd heq (hao.lt rfl).ne
    · exact Part.Before.of_lt (hob.lt rfl)
  · have hnodup := h.nodup
    rw [hsplit] at hnodup
    rw [hsplit']
    refine forall_mem_replace hnodup fun hold => ?_
    have hnew : e.point ∉ o.entries.map Entry.point := fun hmem =>
      hout o List.mem_cons_self ((hsound o List.mem_cons_self).held.subset hmem)
    show ((o.entries ++ [e]).map Entry.point).Nodup
    rw [List.map_append, List.map_singleton]
    exact List.Nodup.append hold (List.nodup_singleton _) (by simpa using hnew)
  · have hlast := h.last
    rw [hsplit] at hlast
    rw [hsplit', hf.lastLayerMs]
    exact forall_mem_replace hlast fun hold => hold
  · have hpoints := h.points
    rw [hlayers] at hpoints
    rw [hlayers']
    refine forall_mem_replace hpoints fun hold p hp hkey hms x hx => ?_
    exact List.mem_append_left _ (hold p hp hkey hms x hx)
  · intro k hk
    have hvalues := h.values k (by rwa [hf.toFixed.keyOf] at hk)
    rw [hsplit] at hvalues
    rw [hsplit', offeredValues, List.filter_append, List.map_append, ← offeredValues, ← hvalues]
    have hafter := valuesOf_of_notMem (dev.topic key.1).topic key
      (fun o' ho' => hsound o' (List.mem_cons_of_mem _ ho'))
      fun o' ho' => hout o' (List.mem_cons_of_mem _ ho')
    by_cases heq : k = e.point
    · subst heq
      simp [Open.rest, hafter]
    · simp [Open.rest, Ne.symm heq]

/-- A reading that splits the first layer. -/
theorem Ordered.split (h : Ordered key dev ins past) (hL : Layered dev)
    (ho : (dev.layers key)[dev.depth e.point]? = some o) (hfirst : dev.depth e.point = 0)
    (hf : Filled key e.point { o with entries := [e], points := o.points ++ [e.point] } dev dev') :
    Ordered key dev' (ins ++ [(e.point, e.value)])
      (past ++ [{ topic := (dev.topic key.1).topic, key, time := o.time, entries := o.entries,
                  ends := false }]) := by
  set part : Part := { topic := (dev.topic key.1).topic, key, time := o.time, entries := o.entries,
                       ends := false } with hpart
  set o' : Open := { o with entries := [e], points := o.points ++ [e.point] } with ho'
  obtain ⟨before, after, hlayers, hlength, hlayers', hsplit, hsplit'⟩ :=
    timeline_around past (past ++ [part]) ho hf
  -- the layer is the first, so nothing open comes before the part
  obtain rfl : before = [] := by
    rw [hfirst] at hlength
    exact List.length_eq_zero_iff.mp hlength
  have hout := hL.notMem_from hlayers hlength
  have hsound : ∀ o' ∈ o :: after, o'.Sound dev := fun o' ho' =>
    hL.sound key o' (by rw [hlayers]; exact List.mem_append_right _ ho')
  simp only [List.map_nil, List.append_nil, List.nil_append] at hsplit hsplit' hlayers hlayers'
  rw [List.filter_append, List.filter_cons_of_pos (by simp [hpart]), List.filter_nil,
    List.append_assoc, List.singleton_append] at hsplit'
  have hbefore := h.before
  rw [hsplit, List.pairwise_append, List.pairwise_cons] at hbefore
  obtain ⟨hpast, ⟨hrest, hafter⟩, hcross⟩ := hbefore
  refine ⟨?_, ?_, ?_, ?_, ?_⟩
  · rw [hsplit', List.pairwise_append, List.pairwise_cons, List.pairwise_cons]
    refine ⟨hpast, ⟨fun b hb => ?_, fun b hb => ?_, hafter⟩, fun a ha b hb => ?_⟩
    · rcases List.mem_cons.mp hb with rfl | hb
      · -- the two parts have the layer's time, and the point is in the second only
        refine ⟨le_refl _, fun hends => (nomatch hends), fun _ x hx x' hx' hxx' => ?_⟩
        obtain rfl := List.mem_singleton.mp hx'
        exact hout o List.mem_cons_self (hxx' ▸ (hsound o List.mem_cons_self).mem_points hx)
      · exact Part.Before.of_lt ((hrest b hb).lt rfl)
    · exact Part.Before.of_lt ((hrest b hb).lt rfl)
    · have hao := hcross a ha _ List.mem_cons_self
      rcases List.mem_cons.mp hb with rfl | hb
      · exact ⟨hao.le, hao.lt, hao.apart⟩
      · rcases List.mem_cons.mp hb with rfl | hb
        · refine ⟨hao.le, hao.lt, fun heq x hx x' hx' hxx' => ?_⟩
          obtain rfl := List.mem_singleton.mp hx'
          obtain ⟨ha, hkey⟩ := List.mem_filter.mp ha
          have hpoints := h.points o (List.mem_of_getElem? ho) a ha (by simpa using hkey) heq x hx
          exact hout o List.mem_cons_self (hxx' ▸ hpoints)
        · exact hcross a ha b (List.mem_cons_of_mem _ hb)
  · have hnodup := h.nodup
    rw [hsplit] at hnodup
    rw [List.forall_mem_append, List.forall_mem_cons] at hnodup
    rw [hsplit', List.forall_mem_append, List.forall_mem_cons, List.forall_mem_cons]
    exact ⟨hnodup.1, hnodup.2.1, List.nodup_singleton _, hnodup.2.2⟩
  · have hlast := h.last
    rw [hsplit] at hlast
    rw [List.forall_mem_append, List.forall_mem_cons] at hlast
    rw [hsplit', hf.lastLayerMs, List.forall_mem_append, List.forall_mem_cons, List.forall_mem_cons]
    exact ⟨hlast.1, hlast.2.1, hlast.2.1, hlast.2.2⟩
  · intro o₂ ho₂ p hp hkey hms x hx
    rw [hlayers'] at ho₂
    have hold := fun o'' ho'' => h.points o'' (hlayers ▸ ho'') p
    rcases List.mem_append.mp hp with hp | hp
    · rcases List.mem_cons.mp ho₂ with rfl | ho₂
      · exact List.mem_append_left _ (hold o List.mem_cons_self hp hkey hms x hx)
      · exact hold o₂ (List.mem_cons_of_mem _ ho₂) hp hkey hms x hx
    · obtain rfl := List.mem_singleton.mp hp
      rcases List.mem_cons.mp ho₂ with rfl | ho₂
      · exact List.mem_append_left _ ((hsound o List.mem_cons_self).mem_points hx)
      · -- a later layer has a later time
        exact absurd hms ((hrest _ (List.mem_map_of_mem ho₂)).lt rfl).ne
  · intro k hk
    have hvalues := h.values k (by rwa [hf.toFixed.keyOf] at hk)
    rw [hsplit] at hvalues
    rw [hsplit', offeredValues, List.filter_append, List.map_append, ← offeredValues, ← hvalues]
    have hafter := valuesOf_of_notMem (dev.topic key.1).topic key
      (fun o' ho' => hsound o' (List.mem_cons_of_mem _ ho'))
      fun o' ho' => hout o' (List.mem_cons_of_mem _ ho')
    by_cases heq : k = e.point
    · subst heq
      simp [Open.rest, hafter, hpart, ho']
    · simp [Open.rest, Ne.symm heq, hpart, ho']

/-! ## Starting a layer -/

/-- Whether a new layer of the key has a date: the time its place on the timeline asks for exists. -/
def DeviceTable.dated (dev : DeviceTable) (key : Key) (ts : OffsetDateTime) : Bool :=
  match dev.lastLayerMs key with
  | some last =>
    decide (last < ts.unixMs) ||
      (OffsetDateTime.fromUnixTimestampNanos ((last + 1) * 1000000)).isSome
  | none => true

theorem unixMs_of_fromUnixTimestampNanos {ms : Int} {ts : OffsetDateTime}
    (h : OffsetDateTime.fromUnixTimestampNanos (ms * 1000000) = some ts) : ts.unixMs = ms := by
  unfold OffsetDateTime.fromUnixTimestampNanos at h
  obtain ⟨-, h⟩ := Option.ite_none_right_eq_some.mp h
  cases h
  exact Int.mul_ediv_cancel ms (by decide)

/-- A layer's time lies after that of the last one. -/
theorem layerTime_after {ts time : OffsetDateTime} {timeMs : Int} {window : Nat}
    (hframe : key.2 = .frame window) (hdated : dev.dated key ts = true)
    (htime : (time, timeMs) = layerTime dev key ts) :
    time.unixMs = timeMs ∧ ∀ last, dev.lastLayerMs key = some last → last < timeMs := by
  unfold layerTime at htime
  unfold DeviceTable.dated at hdated
  cases hlast : dev.lastLayerMs key with
  | none =>
    simp only [hframe, hlast, Prod.mk.injEq] at htime
    simp [htime]
  | some last =>
    simp only [hframe, hlast, Bool.or_eq_true, decide_eq_true_eq] at htime hdated
    by_cases hle : ts.unixMs ≤ last
    · simp only [hle, ↓reduceIte, Prod.mk.injEq] at htime
      obtain ⟨date, hdate⟩ := Option.isSome_iff_exists.mp (hdated.resolve_left (by omega))
      rw [hdate, Option.getD_some] at htime
      rw [htime.1, htime.2, unixMs_of_fromUnixTimestampNanos hdate]
      exact ⟨rfl, fun _ h => by cases h; omega⟩
    · simp only [hle, ↓reduceIte, Prod.mk.injEq] at htime
      rw [htime.1, htime.2]
      exact ⟨rfl, fun _ h => by cases h; omega⟩

/-- A reading that starts a layer. -/
theorem Ordered.started {ts : OffsetDateTime} {window : Nat} (h : Ordered key dev ins past)
    (hframe : key.2 = .frame window) (hdated : dev.dated key ts = true)
    (hs : Started key ts e o dev dev') : Ordered key dev' (ins ++ [(e.point, e.value)]) past := by
  obtain ⟨hms, hafter⟩ := layerTime_after hframe hdated hs.time
  have hlast : dev'.lastLayerMs key = some o.time.unixMs := by
    rw [hs.lastLayerMs, hframe, hms]
    exact Function.update_self _ _ _
  -- the new layer's time lies after all of the timeline
  have hlt : ∀ p ∈ timeline key past dev, p.ms < o.time.unixMs := by
    intro p hp
    obtain ⟨last, hsome, hle⟩ := h.last p hp
    have := hafter last hsome
    omega
  have htimeline : timeline key past dev' =
      timeline key past dev ++ [o.rest (dev.topic key.1).topic key] := by
    rw [timeline, timeline, DeviceTable.closing, DeviceTable.closing, hs.layers, if_pos rfl,
      hs.toFixed.topic_topic, List.map_append, List.map_singleton, List.append_assoc]
  have hentries := hs.entries
  refine ⟨?_, ?_, ?_, ?_, ?_⟩
  · rw [htimeline, List.pairwise_append]
    refine ⟨h.before, List.pairwise_singleton _ _, fun a ha b hb => ?_⟩
    obtain rfl := List.mem_singleton.mp hb
    exact Part.Before.of_lt (hlt a ha)
  · intro p hp
    rw [htimeline] at hp
    rcases List.mem_append.mp hp with hp | hp
    · exact h.nodup p hp
    · rw [List.mem_singleton.mp hp, Open.rest, hentries]
      exact List.nodup_singleton _
  · intro p hp
    rw [htimeline] at hp
    refine ⟨_, hlast, ?_⟩
    rcases List.mem_append.mp hp with hp | hp
    · exact (hlt p hp).le
    · rw [List.mem_singleton.mp hp]
      exact le_refl _
  · intro o' ho' p hp hkey hp_ms
    rw [hs.layers, if_pos rfl] at ho'
    rcases List.mem_append.mp ho' with ho' | ho'
    · exact h.points o' ho' p hp hkey hp_ms
    · -- nothing on the timeline has the time of the new layer
      rw [List.mem_singleton.mp ho'] at hp_ms
      have hmem : p ∈ timeline key past dev :=
        List.mem_append_left _ (List.mem_filter.mpr ⟨hp, by simpa using hkey⟩)
      exact absurd hp_ms (hlt p hmem).ne
  · intro k hk
    have hvalues := h.values k (by rwa [hs.toFixed.keyOf] at hk)
    rw [htimeline, valuesOf_append, hvalues, offeredValues, offeredValues, List.filter_append,
      List.map_append]
    congr 1
    by_cases heq : k = e.point
    · simp [Open.rest, hentries, heq, valuesOf]
    · simp [Open.rest, hentries, Ne.symm heq, valuesOf]

end Timeline

end TedgeDot.Measure
