import TedgeDot.Measure.Calls

/-!
# Layers

`Layered` is what holds of the open messages of a device in every reachable state: the first
`depth k` layers of its key are the ones a point `k` has a value in. From it, `add_effect` says
which of three things a reading does: it fills a layer there is, starts one, or closes what is
open and starts over. No index of `add` is out of bounds, and a key never has more than
`MAX_LAYERS` layers.
-/

namespace TedgeDot.Measure

open Machine Desk

/-! ## The invariant -/

def DeviceTable.keyOf (dev : DeviceTable) (k : Nat) : Key :=
  ((dev.plan k).topic, (dev.plan k).groupBy)

/-- What a layer holds are values of distinct points, under their series keys. -/
structure Open.Sound (dev : DeviceTable) (o : Open) : Prop where
  nodup : o.points.Nodup
  located : ∀ k ∈ o.points, dev.Located k
  /-- What is not published yet are values of points in the layer. -/
  held : (o.entries.map Entry.point).Sublist o.points
  seriesKey : ∀ e ∈ o.entries, e.key = (dev.plan e.point).seriesKey
  entries_ne : o.entries ≠ []

/-- The open messages agree with the depths. -/
structure Layered (dev : DeviceTable) : Prop where
  /-- What is open has a first layer. -/
  ne_nil : ∀ key, key ∈ dev.openMsgs → dev.layers key ≠ []
  /-- A point is in the layers below its depth, and in no other. -/
  mem_points : ∀ key j o, (dev.layers key)[j]? = some o → ∀ k,
    k ∈ o.points ↔ dev.keyOf k = key ∧ j < dev.depth k
  depth_le : ∀ k, dev.depth k ≤ (dev.layers (dev.keyOf k)).length
  length_le : ∀ key, (dev.layers key).length ≤ MAX_LAYERS
  sound : ∀ key, ∀ o ∈ dev.layers key, o.Sound dev

section Fixed

variable {dev dev' : DeviceTable}

theorem Fixed.keyOf (h : Fixed dev dev') (k : Nat) : dev'.keyOf k = dev.keyOf k := by
  simp only [DeviceTable.keyOf, h.plan]

theorem Fixed.sound (h : Fixed dev dev') {o : Open} (ho : o.Sound dev) : o.Sound dev' where
  nodup := ho.nodup
  located k hk := by
    obtain ⟨id, hid⟩ := ho.located k hk
    exact ⟨id, by rw [h.index, hid]⟩
  held := ho.held
  seriesKey e he := by rw [h.plan, ho.seriesKey e he]
  entries_ne := ho.entries_ne

end Fixed

namespace Layered

variable {dev dev' : DeviceTable} {key : Key} {ts : OffsetDateTime} {e : Entry} {o : Open} {k : Nat}

theorem empty (hopen : dev.openMsgs = ∅) (hdepth : ∀ k, dev.depth k = 0) : Layered dev := by
  have hlayers : ∀ key, dev.layers key = [] := by
    intro key
    simp [DeviceTable.layers, hopen]
  constructor <;> simp [hlayers, hdepth, hopen]

theorem exists_layer (h : Layered dev) (key : Key) (k : Nat) :
    (∃ o ∈ dev.layers key, k ∈ o.points) ↔ dev.keyOf k = key ∧ 0 < dev.depth k := by
  constructor
  · rintro ⟨o, ho, hk⟩
    obtain ⟨j, hj⟩ := List.getElem?_of_mem ho
    obtain ⟨hkey, hlt⟩ := (h.mem_points key j o hj k).mp hk
    exact ⟨hkey, by omega⟩
  · rintro ⟨rfl, hpos⟩
    have hlt : 0 < (dev.layers (dev.keyOf k)).length := lt_of_lt_of_le hpos (h.depth_le k)
    refine ⟨_, List.getElem_mem hlt, ?_⟩
    exact (h.mem_points _ 0 _ (List.getElem?_eq_getElem hlt) k).mpr ⟨rfl, hpos⟩

theorem quiet (h : Layered dev) (hq : Quiet dev dev') : Layered dev' where
  ne_nil key hkey := by
    rw [hq.layers]
    exact h.ne_nil key (by rwa [hq.openMsgs] at hkey)
  mem_points key j o ho k := by
    rw [hq.layers] at ho
    rw [hq.toFixed.keyOf, hq.depth]
    exact h.mem_points key j o ho k
  depth_le k := by
    rw [hq.toFixed.keyOf, hq.layers, hq.depth]
    exact h.depth_le k
  length_le key := by
    rw [hq.layers]
    exact h.length_le key
  sound key o ho := by
    rw [hq.layers] at ho
    exact hq.toFixed.sound (h.sound key o ho)

/-! ### Closing -/

theorem depth_closed (h : Layered dev) (hc : Closed key dev dev') (k : Nat) :
    dev'.depth k = if dev.keyOf k = key then 0 else dev.depth k := by
  rw [hc.depth k]
  by_cases hkey : dev.keyOf k = key
  · simp only [h.exists_layer, hkey, true_and, ↓reduceIte]
    split <;> omega
  · simp only [h.exists_layer, hkey, false_and, ↓reduceIte]

/-- Closing a key keeps the layers in order. -/
theorem closed (h : Layered dev) (hc : Closed key dev dev') : Layered dev' where
  ne_nil key' hkey' := by
    rw [hc.openMsgs, AList.mem_erase] at hkey'
    rw [hc.layers, if_neg hkey'.1]
    exact h.ne_nil key' hkey'.2
  mem_points key' j o ho k := by
    rw [hc.layers] at ho
    by_cases hkey : key' = key
    · simp [hkey] at ho
    · rw [if_neg hkey] at ho
      rw [h.mem_points key' j o ho k, hc.toFixed.keyOf, h.depth_closed hc]
      refine and_congr_right fun hk => ?_
      rw [hk, if_neg hkey]
  depth_le k := by
    rw [h.depth_closed hc, hc.toFixed.keyOf, hc.layers]
    split
    · exact Nat.zero_le _
    · exact h.depth_le k
  length_le key' := by
    rw [hc.layers]
    split
    · exact Nat.zero_le _
    · exact h.length_le key'
  sound key' o ho := by
    rw [hc.layers] at ho
    split at ho
    · cases ho
    · exact hc.toFixed.sound (h.sound key' o ho)

/-! ### Starting a layer -/

/-- So does starting a layer. -/
theorem started (h : Layered dev) (hs : Started (dev.keyOf e.point) ts e o dev dev')
    (hdepth : dev.depth e.point = (dev.layers (dev.keyOf e.point)).length)
    (hlt : dev.depth e.point < MAX_LAYERS) (hlocated : dev.Located e.point)
    (hkey : e.key = (dev.plan e.point).seriesKey) : Layered dev' where
  ne_nil key hmem := by
    rw [hs.layers]
    split
    · simp
    · rename_i hne
      rw [hs.openMsgs, AList.mem_insert] at hmem
      exact h.ne_nil key (hmem.resolve_left hne)
  mem_points key j o' ho' k := by
    rw [hs.layers] at ho'
    rw [hs.toFixed.keyOf, hs.depth]
    by_cases hk : k = e.point
    · subst hk
      rw [Function.update_self]
      by_cases hkey : key = dev.keyOf e.point
      · subst hkey
        rw [if_pos rfl] at ho'
        -- the new layer is the last one, and the only one the point was not in
        rcases Nat.lt_trichotomy j (dev.layers (dev.keyOf e.point)).length with hj | hj | hj
        · rw [List.getElem?_append_left hj] at ho'
          rw [h.mem_points _ j o' ho' e.point]
          simp only [true_and]
          omega
        · subst hj
          obtain rfl : o = o' := by simpa using ho'
          simp [hs.points_eq, hdepth]
        · rw [List.getElem?_eq_none (by simp; omega)] at ho'
          cases ho'
      · rw [if_neg hkey] at ho'
        rw [h.mem_points key j o' ho' e.point]
        simp [Ne.symm hkey]
    · rw [Function.update_of_ne hk]
      by_cases hkey : key = dev.keyOf e.point
      · subst hkey
        rw [if_pos rfl] at ho'
        rcases Nat.lt_trichotomy j (dev.layers (dev.keyOf e.point)).length with hj | hj | hj
        · rw [List.getElem?_append_left hj] at ho'
          exact h.mem_points _ j o' ho' k
        · subst hj
          obtain rfl : o = o' := by simpa using ho'
          simp only [hs.points_eq, List.mem_singleton, hk, false_iff, not_and]
          intro hkeyOf
          have := h.depth_le k
          rw [hkeyOf] at this
          omega
        · rw [List.getElem?_eq_none (by simp; omega)] at ho'
          cases ho'
      · rw [if_neg hkey] at ho'
        exact h.mem_points key j o' ho' k
  depth_le k := by
    rw [hs.toFixed.keyOf, hs.layers, hs.depth]
    by_cases hk : k = e.point
    · subst hk
      simp [hdepth]
    · rw [Function.update_of_ne hk]
      refine (h.depth_le k).trans ?_
      split
      · rename_i heq
        simp [heq]
      · exact le_refl _
  length_le key := by
    rw [hs.layers]
    split
    · simp only [List.length_append, List.length_singleton]
      omega
    · exact h.length_le key
  -- the new layer is on top, so the others keep their depths
  sound key o' ho' := by
    refine hs.toFixed.sound ?_
    rw [hs.layers] at ho'
    split at ho'
    · rcases List.mem_append.mp ho' with ho' | ho'
      · exact h.sound _ o' ho'
      · rw [List.mem_singleton.mp ho']
        exact ⟨by simp [hs.points_eq], by simpa [hs.points_eq] using hlocated,
          by simp [hs.entries, hs.points_eq], by simpa [hs.entries] using hkey,
          by simp [hs.entries]⟩
    · exact h.sound key o' ho'

/-! ### Filling a layer -/

/-- So does filling one. -/
theorem filled (h : Layered dev) {entries : List Entry}
    (ho : (dev.layers (dev.keyOf e.point))[dev.depth e.point]? = some o)
    (hf : Filled (dev.keyOf e.point) e.point
      { o with entries := entries, points := o.points ++ [e.point] } dev dev')
    (hlocated : dev.Located e.point) (hkey : e.key = (dev.plan e.point).seriesKey)
    (hentries : entries = [e] ∨ entries = o.entries ++ [e]) : Layered dev' where
  ne_nil key hmem := by
    rw [hf.layers]
    split
    · intro hnil
      have := congrArg List.length hnil
      rw [List.length_set] at this
      rw [List.length_eq_zero_iff.mp this] at ho
      cases ho
    · rename_i hne
      rw [hf.openMsgs, AList.mem_insert] at hmem
      exact h.ne_nil key (hmem.resolve_left hne)
  mem_points key j o' ho' k := by
    rw [hf.layers] at ho'
    rw [hf.toFixed.keyOf, hf.depth]
    by_cases hkey : key = dev.keyOf e.point
    · subst hkey
      rw [if_pos rfl] at ho'
      by_cases hj : dev.depth e.point = j
      · -- the filled layer: it has one point more
        subst hj
        rw [List.getElem?_set_self (List.getElem?_eq_some_iff.mp ho).1, Option.some.injEq] at ho'
        subst ho'
        simp only [List.mem_append, List.mem_singleton, h.mem_points _ _ o ho k]
        by_cases hk : k = e.point
        · subst hk
          simp
        · simp [hk]
      · rw [List.getElem?_set_ne hj] at ho'
        rw [h.mem_points _ j o' ho' k]
        by_cases hk : k = e.point
        · subst hk
          simp only [Function.update_self, true_and]
          omega
        · rw [Function.update_of_ne hk]
    · rw [if_neg hkey] at ho'
      rw [h.mem_points key j o' ho' k]
      by_cases hk : k = e.point
      · subst hk
        simp [Ne.symm hkey]
      · rw [Function.update_of_ne hk]
  depth_le k := by
    have hlt := (List.getElem?_eq_some_iff.mp ho).1
    rw [hf.toFixed.keyOf, hf.layers, hf.depth]
    by_cases hk : k = e.point
    · subst hk
      simpa [Nat.succ_le_iff] using hlt
    · rw [Function.update_of_ne hk]
      refine (h.depth_le k).trans ?_
      split
      · rename_i heq
        simp [heq]
      · exact le_refl _
  length_le key := by
    rw [hf.layers]
    split
    · rw [List.length_set]
      exact h.length_le _
    · exact h.length_le key
  sound key o' ho' := by
    refine hf.toFixed.sound ?_
    rw [hf.layers] at ho'
    split at ho'
    · rcases List.mem_or_eq_of_mem_set ho' with ho' | rfl
      · exact h.sound _ o' ho'
      · have hsound := h.sound _ o (List.mem_of_getElem? ho)
        have hnew : e.point ∉ o.points := by
          rw [h.mem_points _ _ o ho e.point]
          omega
        refine ⟨?_, ?_, ?_, ?_, ?_⟩
        · simpa [List.nodup_append] using ⟨hsound.nodup, fun k hk heq => hnew (heq ▸ hk)⟩
        · intro k hk
          rcases List.mem_append.mp hk with hk | hk
          · exact hsound.located k hk
          · rwa [List.mem_singleton.mp hk]
        · rcases hentries with rfl | rfl
          · exact List.sublist_append_right _ _
          · simpa using hsound.held
        · intro e' he'
          rcases hentries with rfl | rfl
          · rwa [List.mem_singleton.mp he']
          · rcases List.mem_append.mp he' with he' | he'
            · exact hsound.seriesKey e' he'
            · rwa [List.mem_singleton.mp he']
        · rcases hentries with rfl | rfl <;> simp
    · exact h.sound key o' ho'

end Layered

/-! ## What a reading does -/

def DeviceTable.closing (dev : DeviceTable) (key : Key) : List Part :=
  (dev.layers key).map (Open.rest (dev.topic key.1).topic key)

theorem Layered.close_parts {desk : Desk} (h : Layered desk.dev) (key : Key) :
    parts (desk.close key).2 = desk.dev.closing key := by
  have hall : (desk.dev.layers key).filter (fun o => o.n ≠ 0) = desk.dev.layers key := by
    refine List.filter_eq_self.mpr fun o ho => ?_
    simpa [Open.n] using (h.sound key o ho).entries_ne
  rw [(close_spec desk key).2, hall, DeviceTable.closing]

/-- The entry of a value of the point `k`. -/
def DeviceTable.entry (dev : DeviceTable) (k : Nat) (v : Float) : Entry :=
  { point := k, key := (dev.plan k).seriesKey, value := v }

variable [Ryu]

/-- Whether the value `v` of the point `k` does not fit its layer `o` any more. -/
def DeviceTable.splits (dev : DeviceTable) (k : Nat) (v : Float) (o : Open) : Bool :=
  overflows (dev.topic (dev.keyOf k).1).groupJson.utf8ByteSize o.entries (dev.entry k v)

/-- The three things a reading does to the open messages of its key: the table after it, and the
series that go out. -/
inductive Added (dev : DeviceTable) (k : Nat) (ts : OffsetDateTime) (v : Float) (now : Nat) :
    DeviceTable → List Part → Prop
  /-- It fills a layer there is, whose part so far goes out if the value does not fit. -/
  | fill {dev' : DeviceTable} (o : Open)
      (hstay : (mustClose dev (dev.keyOf k) (dev.depth k) ts.unixMs now).1 = false)
      (ho : (dev.layers (dev.keyOf k))[dev.depth k]? = some o)
      (hfilled : Filled (dev.keyOf k) k
        { o with
          entries := if dev.splits k v o then [dev.entry k v] else o.entries ++ [dev.entry k v]
          points := o.points ++ [k] } dev dev') :
      Added dev k ts v now dev'
        (if dev.splits k v o then
          [{ topic := (dev.topic (dev.keyOf k).1).topic, key := dev.keyOf k, time := o.time,
             entries := o.entries, ends := false }]
        else [])
  /-- The point has a value in every layer: it starts one. -/
  | start {dev' : DeviceTable} (o : Open)
      (hstay : (mustClose dev (dev.keyOf k) (dev.depth k) ts.unixMs now).1 = false)
      (hdepth : dev.depth k = (dev.layers (dev.keyOf k)).length)
      (hstarted : Started (dev.keyOf k) ts (dev.entry k v) o dev dev') :
      Added dev k ts v now dev' []
  /-- What is open closes, and the value starts over. -/
  | restart {mid dev' : DeviceTable} (o : Open)
      (hclose : (mustClose dev (dev.keyOf k) (dev.depth k) ts.unixMs now).1 = true)
      (hclosed : Closed (dev.keyOf k) dev mid)
      (hdepth : mid.depth k = 0)
      (hstarted : Started (dev.keyOf k) ts (dev.entry k v) o mid dev') :
      Added dev k ts v now dev' (dev.closing (dev.keyOf k))

/-- What adding a value does: it fills a layer, starts one, or closes the key and starts again. -/
theorem add_effect (desk : Desk) (hL : Layered desk.dev) (k : Nat) (ts : OffsetDateTime)
    (v : Float) (now : Nat) :
    Added desk.dev k ts v now (desk.add k ts v now).1.dev (parts (desk.add k ts v now).2) := by
  -- either the key is closed first, or the value goes to a new or an open layer
  cases hclose : (mustClose desk.dev (desk.dev.keyOf k) (desk.dev.depth k) ts.unixMs now).1 with
  | true =>
    have hclosed := (close_spec desk (desk.dev.keyOf k)).1
    have hparts := hL.close_parts (desk.dev.keyOf k)
    have hdepth : (desk.close (desk.dev.keyOf k)).1.dev.depth k = 0 := by
      rw [hL.depth_closed hclosed, if_pos rfl]
    have hlayers : (desk.close (desk.dev.keyOf k)).1.dev.layers (desk.dev.keyOf k) = [] := by
      rw [hclosed.layers, if_pos rfl]
    have hadd : desk.add k ts v now =
        let opened := (mustClose desk.dev (desk.dev.keyOf k) (desk.dev.depth k) ts.unixMs now).2
        let closed := desk.close (desk.dev.keyOf k)
        let filled := Desk.fill
          { closed.1 with dev := openLayer closed.1.dev (desk.dev.keyOf k) ts opened }
          (desk.dev.keyOf k) (desk.dev.entry k v)
        (filled.1, closed.2 ++ filled.2) := by
      unfold DeviceTable.keyOf at hclose hdepth hlayers ⊢
      simp only [add, hclose, ↓reduceIte, hdepth, hlayers, List.length_nil]
      rfl
    obtain ⟨o, hstarted, hnone⟩ := start_spec (desk.close (desk.dev.keyOf k)).1
      (desk.dev.keyOf k) (desk.dev.entry k v) ts
      (mustClose desk.dev (desk.dev.keyOf k) (desk.dev.depth k) ts.unixMs now).2
      (by rw [hlayers]; exact hdepth)
    rw [hadd]
    simp only [parts_append, hparts, hnone, List.append_nil]
    exact .restart o hclose hclosed hdepth hstarted
  | false =>
    by_cases hdepth : desk.dev.depth k = (desk.dev.layers (desk.dev.keyOf k)).length
    · have hadd : desk.add k ts v now =
          let opened := (mustClose desk.dev (desk.dev.keyOf k) (desk.dev.depth k) ts.unixMs now).2
          Desk.fill { desk with dev := openLayer desk.dev (desk.dev.keyOf k) ts opened }
            (desk.dev.keyOf k) (desk.dev.entry k v) := by
        unfold DeviceTable.keyOf at hclose hdepth ⊢
        simp only [add, hclose, Bool.false_eq_true, ↓reduceIte, List.nil_append]
        rw [if_pos hdepth]
        rfl
      obtain ⟨o, hstarted, hnone⟩ := start_spec desk (desk.dev.keyOf k) (desk.dev.entry k v) ts
        (mustClose desk.dev (desk.dev.keyOf k) (desk.dev.depth k) ts.unixMs now).2 hdepth
      rw [hadd]
      simp only [hnone]
      exact .start o hclose hdepth hstarted
    · have hadd : desk.add k ts v now =
          desk.fill (desk.dev.keyOf k) (desk.dev.entry k v) := by
        unfold DeviceTable.keyOf at hclose hdepth ⊢
        simp only [add, hclose, Bool.false_eq_true, ↓reduceIte, hdepth, List.nil_append]
        rfl
      have hlt : desk.dev.depth k < (desk.dev.layers (desk.dev.keyOf k)).length :=
        lt_of_le_of_ne (hL.depth_le k) hdepth
      have ho := List.getElem?_eq_getElem hlt
      obtain ⟨hfilled, hparts⟩ := fill_spec desk (desk.dev.keyOf k) (desk.dev.entry k v) ho
      rw [hadd, hparts]
      exact .fill _ hclose ho hfilled

/-! ## In every run -/

variable {dev : DeviceTable} {now : Nat} {ts : OffsetDateTime} {new : List Part}

omit [Ryu] in
/-- A point at the deepest layer makes its key close. -/
theorem depth_lt_of_stay {key : Key} {depth : Nat} {tsMs : Int}
    (hstay : (mustClose dev key depth tsMs now).1 = false) (hle : depth ≤ (dev.layers key).length) :
    depth < MAX_LAYERS := by
  unfold DeviceTable.layers at hle
  unfold mustClose at hstay
  cases hopen : dev.openMsgs.lookup key with
  | none =>
    have hzero : depth = 0 := by simpa [hopen] using hle
    simp [hzero, MAX_LAYERS]
  | some layers =>
    cases layers with
    | nil =>
      have hzero : depth = 0 := by simpa [hopen] using hle
      simp [hzero, MAX_LAYERS]
    | cons first rest =>
      simp only [hopen] at hstay
      cases hg : key.2 with
      | frame window =>
        simp only [hg] at hstay
        split at hstay
        · cases hstay
        · split at hstay
          · cases hstay
          · omega
      | time =>
        have hzero : depth = 0 := by simp [hg] at hstay; omega
        simp [hzero, MAX_LAYERS]
      | sample every =>
        have hzero : depth = 0 := by simp [hg] at hstay; omega
        simp [hzero, MAX_LAYERS]

omit [Ryu] in
theorem mustClose_stay {key : Key} {depth window : Nat} {tsMs : Int}
    (hframe : key.2 = .frame window) (hnow : now < window) (hlt : depth < MAX_LAYERS) :
    (mustClose dev key depth tsMs now).1 = false := by
  unfold mustClose
  split
  · simp only [hframe]
    rw [if_neg (by omega), if_neg (by omega)]
  · rfl

theorem Added.starts {dev dev' : DeviceTable} {k : Nat} {v : Float}
    (ha : Added dev k ts v now dev' new)
    (hstay : (mustClose dev (dev.keyOf k) (dev.depth k) ts.unixMs now).1 = false)
    (hdepth : dev.depth k = (dev.layers (dev.keyOf k)).length) :
    (∃ o, Started (dev.keyOf k) ts (dev.entry k v) o dev dev') ∧ new = [] := by
  cases ha with
  | fill o _ ho hf => simp [hdepth] at ho
  | start o _ _ hs => exact ⟨⟨o, hs⟩, rfl⟩
  | restart o hclose => simp [hstay] at hclose

theorem Added.overflows {dev dev' : DeviceTable} {k : Nat} {v : Float} {o : Open}
    (ha : Added dev k ts v now dev' new)
    (hstay : (mustClose dev (dev.keyOf k) (dev.depth k) ts.unixMs now).1 = false)
    (ho : (dev.layers (dev.keyOf k))[dev.depth k]? = some o) (hfull : dev.splits k v o = true) :
    Filled (dev.keyOf k) k { o with entries := [dev.entry k v], points := o.points ++ [k] } dev dev' ∧
      new = [{ topic := (dev.topic (dev.keyOf k).1).topic, key := dev.keyOf k, time := o.time,
               entries := o.entries, ends := false }] := by
  cases ha with
  | fill o' _ ho' hf =>
    obtain rfl : o = o' := Option.some.inj (ho.symm.trans ho')
    simp only [hfull, ↓reduceIte] at hf ⊢
    exact ⟨hf, trivial⟩
  | start o _ hdepth hs => simp [hdepth] at ho
  | restart o hclose => simp [hstay] at hclose

/-- Adding keeps the layers in order. -/
theorem Layered.added {dev dev' : DeviceTable} {k : Nat} {v : Float} (h : Layered dev)
    (hk : dev.Located k) (ha : Added dev k ts v now dev' new) : Layered dev' := by
  cases ha with
  | fill o hstay ho hfilled =>
    refine h.filled (e := dev.entry k v) ho hfilled hk rfl ?_
    split
    · exact .inl rfl
    · exact .inr rfl
  | start o hstay hdepth hstarted =>
    exact h.started (e := dev.entry k v) hstarted hdepth (depth_lt_of_stay hstay hdepth.le) hk rfl
  | @restart mid _ o hclose hclosed hdepth hstarted =>
    have hmid := h.closed hclosed
    have hkey : mid.keyOf k = dev.keyOf k := hclosed.toFixed.keyOf k
    have hlayers : mid.layers (mid.keyOf k) = [] := by
      rw [hkey, hclosed.layers, if_pos rfl]
    rw [← hkey] at hstarted
    refine hmid.started (e := dev.entry k v) hstarted ?_ ?_ ?_ ?_
    · show mid.depth k = (mid.layers (mid.keyOf k)).length
      rw [hdepth, hlayers]
      rfl
    · show mid.depth k < MAX_LAYERS
      rw [hdepth]
      decide
    · obtain ⟨id, hid⟩ := hk
      exact ⟨id, by rw [hclosed.index, hid]; rfl⟩
    · exact congrArg PointPlan.seriesKey (hclosed.toFixed.plan k).symm

/-- **Layer rule**: what closing a key and taking a reading keep, and what does not depend on
slots and samples, holds of each device in every run of the batcher. -/
theorem layered_history {C : DeviceTable → Call → Prop}
    {P : DeviceTable → List (Nat × Float) → List Part → Prop}
    (hfree : ∀ dev c, c.offered = [] → C dev c)
    (hclose : ∀ dev dev' key ins past, Layered dev → Closed key dev dev' → P dev ins past →
      P dev' ins (past ++ dev.closing key))
    (hquiet : ∀ dev dev' ins past new, Quiet dev dev' → SampleParts dev new → P dev ins past →
      P dev' ins (past ++ new))
    (hhold : ∀ dev dev' ins past k v, Quiet dev dev' → (dev.plan k).groupBy.isSample →
      P dev ins past → P dev' (ins ++ [(k, v)]) past)
    (hadd : ∀ dev dev' k ts v now new ins past, Layered dev → dev.Located k →
      (dev.plan k).groupBy.isSample = false → C dev (.value k ts v now) →
        Added dev k ts v now dev' new → P dev ins past → P dev' (ins ++ [(k, v)]) (past ++ new))
    {b : Batcher} {ops : List Op} {d : Nat} (hC : AllSteps step (Batcher.OpMeets C) b ops)
    (h : ∀ dev, b.devices[d]? = some dev → Layered dev ∧ P dev [] [])
    (hdev : (final step b ops).devices[d]? = some dev) :
    Layered dev ∧ P dev (Batcher.offeredTo d (ops.flatMap b.calls))
      (Batcher.partsOf d ((log step b ops).flatMap fun e => e.2.emissions)) := by
  refine Batcher.device_history (P := fun dev ins past => Layered dev ∧ P dev ins past) hfree
    (fun desk c ins past hlocated hc hP => ?_) hC h hdev
  refine call_rule (P := fun dev ins past => Layered dev ∧ P dev ins past) ?_ ?_ ?_ desk c ins past
    ?_ hP
  · rintro desk key ins past ⟨hL, hP⟩
    have hclosed := (close_spec desk key).1
    rw [hL.close_parts]
    exact ⟨hL.closed hclosed, hclose _ _ key ins past hL hclosed hP⟩
  · rintro dev dev' ins past new hq hnew ⟨hL, hP⟩
    exact ⟨hL.quiet hq, hquiet dev dev' ins past new hq hnew hP⟩
  · rintro dev dev' ins past k v hq hk ⟨hL, hP⟩
    exact ⟨hL.quiet hq, hhold dev dev' ins past k v hq hk hP⟩
  · rintro k ts v now rfl hk
    have ha := add_effect desk hP.1 k ts v now
    exact ⟨hP.1.added hlocated ha, hadd _ _ k ts v now _ ins past hP.1 hlocated hk hc ha hP.2⟩

theorem layered_run {b : Batcher} {ops : List Op} {d : Nat}
    (h : ∀ dev, b.devices[d]? = some dev → Layered dev)
    (hdev : (final step b ops).devices[d]? = some dev) : Layered dev := by
  have hrun := layered_history (C := fun _ _ => True) (P := fun _ _ _ => True)
    (by simp) (by simp) (by simp) (by simp) (by simp)
    (allSteps_of_forall (fun _ _ _ _ _ _ => trivial) b ops) (fun dev hd => ⟨h dev hd, trivial⟩) hdev
  exact hrun.1

end TedgeDot.Measure
