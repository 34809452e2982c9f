import TedgeDot.Library.Resolve

/-!
# The merge law

What the definitions of a device come to when they are laid over each other, in terms of the
definitions alone: which ids there are and in which order, what each field holds, how the merged
tables are made, and which library an address belongs to.
-/

namespace TedgeDot.Library

/-- A point definition as it is written, with the `[library]` table of the library it stands in,
unless it is the device's own. -/
structure Definition where
  library : Option Toml
  point : Toml

/-- The definition with the origin of its address, as it is merged. -/
def Definition.laid (d : Definition) : Toml := withOrigin d.library d.point

/-- A definition of an id, as the code sees one: a table the parser built, in which nobody wrote
where its address comes from. -/
structure Definition.Written (d : Definition) : Prop where
  wellFormed : d.point.WellFormed
  library : ∀ l ∈ d.library, l.WellFormed
  noOrigin : d.point.get ADDRESS_ORIGIN = none

/-- The values that definitions declare for a key, in order. -/
def declared (points : List Toml) (key : String) : List Toml := points.filterMap fun p => p.get key

/-- Values merged table by table: from the last value on that is not a table everything before it
is gone, and the tables after it are merged key by key in the same way. -/
inductive MergesTo : List Toml → Toml → Prop
  | replaced (before : List Toml) (v : Toml) : v.asTable = none → MergesTo (before ++ [v]) v
  | merged (before : List Toml) (tables : List TomlTable) (table : TomlTable) :
      (∀ v ∈ before.getLast?, Toml.asTable v = none) → tables ≠ [] → table.Sorted →
      (∀ key v, table.get key = some v → MergesTo (tables.filterMap fun t => t.get key) v) →
      (∀ key, table.get key = none → ∀ t ∈ tables, TomlTable.get t key = none) →
      MergesTo (before ++ tables.map .table) (.table table)

/-- What values are merged to, where there are any. -/
def Combined (values : List Toml) : Option Toml → Prop
  | none => values = []
  | some v => MergesTo values v

/-- The definitions of an id, in order. -/
def definitionsOf (defs : List Definition) (id : String) : List Definition :=
  defs.filter fun d => pointId d.point == some id

/-- The library whose address stands: that of the last definition that declares one, if it is a
library's. -/
def originOf (defs : List Definition) : Option Toml :=
  ((defs.filter fun d => (d.point.get "address").isSome).getLast?).bind Definition.library

/-- The law of the resolved points of a device. -/
structure MergeLaw (defs : List Definition) (points : List Toml) : Prop where
  /-- Each id once, in the order of the first definitions. -/
  ids : points.filterMap pointId = (defs.filterMap fun d => pointId d.point).eraseDups
  /-- The last definition that declares a field wins. -/
  fields : ∀ p ∈ points, ∀ id, pointId p = some id → ∀ key, key ∉ DEEP_MERGED_KEYS →
    key ≠ ADDRESS_ORIGIN →
    p.get key = (declared ((definitionsOf defs id).map Definition.point) key).getLast?
  /-- The merged tables. -/
  tables : ∀ p ∈ points, ∀ id, pointId p = some id → ∀ key ∈ DEEP_MERGED_KEYS,
    Combined (declared ((definitionsOf defs id).map Definition.point) key) (p.get key)
  /-- The origin follows the address. -/
  origin : ∀ p ∈ points, ∀ id, pointId p = some id →
    p.get ADDRESS_ORIGIN = originOf (definitionsOf defs id)

/-! ## Merged tables -/

theorem filterMap_singleton {α β : Type} (f : α → Option β) (x : α) :
    [x].filterMap f = (f x).toList := by
  cases h : f x <;> simp [h]

theorem mergeValue_none (v : Toml) : mergeValue none v = v := by
  cases v <;> rfl

theorem mergeValue_of_not_table {base : Toml} (h : base.asTable = none) (v : Toml) :
    mergeValue (some base) v = v := by
  cases v with
  | table entries =>
    cases base with
    | table base => cases h
    | _ => rfl
  | _ => rfl

theorem MergesTo.single (v : Toml) (h : v.WellFormed) : MergesTo [v] v := by
  induction v using Toml.induction with
  | table entries ih =>
    have hentries := (Toml.entriesWellFormed_iff entries).mp h.2
    apply MergesTo.merged [] [entries] entries (by simp) (by simp) h.1
    · intro key v hget
      rw [filterMap_singleton, hget]
      have hmem := TomlTable.mem_of_get hget
      exact ih _ hmem (hentries _ hmem)
    · intro key hget t ht
      obtain rfl := List.mem_singleton.mp ht
      exact hget
  | _ => exact MergesTo.replaced [] _ rfl

/-- One more definition of a point, merged over what the earlier ones came to. -/
theorem MergesTo.snoc {values : List Toml} {base : Toml} (h : MergesTo values base) (v : Toml)
    (hv : v.WellFormed) : MergesTo (values ++ [v]) (mergeValue (some base) v) := by
  -- tables merge key by key; anything else replaces what was there
  induction v using Toml.induction generalizing values base with
  | table entries ih =>
    have hentries := (Toml.entriesWellFormed_iff entries).mp hv.2
    cases h with
    | replaced before _ hbase =>
      -- the table takes the place of what is not one
      rw [mergeValue_of_not_table hbase]
      apply MergesTo.merged (before ++ [base]) [entries] entries
      · intro w hw
        rw [List.getLast?_concat] at hw
        obtain rfl := Option.some.inj hw
        exact hbase
      · simp
      · exact hv.1
      · intro key w hget
        rw [filterMap_singleton, hget]
        exact MergesTo.single w (hentries _ (TomlTable.mem_of_get hget))
      · intro key hget t ht
        obtain rfl := List.mem_singleton.mp ht
        exact hget
    | merged before tables base hbefore hne hsorted hvalues hnone =>
      have hshape : before ++ tables.map Toml.table ++ [.table entries] =
          before ++ (tables ++ [entries]).map Toml.table := by simp
      rw [hshape]
      show MergesTo _ (.table (mergeTable base entries))
      apply MergesTo.merged before (tables ++ [entries]) _ hbefore (by simp)
        (sorted_mergeTable hsorted entries)
      · intro key w hget
        rw [get_mergeTable base hv.1] at hget
        rw [List.filterMap_append, filterMap_singleton]
        cases hentry : TomlTable.get entries key with
        | none =>
          rw [hentry] at hget
          rw [Option.toList_none, List.append_nil]
          exact hvalues key w hget
        | some x =>
          have hmem := TomlTable.mem_of_get hentry
          rw [hentry] at hget
          obtain rfl := Option.some.inj hget
          rw [Option.toList_some]
          cases hold : base.get key with
          | none =>
            have hnil : (tables.filterMap fun t => t.get key) = [] :=
              List.filterMap_eq_nil_iff.mpr fun t ht => hnone key hold t ht
            rw [hnil, mergeValue_none]
            exact MergesTo.single x (hentries _ hmem)
          | some y => exact ih _ hmem (hvalues key y hold) (hentries _ hmem)
      · intro key hget t ht
        rw [get_mergeTable base hv.1] at hget
        cases hentry : TomlTable.get entries key with
        | none =>
          rw [hentry] at hget
          rcases List.mem_append.mp ht with ht | ht
          · exact hnone key hget t ht
          · obtain rfl := List.mem_singleton.mp ht
            exact hentry
        | some x =>
          rw [hentry] at hget
          cases hget
  | _ => exact MergesTo.replaced values _ rfl

theorem Combined.snoc {values : List Toml} {old : Option Toml} (h : Combined values old) {v : Toml}
    (hv : v.WellFormed) : Combined (values ++ [v]) (some (mergeValue old v)) := by
  cases old with
  | none =>
    have hnil : values = [] := h
    rw [hnil, mergeValue_none]
    exact MergesTo.single v hv
  | some base => exact MergesTo.snoc h v hv

/-! ## One definition as it is merged -/

namespace Definition

variable {d : Definition}

theorem get_laid (d : Definition) {key : String} (h : key ≠ ADDRESS_ORIGIN) :
    d.laid.get key = d.point.get key := by
  unfold laid withOrigin
  split
  · rename_i hpoint
    split
    · show TomlTable.get (TomlTable.insert _ _ _) key = _
      rw [TomlTable.get_insert, if_neg (Ne.symm h), hpoint]
      rfl
    · rw [hpoint]
  · rfl

theorem pointId_laid (d : Definition) : pointId d.laid = pointId d.point := by
  unfold pointId
  rw [get_laid d (by decide)]

/-- A definition keeps the origin of its address if it has one. -/
theorem origin_laid (h : d.Written) :
    d.laid.get ADDRESS_ORIGIN = if (d.point.get "address").isSome then d.library else none := by
  unfold laid
  cases hlibrary : d.library with
  | none =>
    show d.point.get ADDRESS_ORIGIN = _
    rw [h.noOrigin, ite_self]
  | some library =>
    cases hpoint : d.point with
    | table entries =>
      have hnone := h.noOrigin
      rw [hpoint] at hnone
      show Toml.get (if (TomlTable.get entries "address").isSome then
          Toml.table (TomlTable.insert entries ADDRESS_ORIGIN library) else .table entries)
        ADDRESS_ORIGIN = if (TomlTable.get entries "address").isSome then some library else none
      split
      · show TomlTable.get (TomlTable.insert _ _ _) _ = _
        rw [TomlTable.get_insert, if_pos rfl]
      · exact hnone
    | _ => rfl

/-- Laying a definition out keeps its keys distinct. -/
theorem wellFormed_laid (h : d.Written) : d.laid.WellFormed := by
  unfold laid withOrigin
  split
  · rename_i library entries hlibrary hpoint
    have hw := h.wellFormed
    rw [hpoint] at hw
    split
    · refine ⟨TomlTable.sorted_insert _ _ hw.1, ?_⟩
      rw [Toml.entriesWellFormed_iff]
      intro e he
      have hget := TomlTable.get_of_mem (TomlTable.sorted_insert _ _ hw.1) he
      rw [TomlTable.get_insert] at hget
      split at hget
      · -- the origin itself
        rw [← Option.some.inj hget]
        exact h.library library hlibrary
      · exact (Toml.entriesWellFormed_iff _).mp hw.2 _ (TomlTable.mem_of_get hget)
    · exact hw
  · exact h.wellFormed

end Definition

/-! ## The definitions of one id -/

/-- What a point holds once the definitions of its id are merged. -/
structure Settled (defs : List Definition) (p : Toml) : Prop where
  table : p.asTable.isSome = true
  fields : ∀ key, key ∉ DEEP_MERGED_KEYS → key ≠ ADDRESS_ORIGIN →
    p.get key = (declared (defs.map Definition.point) key).getLast?
  tables : ∀ key ∈ DEEP_MERGED_KEYS,
    Combined (declared (defs.map Definition.point) key) (p.get key)
  origin : p.get ADDRESS_ORIGIN = originOf defs

theorem declared_snoc (points : List Toml) (p : Toml) (key : String) :
    declared (points ++ [p]) key = declared points key ++ (p.get key).toList := by
  unfold declared
  rw [List.filterMap_append, filterMap_singleton]

theorem originOf_snoc (defs : List Definition) (d : Definition) :
    originOf (defs ++ [d]) =
      if (d.point.get "address").isSome then d.library else originOf defs := by
  unfold originOf
  rw [List.filter_append]
  split
  · rename_i h
    rw [List.filter_cons_of_pos (by exact h), List.filter_nil, List.getLast?_concat]
    rfl
  · rename_i h
    rw [List.filter_cons_of_neg (by exact h), List.filter_nil, List.append_nil]

theorem ne_origin_of_deep {key : String} (h : key ∈ DEEP_MERGED_KEYS) : key ≠ ADDRESS_ORIGIN := by
  rintro rfl
  exact absurd h (by decide)

variable {d : Definition} {defs : List Definition} {merged : Merged}

theorem table_of_id {id : String} (h : pointId d.point = some id) :
    ∃ table : TomlTable, d.laid = .table table := by
  rw [← Definition.pointId_laid] at h
  obtain ⟨table, htable, -⟩ := table_of_pointId h
  exact ⟨table, htable⟩

/-- A point with one definition. -/
theorem Settled.first (h : d.Written) {id : String} (hid : pointId d.point = some id) :
    Settled [d] d.laid := by
  have hone (key : String) : declared ([d].map Definition.point) key = (d.point.get key).toList := by
    have := declared_snoc [] d.point key
    simpa [declared] using this
  constructor
  · obtain ⟨table, htable⟩ := table_of_id hid
    rw [htable]
    rfl
  · intro key _ hkey
    rw [hone, Definition.get_laid d hkey]
    cases d.point.get key <;> rfl
  · intro key hkey
    rw [hone, Definition.get_laid d (ne_origin_of_deep hkey)]
    cases hget : d.point.get key with
    | none => rfl
    | some v => exact MergesTo.single v (h.wellFormed.get hget)
  · rw [Definition.origin_laid h]
    have := originOf_snoc [] d
    rw [List.nil_append] at this
    rw [this]
    rfl

theorem origin_mergePointTable {base above : TomlTable} (h : above.Sorted) :
    (mergePointTable base above).get ADDRESS_ORIGIN =
      if (above.get ADDRESS_ORIGIN).isSome then above.get ADDRESS_ORIGIN
      else if (above.get "address").isSome then none else base.get ADDRESS_ORIGIN := by
  have hbase : (if above.containsKey "address" then base.remove ADDRESS_ORIGIN else base).get
      ADDRESS_ORIGIN = if (above.get "address").isSome then none else base.get ADDRESS_ORIGIN := by
    unfold TomlTable.containsKey
    split
    · rw [TomlTable.get_remove, if_pos rfl]
    · rfl
  have hdeep : DEEP_MERGED_KEYS.contains ADDRESS_ORIGIN = false := by decide
  rw [mergePointTable, TomlTable.get_mergeWith _ _ h, hbase]
  cases above.get ADDRESS_ORIGIN with
  | none => rfl
  | some v => simp only [hdeep, Bool.false_eq_true, if_false, Option.isSome_some, if_true]

/-- Merging a further definition of a point keeps the law. -/
theorem Settled.again {p : Toml} (hp : Settled defs p) (h : d.Written) {id : String}
    (hid : pointId d.point = some id) : Settled (defs ++ [d]) (mergeInto p d.laid) := by
  obtain ⟨base, hbase⟩ := Option.isSome_iff_exists.mp hp.table
  obtain ⟨above, habove⟩ := table_of_id hid
  cases p with
  | table entries =>
    obtain rfl := Option.some.inj hbase
    have hsorted : above.Sorted := by
      have := Definition.wellFormed_laid h
      rw [habove] at this
      exact this.1
    -- the new definition is as written but for the origin of its address
    have hget {key : String} (hkey : key ≠ ADDRESS_ORIGIN) : above.get key = d.point.get key := by
      rw [← Definition.get_laid d hkey, habove]
      rfl
    rw [habove]
    constructor
    · rfl
    · intro key hdeep hkey
      show (mergePointTable entries above).get key = _
      rw [get_mergePointTable entries hsorted hkey, hget hkey, List.map_append, List.map_singleton,
        declared_snoc]
      cases d.point.get key with
      | none =>
        rw [Option.toList_none, List.append_nil]
        exact hp.fields key hdeep hkey
      | some v =>
        rw [Option.toList_some, List.getLast?_concat]
        simp [hdeep]
    · intro key hdeep
      have hkey := ne_origin_of_deep hdeep
      show Combined _ ((mergePointTable entries above).get key)
      rw [get_mergePointTable entries hsorted hkey, hget hkey, List.map_append, List.map_singleton,
        declared_snoc]
      cases hvalue : d.point.get key with
      | none =>
        rw [Option.toList_none, List.append_nil]
        exact hp.tables key hdeep
      | some v =>
        have hcontains : DEEP_MERGED_KEYS.contains key = true := by simpa using hdeep
        rw [Option.toList_some]
        simp only [hcontains, if_true]
        exact (hp.tables key hdeep).snoc (h.wellFormed.get hvalue)
    · show (mergePointTable entries above).get ADDRESS_ORIGIN = _
      have horigin : above.get ADDRESS_ORIGIN =
          if (d.point.get "address").isSome then d.library else none := by
        rw [← Definition.origin_laid h, habove]
        rfl
      rw [origin_mergePointTable hsorted, horigin, hget (by decide), originOf_snoc]
      by_cases haddress : (d.point.get "address").isSome = true
      · simp only [haddress, if_true]
        cases d.library <;> rfl
      · simp only [haddress]
        exact hp.origin
  | _ => cases hbase

/-- A point merged from its definitions in order follows the law. -/
theorem settled_mergedDefinition (h : ∀ d ∈ defs, d.Written) {id : String}
    (hid : ∀ d ∈ defs, pointId d.point = some id) {p : Toml}
    (hp : mergedDefinition (defs.map Definition.laid) = some p) : Settled defs p := by
  induction defs using List.reverseRecOn generalizing p with
  | nil => cases hp
  | append_singleton defs d ih =>
    have hd := h d (by simp)
    have hdid := hid d (by simp)
    rw [List.map_append, List.map_singleton] at hp
    cases hbefore : mergedDefinition (defs.map Definition.laid) with
    | none =>
      -- the first definition
      have hnil : defs = [] := by
        cases defs with
        | nil => rfl
        | cons => cases hbefore
      subst hnil
      obtain rfl := Option.some.inj hp
      exact Settled.first hd hdid
    | some base =>
      rw [mergedDefinition_snoc hbefore] at hp
      obtain rfl := Option.some.inj hp
      have hbase := ih (fun d' hd' => h d' (by simp [hd'])) (fun d' hd' => hid d' (by simp [hd']))
        hbefore
      exact hbase.again hd hdid

/-! ## The ids -/

theorem filterMap_modify {α β : Type} (g : α → Option β) (f : α → α) (l : List α) (i : Nat)
    (h : ∀ x, l[i]? = some x → g (f x) = g x) : (l.modify i f).filterMap g = l.filterMap g := by
  induction l generalizing i with
  | nil => simp
  | cons x l ih =>
    cases i with
    | zero => simp [List.modify, List.filterMap_cons, h x rfl]
    | succ i =>
      rw [List.modify_succ_cons, List.filterMap_cons, List.filterMap_cons, ih i fun y hy => h y hy]

theorem eraseDups_snoc (ids : List String) (id : String) :
    (ids ++ [id]).eraseDups = if id ∈ ids then ids.eraseDups else ids.eraseDups ++ [id] := by
  rw [List.eraseDups_append]
  by_cases h : id ∈ ids
  · simp [List.removeAll, h]
  · simp [List.removeAll, h, List.eraseDups_cons]

/-- The index knows exactly the ids seen so far. -/
theorem Follows.indexed {seen : List Toml} (h : Follows seen merged) (id : String) :
    merged.position id = none ↔ id ∉ seen.filterMap pointId := by
  rw [List.mem_filterMap]
  constructor
  · rintro hat ⟨p, hp, hid⟩
    have hmem : p ∈ definitions seen id := List.mem_filter.mpr ⟨hp, by simp [hid]⟩
    rw [h.unknown id hat] at hmem
    cases hmem
  · intro hnone
    cases hat : merged.position id with
    | none => rfl
    | some i =>
      obtain ⟨p, hp, hid⟩ := (h.located id i).mp hat
      have hmerged := h.merges p (List.mem_of_getElem? hp) id hid
      cases hdefs : definitions seen id with
      | nil =>
        rw [hdefs] at hmerged
        cases hmerged
      | cons q rest =>
        have hq : q ∈ definitions seen id := by rw [hdefs]; exact List.mem_cons_self
        have hq := List.mem_filter.mp hq
        exact absurd ⟨q, hq.1, by simpa using hq.2⟩ hnone

/-- The merged points have the ids seen so far, each once, in the order of their first. -/
theorem ids_mergePoint {seen : List Toml} (h : Follows seen merged) {incoming : Toml}
    (hw : incoming.WellFormed)
    (hids : merged.points.filterMap pointId = (seen.filterMap pointId).eraseDups) :
    (mergePoint merged incoming).points.filterMap pointId =
      ((seen ++ [incoming]).filterMap pointId).eraseDups := by
  rw [List.filterMap_append]
  unfold mergePoint
  cases hid : pointId incoming with
  | none =>
    simp only
    rw [List.filterMap_append, filterMap_singleton, hid, Option.toList_none, List.append_nil,
      List.append_nil, hids]
  | some id =>
    simp only
    rw [filterMap_singleton, hid, Option.toList_some, eraseDups_snoc]
    cases hat : merged.position id with
    | none =>
      rw [if_neg ((h.indexed id).mp hat), ← hids]
      show (merged.points ++ [incoming]).filterMap pointId = _
      rw [List.filterMap_append, filterMap_singleton, hid, Option.toList_some]
    | some i =>
      have hmem : id ∈ seen.filterMap pointId := by
        by_contra hnot
        rw [(h.indexed id).mpr hnot] at hat
        cases hat
      rw [if_pos hmem, ← hids]
      apply filterMap_modify
      intro base hbase
      obtain ⟨p, hp, hpid⟩ := (h.located id i).mp hat
      obtain rfl := Option.some.inj (hbase.symm.trans hp)
      rw [pointId_mergeInto hpid hid hw, hpid]

theorem ids_foldl {seen all : List Toml} (h : Follows seen merged) (hw : ∀ p ∈ all, p.WellFormed)
    (hids : merged.points.filterMap pointId = (seen.filterMap pointId).eraseDups) :
    (all.foldl mergePoint merged).points.filterMap pointId =
      ((seen ++ all).filterMap pointId).eraseDups := by
  induction all generalizing seen merged with
  | nil => simpa using hids
  | cons incoming rest ih =>
    rw [List.forall_mem_cons] at hw
    have := ih (h.step hw.1) hw.2 (ids_mergePoint h hw.1 hids)
    simpa using this

/-- Points with distinct ids are all kept as they are. -/
theorem foldl_of_nodup {seen all : List Toml} (h : Follows seen merged)
    (hw : ∀ p ∈ all, p.WellFormed) (hnodup : ((seen ++ all).filterMap pointId).Nodup) :
    (all.foldl mergePoint merged).points = merged.points ++ all := by
  induction all generalizing seen merged with
  | nil => simp
  | cons incoming rest ih =>
    rw [List.forall_mem_cons] at hw
    have hstep : (mergePoint merged incoming).points = merged.points ++ [incoming] := by
      unfold mergePoint
      cases hid : pointId incoming with
      | none => rfl
      | some id =>
        have hnew : merged.position id = none := by
          rw [h.indexed]
          rw [List.filterMap_append, List.filterMap_cons_some hid] at hnodup
          intro hmem
          exact (List.nodup_append.mp hnodup).2.2 id hmem id List.mem_cons_self rfl
        simp only [hnew]
        rfl
    rw [List.foldl_cons, ih (h.step hw.1) hw.2 (by simpa using hnodup), hstep]
    simp

/-! ## The law -/

theorem definitions_laid (defs : List Definition) (id : String) :
    definitions (defs.map Definition.laid) id = (definitionsOf defs id).map Definition.laid := by
  unfold definitions definitionsOf
  rw [List.filter_map]
  congr 1
  apply List.filter_congr
  intro d _
  simp [Definition.pointId_laid]

theorem ids_laid (defs : List Definition) :
    (defs.map Definition.laid).filterMap pointId = defs.filterMap fun d => pointId d.point := by
  rw [List.filterMap_map]
  apply List.filterMap_congr
  intro d _
  exact Definition.pointId_laid d

/-- The fold over all definitions follows the merge law. -/
theorem mergeLaw_foldl (h : ∀ d ∈ defs, d.Written) :
    MergeLaw defs ((defs.map Definition.laid).foldl mergePoint {}).points := by
  have hw : ∀ p ∈ defs.map Definition.laid, p.WellFormed := by
    intro p hp
    obtain ⟨d, hd, rfl⟩ := List.mem_map.mp hp
    exact Definition.wellFormed_laid (h d hd)
  have hfollows := follows_empty.fold hw
  rw [List.nil_append] at hfollows
  have hsettled : ∀ p ∈ ((defs.map Definition.laid).foldl mergePoint {}).points, ∀ id,
      pointId p = some id → Settled (definitionsOf defs id) p := by
    intro p hp id hid
    have hmerged := hfollows.merges p hp id hid
    rw [definitions_laid] at hmerged
    apply @settled_mergedDefinition _ _ id _ p hmerged
    · intro d hd
      exact h d (List.mem_filter.mp hd).1
    · intro d hd
      simpa using (List.mem_filter.mp hd).2
  constructor
  · have hids := ids_foldl follows_empty hw (by rfl)
    rw [List.nil_append, ids_laid] at hids
    exact hids
  · intro p hp id hid
    exact (hsettled p hp id hid).fields
  · intro p hp id hid
    exact (hsettled p hp id hid).tables
  · intro p hp id hid
    exact (hsettled p hp id hid).origin

theorem nodup_eraseDups (ids : List String) : ids.eraseDups.Nodup := by
  induction ids using List.reverseRecOn with
  | nil => exact List.nodup_nil
  | append_singleton ids id ih =>
    rw [eraseDups_snoc]
    split
    · exact ih
    · rename_i hnew
      have hnot : id ∉ ids.eraseDups := by rwa [List.mem_eraseDups]
      exact List.nodup_append.mpr ⟨ih, List.nodup_singleton id, by
        rintro a ha b hb rfl
        obtain rfl := List.mem_singleton.mp hb
        exact hnot ha⟩

end TedgeDot.Library
