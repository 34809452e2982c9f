import TedgeDot.Lib.Except
import Mathlib.Data.List.Induction
import TedgeDot.Library.Merge
import TedgeDot.Measure.Plan

/-!
# The batch policy a point inherits

The `batch` tables of `[connector]`, a device and the definitions of a point, as each was
written, against the `group_by` the merged table of the point ends up with. Each table is checked
as written (`check_values`). The definitions of a point are merged key by key first, and
`aggregate` chooses `"sample"` only in the table that results.
-/

namespace TedgeDot.Measure

/-- The values `batch.aggregate` may name. -/
def AGGREGATES : List String := ["mean", "min", "max", "last"]

def WINDOW_MIN : Nat := Duration.fromMillis 1

def WINDOW_MAX : Nat := Duration.fromSecs 60

def EVERY_MIN : Nat := Duration.fromMillis 100

def EVERY_MAX : Nat := Duration.fromSecs 3600

/-- The keys that belong to one policy. -/
def POLICY_KEYS : List (String × String) :=
  [("window", "frame"), ("every", "sample"), ("aggregate", "sample")]

/-- The check of `group_by`, and that a table which chooses its policy sets only its keys. -/
def checkGroupBy (map : TomlTable) : Except String Unit :=
  match map.get "group_by" with
  | none => .ok ()
  | some v =>
    match v.asStr with
    | some groupBy =>
      if groupBy == "time" || groupBy == "frame" || groupBy == "sample" then
        match POLICY_KEYS.find? fun e => map.containsKey e.1 && groupBy != e.2 with
        | some (key, _) => .error s!"batch.{key} does not apply to group_by = \"{groupBy}\""
        | none => .ok ()
      else .error "batch.group_by must be \"time\", \"frame\" or \"sample\""
    | none => .error "batch.group_by must be \"time\", \"frame\" or \"sample\""

/-- `within`: a duration in a range. -/
def checkWithin (map : TomlTable) (key : String) (min max : Nat) (range : String) :
    Except String Unit :=
  match map.get key with
  | none => .ok ()
  | some v =>
    match v.asStr.bind parseDuration with
    | some d =>
      if min ≤ d && d ≤ max then .ok () else .error s!"batch.{key} must be a duration from {range}"
    | none => .error s!"batch.{key} must be a duration from {range}"

/-- The names `aggregate` lists. -/
def aggregateNames : Toml → Option (List String)
  | .string a => some [a]
  | .array list => if list.isEmpty then none else list.mapM Toml.asStr
  | _ => none

/-- The check of `aggregate`. -/
def checkAggregate (map : TomlTable) : Except String Unit :=
  match map.get "aggregate" with
  | none => .ok ()
  | some v =>
    match aggregateNames v with
    | some names =>
      if names.all AGGREGATES.contains && decide names.Nodup then .ok ()
      else .error
        "batch.aggregate must be \"mean\", \"min\", \"max\" or \"last\", or a list of them without repeats"
    | none => .error
        "batch.aggregate must be \"mean\", \"min\", \"max\" or \"last\", or a list of them without repeats"

/-- `check_values`: one `batch` table as written. -/
def checkValues (table : Toml) : Except String Unit :=
  match table.asTable with
  | none => .error "batch must be a table"
  | some map => do
    checkGroupBy map
    checkWithin map "window" WINDOW_MIN WINDOW_MAX "1ms to 60s"
    checkWithin map "every" EVERY_MIN EVERY_MAX "100ms to 1h"
    checkAggregate map

/-- `check_batch` of `library.rs`: the `batch` table of a connector, device or point. -/
def checkBatch (table : Toml) : Except String Unit :=
  match table.get "batch" with
  | none => .ok ()
  | some batch => checkValues batch

/-- The name of a policy in `group_by`. -/
def GroupBy.name : GroupBy → String
  | .time => "time"
  | .frame _ => "frame"
  | .sample _ => "sample"

/-! ## The choice of a table -/

/-- The policy a table chooses by its `group_by` and `aggregate`. -/
def choice (groupBy aggregate : Option Toml) : Option String :=
  match groupBy with
  | some v => v.asStr
  | none => if aggregate.isSome then some "sample" else none

/-- The policy one table chooses at its own level. -/
def chosenBy (batch : TomlTable) : Option String :=
  choice (batch.get "group_by") (batch.get "aggregate")

/-- The `batch` table written at a level. -/
def batchOf (table : Toml) : Option TomlTable := (table.get "batch").bind Toml.asTable

/-- The most specific table that chooses, the tables given from the most general on. -/
def chosen (levels : List TomlTable) : String := (levels.reverse.findSome? chosenBy).getD "time"

/-- The most specific table to choose does so by its `aggregate`, over a table of the same point
that has the `group_by` of another policy. The tables are given from the most specific on. -/
def overruled : List TomlTable → Bool
  | [] => false
  | batch :: rest =>
    if batch.containsKey "group_by" then false
    else if batch.containsKey "aggregate" then
      match rest.findSome? fun b => b.get "group_by" with
      | some v => v.asStr != some "sample"
      | none => false
    else overruled rest

/-- The definitions a resolved point is made of, from the most general on. -/
def layers (libraries : List (List Toml)) (inline : List Toml) (resolved : Toml) (id : String) :
    List Toml :=
  match libraries with
  | [] => [resolved]
  | _ => Library.definitions (libraries.flatten ++ inline) id

/-! ## What the checks leave -/

def POLICIES : List String := ["time", "frame", "sample"]

/-- A table that passed its check: `group_by` names a policy, and neither it nor `aggregate` is
a table. -/
structure CheckedTable (batch : TomlTable) : Prop where
  groupBy : ∀ v, batch.get "group_by" = some v → ∃ g ∈ POLICIES, v = .string g
  aggregate : ∀ v, batch.get "aggregate" = some v → v.asTable = none

theorem groupBy_of_check {map : TomlTable} (h : checkGroupBy map = .ok ()) {v : Toml}
    (hv : map.get "group_by" = some v) : ∃ g ∈ POLICIES, v = .string g := by
  unfold checkGroupBy at h
  rw [hv] at h
  cases v with
  | string g =>
    refine ⟨g, ?_, rfl⟩
    simp only [Toml.asStr] at h
    split at h
    · rename_i hg
      simpa [POLICIES, Bool.or_eq_true, or_assoc] using hg
    · cases h
  | _ => cases h

theorem aggregate_of_check {map : TomlTable} (h : checkAggregate map = .ok ()) {v : Toml}
    (hv : map.get "aggregate" = some v) : v.asTable = none := by
  unfold checkAggregate at h
  rw [hv] at h
  cases v with
  | table entries => cases h
  | _ => rfl

theorem checkedTable {batch : Toml} (h : checkValues batch = .ok ()) :
    ∃ map : TomlTable, batch = .table map ∧ CheckedTable map := by
  cases batch with
  | table map =>
    obtain ⟨_, hgroupBy, h⟩ := bind_ok h
    obtain ⟨_, _, h⟩ := bind_ok h
    obtain ⟨_, _, haggregate⟩ := bind_ok h
    exact ⟨map, rfl, fun v => groupBy_of_check hgroupBy, fun v => aggregate_of_check haggregate⟩
  | _ => cases h

/-- A level whose `batch`, when there is one, is a table with its keys in order. -/
structure Level (table : Toml) : Prop where
  batch : ∀ v, table.get "batch" = some v → ∃ map : TomlTable, v = .table map ∧ map.Sorted

structure Written (table : Toml) : Prop extends Level table where
  checked : ∀ map, batchOf table = some map → CheckedTable map

variable {table : Toml} {base above : TomlTable}

theorem written (hw : table.WellFormed) (h : checkBatch table = .ok ()) : Written table := by
  unfold checkBatch at h
  refine ⟨⟨fun v hv => ?_⟩, fun map hmap => ?_⟩
  · rw [hv] at h
    obtain ⟨map, rfl, -⟩ := checkedTable h
    exact ⟨map, rfl, (hw.get hv).sorted rfl⟩
  · obtain ⟨v, hv, hmap⟩ := Option.bind_eq_some_iff.mp hmap
    rw [hv] at h
    obtain ⟨map', rfl, hchecked⟩ := checkedTable h
    obtain rfl := Option.some.inj hmap
    exact hchecked

/-! ## The definitions of a point -/

/-- An entry of the `batch` table of a level. -/
def batchEntry (table : Toml) (key : String) : Option Toml :=
  (batchOf table).bind fun b => b.get key

/-- The batch tables of two levels are merged key by key. -/
theorem batchOf_mergeInto (hbase : Level (.table base)) (habove : Level (.table above))
    (hsorted : above.Sorted) :
    batchOf (Library.mergeInto (.table base) (.table above)) =
      match batchOf (.table above), batchOf (.table base) with
      | some a, some b => some (Library.mergeTable b a)
      | some a, none => some a
      | none, b => b := by
  unfold batchOf
  show ((Library.mergePointTable base above).get "batch").bind Toml.asTable = _
  rw [Library.get_mergePointTable base hsorted (by decide)]
  show _ = match (above.get "batch").bind Toml.asTable, (base.get "batch").bind Toml.asTable with
      | some a, some b => some (Library.mergeTable b a)
      | some a, none => some a
      | none, b => b
  have hdeep : Library.DEEP_MERGED_KEYS.contains "batch" = true := by decide
  cases ha : above.get "batch" with
  | none => rfl
  | some v =>
    obtain ⟨a, rfl, -⟩ := habove.batch v ha
    rw [hdeep]
    cases hb : base.get "batch" with
    | none => rfl
    | some w =>
      obtain ⟨b, rfl, -⟩ := hbase.batch w hb
      rfl

theorem level_mergeInto (hbase : Level (.table base)) (habove : Level (.table above))
    (hsorted : above.Sorted) :
    Level (Library.mergeInto (.table base) (.table above)) where
  batch v hv := by
    have hget : (Library.mergePointTable base above).get "batch" = some v := hv
    rw [Library.get_mergePointTable base hsorted (by decide)] at hget
    have hdeep : Library.DEEP_MERGED_KEYS.contains "batch" = true := by decide
    cases ha : above.get "batch" with
    | none =>
      rw [ha] at hget
      exact hbase.batch v hget
    | some w =>
      obtain ⟨a, rfl, hasorted⟩ := habove.batch w ha
      rw [ha, hdeep] at hget
      obtain rfl := Option.some.inj hget
      cases hb : base.get "batch" with
      | none => exact ⟨a, rfl, hasorted⟩
      | some w =>
        obtain ⟨b, rfl, hbsorted⟩ := hbase.batch w hb
        exact ⟨_, rfl, Library.sorted_mergeTable hbsorted a⟩

/-- An entry is the upper level's, or else the lower one's. -/
theorem batchEntry_mergeInto (hbase : Level (.table base)) (habove : Level (.table above))
    (hsorted : above.Sorted) {key : String}
    (hkey : ∀ v, batchEntry (.table above) key = some v → v.asTable = none) :
    batchEntry (Library.mergeInto (.table base) (.table above)) key =
      (batchEntry (.table above) key).or (batchEntry (.table base) key) := by
  unfold batchEntry at hkey ⊢
  rw [batchOf_mergeInto hbase habove hsorted]
  cases ha : batchOf (.table above) with
  | none => rfl
  | some a =>
    rw [ha] at hkey
    cases hb : batchOf (.table base) with
    | none =>
      show a.get key = (a.get key).or none
      simp
    | some b =>
      have ha' : a.Sorted := by
        obtain ⟨v, hv, hmap⟩ := Option.bind_eq_some_iff.mp ha
        obtain ⟨a', rfl, hasorted⟩ := habove.batch v hv
        obtain rfl := Option.some.inj hmap
        exact hasorted
      show (Library.mergeTable b a).get key = (a.get key).or (b.get key)
      rw [Library.get_mergeTable b ha']
      cases hget : a.get key with
      | none => rfl
      | some v =>
        have hv := hkey v hget
        cases v with
        | table entries => cases hv
        | _ => simp [Library.mergeValue]

/-- The definitions of one point, laid over each other: what a key of the merged table holds is
what the most specific definition wrote there, when no definition has a table there. -/
theorem batchEntry_definitions {defs : List Toml} {resolved : Toml} {key : String}
    (hw : ∀ d ∈ defs, d.WellFormed) (hwritten : ∀ d ∈ defs, Written d)
    (htable : ∀ d ∈ defs, ∃ t, d = .table t)
    (hkey : ∀ d ∈ defs, ∀ v, batchEntry d key = some v → v.asTable = none)
    (h : Library.mergedDefinition defs = some resolved) :
    Level resolved ∧ (∃ t, resolved = .table t) ∧
      batchEntry resolved key = defs.reverse.findSome? fun d => batchEntry d key := by
  induction defs using List.reverseRecOn generalizing resolved with
  | nil => cases h
  | append_singleton earlier last ih =>
    simp only [List.mem_append, List.mem_singleton, or_imp, forall_and, forall_eq]
      at hw hwritten htable hkey
    obtain ⟨above, rfl⟩ := htable.2
    have hlevel := hwritten.2.toLevel
    cases hearlier : Library.mergedDefinition earlier with
    | none =>
      -- the first definition
      obtain rfl : earlier = [] := by
        cases earlier with
        | nil => rfl
        | cons first later => cases hearlier
      obtain rfl := Option.some.inj h
      refine ⟨hlevel, ⟨above, rfl⟩, ?_⟩
      simp
    | some base =>
      obtain ⟨hbase, ⟨b, rfl⟩, hentry⟩ := ih hw.1 hwritten.1 htable.1 hkey.1 hearlier
      have hsorted : TomlTable.Sorted above := hw.2.sorted rfl
      rw [Library.mergedDefinition_snoc hearlier] at h
      obtain rfl := Option.some.inj h
      refine ⟨level_mergeInto hbase hlevel hsorted, ⟨_, rfl⟩, ?_⟩
      rw [batchEntry_mergeInto hbase hlevel hsorted hkey.2, hentry, List.reverse_append,
        List.reverse_singleton, List.singleton_append, List.findSome?_cons]
      cases batchEntry (.table above) key <;> rfl

theorem batchEntry_merged {defs : List Toml} {resolved : Toml}
    (hw : ∀ d ∈ defs, d.WellFormed) (hwritten : ∀ d ∈ defs, Written d)
    (htable : ∀ d ∈ defs, ∃ t, d = .table t)
    (h : Library.mergedDefinition defs = some resolved) :
    Level resolved ∧ (∃ t, resolved = .table t) ∧ ∀ key ∈ ["group_by", "aggregate"],
      batchEntry resolved key = defs.reverse.findSome? fun d => batchEntry d key := by
  have hkey : ∀ key ∈ ["group_by", "aggregate"], ∀ d ∈ defs, ∀ v,
      batchEntry d key = some v → v.asTable = none := by
    intro key hkey d hd v hv
    obtain ⟨map, hmap, hget⟩ := Option.bind_eq_some_iff.mp hv
    have hchecked := (hwritten d hd).checked map hmap
    simp only [List.mem_cons, List.not_mem_nil, or_false] at hkey
    rcases hkey with rfl | rfl
    · obtain ⟨g, -, rfl⟩ := hchecked.groupBy v hget
      rfl
    · exact hchecked.aggregate v hget
  obtain ⟨hlevel, hresolved, -⟩ :=
    batchEntry_definitions hw hwritten htable (hkey "group_by" (by simp)) h
  exact ⟨hlevel, hresolved, fun key hmem =>
    (batchEntry_definitions hw hwritten htable (hkey key hmem) h).2.2⟩

/-! ## The merged choice against the written ones -/

theorem findSome?_batchEntry (defs : List Toml) (key : String) :
    (defs.findSome? fun d => batchEntry d key) =
      (defs.filterMap batchOf).findSome? fun b => b.get key := by
  induction defs with
  | nil => rfl
  | cons d rest ih =>
    unfold batchEntry at ih ⊢
    cases hb : batchOf d with
    | none => simpa [hb] using ih
    | some b => simp [hb, List.findSome?_cons, ih]

theorem choice_mem {groupBy aggregate : Option Toml}
    (h : ∀ v, groupBy = some v → ∃ g ∈ POLICIES, v = .string g) {g : String}
    (hg : choice groupBy aggregate = some g) : g ∈ POLICIES := by
  unfold choice at hg
  split at hg
  · rename_i v
    obtain ⟨g', hmem, rfl⟩ := h v rfl
    obtain rfl := Option.some.inj hg
    exact hmem
  · split at hg
    · obtain rfl := Option.some.inj hg
      decide
    · cases hg

theorem Written.groupBy (h : Written table) {v : Toml} (hv : batchEntry table "group_by" = some v) :
    ∃ g ∈ POLICIES, v = .string g := by
  obtain ⟨map, hmap, hget⟩ := Option.bind_eq_some_iff.mp hv
  exact (h.checked map hmap).groupBy v hget

theorem chosenBy_none {batch : TomlTable} (hgroupBy : batch.get "group_by" = none)
    (haggregate : batch.get "aggregate" = none) : chosenBy batch = none := by
  simp [chosenBy, choice, hgroupBy, haggregate]

/-- The tables of a point, the most specific first, unless the choice of one is overruled: the
merged table chooses what the first of them to choose does. -/
theorem choice_merged {batches : List TomlTable} (hchecked : ∀ b ∈ batches, CheckedTable b)
    (h : overruled batches = false) :
    choice (batches.findSome? fun b => b.get "group_by")
      (batches.findSome? fun b => b.get "aggregate") = batches.findSome? chosenBy := by
  induction batches with
  | nil => rfl
  | cons batch rest ih =>
    rw [List.forall_mem_cons] at hchecked
    rw [List.findSome?_cons, List.findSome?_cons, List.findSome?_cons]
    unfold overruled at h
    cases hgroupBy : batch.get "group_by" with
    | some v =>
      obtain ⟨g, -, rfl⟩ := hchecked.1.groupBy v hgroupBy
      have hchosen : chosenBy batch = some g := by simp [chosenBy, choice, hgroupBy, Toml.asStr]
      rw [hchosen]
      rfl
    | none =>
      rw [if_neg (by simp [TomlTable.containsKey, hgroupBy])] at h
      cases haggregate : batch.get "aggregate" with
      | some a =>
        -- only a `"sample"` below it is left
        rw [if_pos (by simp [TomlTable.containsKey, haggregate])] at h
        have hchosen : chosenBy batch = some "sample" := by
          simp [chosenBy, choice, hgroupBy, haggregate]
        rw [hchosen]
        cases hrest : rest.findSome? fun b => b.get "group_by" with
        | none => rfl
        | some v =>
          rw [hrest] at h
          simpa [choice] using h
      | none =>
        rw [if_neg (by simp [TomlTable.containsKey, haggregate])] at h
        rw [chosenBy_none hgroupBy haggregate]
        exact ih hchecked.2 h

/-- Where it is overruled, the merged table has the policy below it instead of `"sample"`. -/
theorem choice_overruled {batches : List TomlTable} (hchecked : ∀ b ∈ batches, CheckedTable b)
    (h : overruled batches = true) :
    batches.findSome? chosenBy = some "sample" ∧ ∃ g, g ≠ "sample" ∧
      choice (batches.findSome? fun b => b.get "group_by")
        (batches.findSome? fun b => b.get "aggregate") = some g := by
  induction batches with
  | nil => cases h
  | cons batch rest ih =>
    rw [List.forall_mem_cons] at hchecked
    rw [List.findSome?_cons, List.findSome?_cons, List.findSome?_cons]
    unfold overruled at h
    cases hgroupBy : batch.get "group_by" with
    | some v =>
      rw [if_pos (by simp [TomlTable.containsKey, hgroupBy])] at h
      cases h
    | none =>
      rw [if_neg (by simp [TomlTable.containsKey, hgroupBy])] at h
      cases haggregate : batch.get "aggregate" with
      | some a =>
        rw [if_pos (by simp [TomlTable.containsKey, haggregate])] at h
        have hchosen : chosenBy batch = some "sample" := by
          simp [chosenBy, choice, hgroupBy, haggregate]
        rw [hchosen]
        refine ⟨rfl, ?_⟩
        cases hrest : rest.findSome? fun b => b.get "group_by" with
        | none =>
          rw [hrest] at h
          cases h
        | some v =>
          rw [hrest] at h
          obtain ⟨b, hb, hv⟩ := List.exists_of_findSome?_eq_some hrest
          obtain ⟨g, -, rfl⟩ := (hchecked.2 b hb).groupBy v hv
          exact ⟨g, by simpa [Toml.asStr] using h, rfl⟩
      | none =>
        rw [if_neg (by simp [TomlTable.containsKey, haggregate])] at h
        rw [chosenBy_none hgroupBy haggregate]
        exact ih hchecked.2 h

/-! ## The merged table of a point -/

theorem asStr_toJson (v : Toml) : v.toJson.asStr = v.asStr := by
  cases v with
  | float f =>
    unfold Toml.toJson
    split <;> rfl
  | _ => rfl

theorem keys_entriesToJson (table : TomlTable) :
    (Toml.entriesToJson table).map Prod.fst = table.map Prod.fst := by
  induction table with
  | nil => rfl
  | cons e rest ih =>
    rw [Toml.entriesToJson, List.map_cons, List.map_cons, ih]

/-- The `batch` table of a level as the typed configuration holds it. -/
def batchJson (table : Toml) : Option Json := (table.get "batch").map Toml.toJson

/-- The `group_by` of a table. -/
def jsonGroupBy (table : JsonMap) : Option String := (table.get "group_by").bind Json.asStr

def levelChoice (table : Toml) : Option String :=
  choice (batchEntry table "group_by") (batchEntry table "aggregate")

/-- The grouping chosen at a level, over those below. -/
theorem jsonGroupBy_mergeBatchLevel (base : JsonMap) (h : Level table)
    (hchecked : ∀ v, batchEntry table "group_by" = some v → ∃ g ∈ POLICIES, v = .string g) :
    jsonGroupBy (mergeBatchLevel base (batchJson table)) =
      (levelChoice table).or (jsonGroupBy base) := by
  unfold levelChoice batchEntry batchOf batchJson jsonGroupBy at *
  cases hbatch : table.get "batch" with
  | none => rfl
  | some v =>
    obtain ⟨map, rfl, hsorted⟩ := h.batch v hbatch
    rw [hbatch] at hchecked
    have hnodup : ((Toml.entriesToJson map).map Prod.fst).Nodup := by
      rw [keys_entriesToJson]
      exact hsorted.imp ne_of_lt
    have hkey (key : String) :
        JsonMap.containsKey (Toml.entriesToJson map) key = (map.get key).isSome := by
      rw [JsonMap.containsKey, Toml.get_entriesToJson, Option.isSome_map]
    show ((mergeBatchLevel base (some (.object (Toml.entriesToJson map)))).get "group_by").bind
        Json.asStr = (choice (map.get "group_by") (map.get "aggregate")).or _
    unfold mergeBatchLevel
    simp only [hkey]
    cases hgroupBy : map.get "group_by" with
    | some v =>
      obtain ⟨g, -, rfl⟩ := hchecked v hgroupBy
      simp [choice, JsonMap.get_insertAll _ hnodup, Toml.get_entriesToJson, hgroupBy, Toml.toJson,
        Json.asStr, Toml.asStr]
    | none =>
      cases haggregate : map.get "aggregate" with
      | some a => simp [choice, JsonMap.get_insert, Json.asStr]
      | none =>
        simp [choice, JsonMap.get_insertAll _ hnodup, Toml.get_entriesToJson, hgroupBy]

/-- A policy that was read has the name that was written. -/
theorem name_fromTable {table : JsonMap} {g : GroupBy} (h : GroupBy.fromTable table = .ok g)
    (hpolicy : (jsonGroupBy table).getD "time" ∈ POLICIES) :
    g.name = (jsonGroupBy table).getD "time" := by
  have hgroupBy : (table.get "group_by").bind Json.asStr = jsonGroupBy table := rfl
  unfold GroupBy.fromTable at h
  simp only [hgroupBy] at h
  generalize (jsonGroupBy table).getD "time" = name at h hpolicy ⊢
  simp only [POLICIES, List.mem_cons, List.not_mem_nil, or_false] at hpolicy
  rcases hpolicy with rfl | rfl | rfl
  · obtain rfl := Except.ok.inj h
    rfl
  · simp only [beq_self_eq_true, if_true] at h
    split at h
    · obtain rfl := Except.ok.inj h
      rfl
    · cases h
  · rw [if_neg (by decide), if_pos (by decide)] at h
    split at h
    · obtain rfl := Except.ok.inj h
      rfl
    · cases h

/-- A point of a configuration the loader accepted, with the tables its batch policy comes from:
`[connector]`, its device, and its definitions in the libraries and inline. -/
structure Accepted (connector deviceTable : Toml) (libraries : List (List Toml))
    (inline : List Toml) (config : ConnectorConfig) (device : DeviceConfig) (point : PointConfig)
      (resolved : Toml)
    (groupBy : GroupBy) : Prop where
  wellFormed : ∀ t ∈ connector :: deviceTable :: (libraries.flatten ++ inline), t.WellFormed
  checked : ∀ t ∈ connector :: deviceTable :: (libraries.flatten ++ inline), checkBatch t = .ok ()
  -- the typed configuration
  configBatch : config.batch = batchJson connector
  deviceBatch : device.batch = batchJson deviceTable
  pointBatch : point.batch = batchJson resolved
  member : resolved ∈ Library.resolvedPoints libraries inline
  named : Library.pointId resolved = some point.id
  deviceMem : device ∈ config.devices
  pointMem : point ∈ device.points
  -- the check of the resolved configuration, and what it found for the point
  resolvedChecked : checkResolvedBatches config = .ok ()
  merged : GroupBy.fromTable (batchTable config device point) = .ok groupBy

namespace Accepted

variable {connector deviceTable : Toml} {libraries : List (List Toml)} {inline : List Toml}
  {config : ConnectorConfig} {device : DeviceConfig} {point : PointConfig} {resolved : Toml}
  {groupBy : GroupBy}

theorem layers_mem
    (h : Accepted connector deviceTable libraries inline config device point resolved groupBy)
    {d : Toml} (hd : d ∈ layers libraries inline resolved point.id) :
    d ∈ libraries.flatten ++ inline ∧ ∃ t, d = .table t := by
  have htable {d : Toml} (hid : Library.pointId d = some point.id) : ∃ t, d = .table t := by
    obtain ⟨t, rfl, -⟩ := Library.table_of_pointId hid
    exact ⟨t, rfl⟩
  have hmember := h.member
  unfold layers at hd
  split at hd
  · obtain rfl := List.mem_singleton.mp hd
    exact ⟨hmember, htable h.named⟩
  · obtain ⟨hmem, hid⟩ := List.mem_filter.mp hd
    exact ⟨hmem, htable (by simpa using hid)⟩

theorem layers_merge
    (h : Accepted connector deviceTable libraries inline config device point resolved groupBy) :
    Library.mergedDefinition (layers libraries inline resolved point.id) = some resolved := by
  cases libraries with
  | nil => rfl
  | cons first rest =>
    refine Library.resolved_eq (fun p hp => ?_) (by simp) h.member h.named
    exact h.wellFormed p (List.mem_cons_of_mem _ (List.mem_cons_of_mem _ hp))

theorem layer_written
    (h : Accepted connector deviceTable libraries inline config device point resolved groupBy)
    {d : Toml} (hd : d ∈ layers libraries inline resolved point.id) : Written d := by
  have hmem := List.mem_cons_of_mem connector (List.mem_cons_of_mem deviceTable (h.layers_mem hd).1)
  exact written (h.wellFormed d hmem) (h.checked d hmem)

theorem entries
    (h : Accepted connector deviceTable libraries inline config device point resolved groupBy) :
    Level resolved ∧ (∃ t, resolved = .table t) ∧ ∀ key ∈ ["group_by", "aggregate"],
      batchEntry resolved key = (layers libraries inline resolved point.id).reverse.findSome?
        fun d => batchEntry d key := by
  refine batchEntry_merged (fun d hd => ?_) (fun d hd => h.layer_written hd)
    (fun d hd => (h.layers_mem hd).2) h.layers_merge
  have hmem := List.mem_cons_of_mem connector (List.mem_cons_of_mem deviceTable (h.layers_mem hd).1)
  exact h.wellFormed d hmem

end Accepted

/-- The `batch` tables of a point's definitions, from the most general on. -/
def pointBatches (libraries : List (List Toml)) (inline : List Toml) (resolved : Toml)
    (id : String) : List TomlTable :=
  (layers libraries inline resolved id).filterMap batchOf

/-- The `batch` tables of every level, from the most general on. -/
def levels (connector deviceTable : Toml) (libraries : List (List Toml)) (inline : List Toml)
    (resolved : Toml) (id : String) : List TomlTable :=
  (batchOf connector).toList ++ (batchOf deviceTable).toList ++
    pointBatches libraries inline resolved id

theorem levelChoice_eq {table : Toml} : levelChoice table = (batchOf table).bind chosenBy := by
  unfold levelChoice batchEntry
  cases batchOf table <;> rfl

/-- The policy of a point is the one the nearest level names. -/
theorem name_merged {connector deviceTable : Toml} {libraries : List (List Toml)}
    {inline : List Toml} {config : ConnectorConfig} {device : DeviceConfig} {point : PointConfig}
      {resolved : Toml}
    {groupBy : GroupBy}
    (h : Accepted connector deviceTable libraries inline config device point resolved groupBy) :
    groupBy.name = (((levelChoice resolved).or (levelChoice deviceTable)).or
      (levelChoice connector)).getD "time" := by
  have hconnector : Written connector := written (h.wellFormed _ (by simp)) (h.checked _ (by simp))
  have hdevice : Written deviceTable := written (h.wellFormed _ (by simp)) (h.checked _ (by simp))
  obtain ⟨hlevel, -, hentries⟩ := h.entries
  have hresolved (v : Toml) (hv : batchEntry resolved "group_by" = some v) :
      ∃ g ∈ POLICIES, v = .string g := by
    rw [hentries "group_by" (by simp)] at hv
    obtain ⟨d, hd, hv⟩ := List.exists_of_findSome?_eq_some hv
    exact (h.layer_written (List.mem_reverse.mp hd)).groupBy hv
  have hgroupBy : jsonGroupBy (batchTable config device point) =
      ((levelChoice resolved).or (levelChoice deviceTable)).or (levelChoice connector) := by
    rw [batchTable, h.configBatch, h.deviceBatch, h.pointBatch,
      jsonGroupBy_mergeBatchLevel _ hlevel hresolved,
      jsonGroupBy_mergeBatchLevel _ hdevice.toLevel fun _ => hdevice.groupBy,
      jsonGroupBy_mergeBatchLevel _ hconnector.toLevel fun _ => hconnector.groupBy]
    rw [show jsonGroupBy [] = none from rfl, Option.or_none, Option.or_assoc]
  rw [← hgroupBy]
  apply name_fromTable h.merged
  rw [hgroupBy]
  cases hchoice :
      ((levelChoice resolved).or (levelChoice deviceTable)).or (levelChoice connector) with
  | none => decide
  | some g =>
    rw [Option.or_eq_some_iff, Option.or_eq_some_iff] at hchoice
    rcases hchoice with (hg | ⟨-, hg⟩) | ⟨-, hg⟩
    · exact choice_mem hresolved hg
    · exact choice_mem (fun _ => hdevice.groupBy) hg
    · exact choice_mem (fun _ => hconnector.groupBy) hg

/-- A point has the policy of the most specific table that chooses one exactly when no table of
its own overrules another. -/
theorem group_by_chosen_iff {connector deviceTable : Toml} {libraries : List (List Toml)}
    {inline : List Toml} {config : ConnectorConfig} {device : DeviceConfig} {point : PointConfig}
    {resolved : Toml} {groupBy : GroupBy}
    (h : Accepted connector deviceTable libraries inline config device point resolved groupBy) :
    groupBy.name = chosen (levels connector deviceTable libraries inline resolved point.id) ↔
      overruled (pointBatches libraries inline resolved point.id).reverse = false := by
  obtain ⟨-, -, hentries⟩ := h.entries
  have hchecked :
      ∀ b ∈ (pointBatches libraries inline resolved point.id).reverse, CheckedTable b := by
    intro b hb
    obtain ⟨d, hd, hb⟩ := List.mem_filterMap.mp (List.mem_reverse.mp hb)
    exact (h.layer_written hd).checked b hb
  have hresolved : levelChoice resolved = choice
      ((pointBatches libraries inline resolved point.id).reverse.findSome? fun b =>
        b.get "group_by")
      ((pointBatches libraries inline resolved point.id).reverse.findSome? fun b =>
        b.get "aggregate") := by
    unfold levelChoice
    rw [hentries "group_by" (by simp), hentries "aggregate" (by simp), findSome?_batchEntry,
      findSome?_batchEntry, List.filterMap_reverse]
    rfl
  have hlevels : chosen (levels connector deviceTable libraries inline resolved point.id) =
      ((((pointBatches libraries inline resolved point.id).reverse.findSome? chosenBy).or
        (levelChoice deviceTable)).or (levelChoice connector)).getD "time" := by
    unfold chosen levels
    rw [List.reverse_append, List.reverse_append, List.findSome?_append, List.findSome?_append,
      levelChoice_eq, levelChoice_eq, Option.or_assoc]
    congr 2
    cases batchOf deviceTable <;> cases batchOf connector <;> simp
  rw [name_merged h, hlevels, hresolved]
  generalize (pointBatches libraries inline resolved point.id).reverse = batches at hchecked ⊢
  cases hover : overruled batches with
  | false =>
    rw [choice_merged hchecked hover]
    simp
  | true =>
    obtain ⟨hfirst, g, hg, hmerged⟩ := choice_overruled hchecked hover
    rw [hfirst, hmerged]
    simpa using hg

/-! A library gives the point a frame, its own definition an aggregate. -/

def framePoint : Toml := .table [
  ("batch", .table [("group_by", .string "frame"), ("window", .string "1s")]),
  ("id", .string "temp")]

/-- The device's own definition, `batch = { aggregate = "mean", every = "1s" }`. -/
def meanPoint : Toml := .table [
  ("batch", .table [("aggregate", .string "mean"), ("every", .string "1s")]),
  ("id", .string "temp")]

def mergedPoint : Toml := .table [
  ("batch", .table [("aggregate", .string "mean"), ("every", .string "1s"),
    ("group_by", .string "frame"), ("window", .string "1s")]),
  ("id", .string "temp")]

def typedPoint : PointConfig := { id := "temp", batch := batchJson mergedPoint }

def typedDevice : DeviceConfig := { name := "dev", points := [typedPoint] }

def typedConfig : ConnectorConfig := { protocol := "modbus", devices := [typedDevice] }

theorem accepted_mergedPoint :
    Accepted (.table []) (.table []) [[framePoint]] [meanPoint] typedConfig typedDevice typedPoint
      mergedPoint (.frame (Duration.fromSecs 1)) where
  wellFormed := by
    simp [framePoint, meanPoint, Toml.WellFormed, Toml.EntriesWellFormed]
    decide
  checked := by
    have hframe : checkBatch framePoint = .ok () := by decide +kernel
    have hmean : checkBatch meanPoint = .ok () := by decide +kernel
    have hempty : checkBatch (.table []) = .ok () := rfl
    simp [hframe, hmean, hempty]
  configBatch := rfl
  deviceBatch := rfl
  pointBatch := rfl
  member := List.mem_singleton.mpr rfl
  named := rfl
  deviceMem := List.mem_singleton.mpr rfl
  pointMem := List.mem_singleton.mpr rfl
  resolvedChecked := by decide +kernel
  merged := by decide +kernel

/-- The point is published in frames, though its own table is a complete `"sample"` policy. -/
theorem frame_over_aggregate :
    Accepted (.table []) (.table []) [[framePoint]] [meanPoint] typedConfig typedDevice typedPoint
      mergedPoint (.frame (Duration.fromSecs 1)) ∧
    GroupBy.name (.frame (Duration.fromSecs 1)) = "frame" ∧
    chosen (levels (.table []) (.table []) [[framePoint]] [meanPoint] mergedPoint "temp") =
      "sample" :=
  ⟨accepted_mergedPoint, rfl, by decide +kernel⟩

/-- A frame chosen by the device. -/
theorem group_by_chosen_iff_frame :
    GroupBy.name (.frame (Duration.fromSecs 1)) =
        chosen (levels (.table []) (.table []) [[framePoint]] [meanPoint] mergedPoint "temp") ↔
      overruled (pointBatches [[framePoint]] [meanPoint] mergedPoint "temp").reverse = false :=
  group_by_chosen_iff accepted_mergedPoint

end TedgeDot.Measure
