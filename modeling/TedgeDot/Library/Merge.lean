import TedgeDot.Sdk.Toml

/-!
# Merging point definitions

How `library.rs` lays the point definitions of a device over each other: the points of its
libraries in the order of `points_from`, then its own. A definition of an id that is there is
merged into it by `merge_point_table`, and `merge_table` merges the tables below.
-/

namespace TedgeDot

namespace TomlTable

/-- The entries of `above` inserted one after the other, each with a value made from the one it
replaces. -/
def mergeWith (f : String → Option Toml → Toml → Toml) (base above : TomlTable) : TomlTable :=
  above.foldl (fun base e => base.insert e.1 (f e.1 (base.get e.1) e.2)) base

section MergeWith

variable (f : String → Option Toml → Toml → Toml) (base : TomlTable)

@[simp] theorem mergeWith_cons (e : String × Toml) (rest : TomlTable) :
    base.mergeWith f (e :: rest) =
      (base.insert e.1 (f e.1 (base.get e.1) e.2)).mergeWith f rest := rfl

theorem get_mergeWith {above : TomlTable} (h : above.Sorted) (key : String) :
    (base.mergeWith f above).get key =
      match above.get key with
      | none => base.get key
      | some v => some (f key (base.get key) v) := by
  induction above generalizing base with
  | nil => rfl
  | cons e rest ih =>
    obtain ⟨k, v⟩ := e
    rw [mergeWith_cons, ih _ h.tail, get_cons, get_insert]
    by_cases hk : k = key
    · subst hk
      rw [h.get_tail]
      simp
    · simp [hk]

theorem sorted_mergeWith {base : TomlTable} (h : base.Sorted) (above : TomlTable) :
    (base.mergeWith f above).Sorted := by
  induction above generalizing base with
  | nil => exact h
  | cons e rest ih =>
    rw [mergeWith_cons]
    exact ih (sorted_insert _ _ h)

end MergeWith

end TomlTable

namespace Library

mutual

def mergeTable (base : TomlTable) (above : List (String × Toml)) : TomlTable :=
  match above with
  | [] => base
  | (key, value) :: rest => mergeTable (base.insert key (mergeValue (base.get key) value)) rest

/-- What stands under a key that is merged: two tables merge, anything else replaces. -/
def mergeValue (base : Option Toml) (above : Toml) : Toml :=
  match above with
  | .table entries =>
    match base with
    | some (.table base) => .table (mergeTable base entries)
    | _ => .table entries
  | value => value

end

/-- Point fields that are merged key by key when a later definition overrides an earlier one. -/
def DEEP_MERGED_KEYS : List String := ["meta", "transform", "report", "batch"]

/-- The point key that holds the `[library]` table the point's address belongs to. -/
def ADDRESS_ORIGIN : String := "__library"

def mergePointTable (base above : TomlTable) : TomlTable :=
  let base := if above.containsKey "address" then base.remove ADDRESS_ORIGIN else base
  base.mergeWith
    (fun key old value => if DEEP_MERGED_KEYS.contains key then mergeValue old value else value) above

/-- `Value::get("id").and_then(Value::as_str)`. -/
def pointId (point : Toml) : Option String := (point.get "id").bind Toml.asStr

/-- The resolved points of a device, with where each id stands. -/
structure Merged where
  points : List Toml := []
  index : List (String × Nat) := []

/-- `index.get(id)`. -/
def Merged.position (merged : Merged) (id : String) : Option Nat :=
  (merged.index.find? fun e => e.1 == id).map Prod.snd

/-- The point `at` merged with `incoming`, which replaces it unless both are tables. -/
def mergeInto (base incoming : Toml) : Toml :=
  match base, incoming with
  | .table base, .table above => .table (mergePointTable base above)
  | _, _ => incoming

/-- `points.push(incoming)`, under its id. -/
def Merged.push (merged : Merged) (id : String) (incoming : Toml) : Merged :=
  { points := merged.points ++ [incoming], index := (id, merged.points.length) :: merged.index }

def mergePoint (merged : Merged) (incoming : Toml) : Merged :=
  match pointId incoming with
  | some id =>
    match merged.position id with
    | some i => { merged with points := merged.points.modify i fun base => mergeInto base incoming }
    | none => merged.push id incoming
  | none => { merged with points := merged.points ++ [incoming] }

/-- The points `expand` writes back: those of every library the device refers to, in order, and
then its own. Without a library the device's own points stay as they are. -/
def resolvedPoints (libraries : List (List Toml)) (inline : List Toml) : List Toml :=
  match libraries with
  | [] => inline
  | _ => ((libraries.flatten ++ inline).foldl mergePoint {}).points

/-! ## What a merge leaves -/

theorem mergeTable_eq (base : TomlTable) (above : List (String × Toml)) :
    mergeTable base above = base.mergeWith (fun _ => mergeValue) above := by
  induction above generalizing base with
  | nil => rfl
  | cons e rest ih => rw [mergeTable, ih, TomlTable.mergeWith_cons]

theorem get_mergeTable (base : TomlTable) {above : TomlTable} (h : above.Sorted) (key : String) :
    (mergeTable base above).get key =
      match above.get key with
      | none => base.get key
      | some v => some (mergeValue (base.get key) v) := by
  rw [mergeTable_eq, TomlTable.get_mergeWith _ _ h]

theorem sorted_mergeTable {base : TomlTable} (h : base.Sorted) (above : TomlTable) :
    (mergeTable base above).Sorted := by
  rw [mergeTable_eq]
  exact TomlTable.sorted_mergeWith _ h above

theorem get_mergePointTable (base : TomlTable) {above : TomlTable} (h : above.Sorted) {key : String}
    (hkey : key ≠ ADDRESS_ORIGIN) :
    (mergePointTable base above).get key =
      match above.get key with
      | none => base.get key
      | some v => some (if DEEP_MERGED_KEYS.contains key then mergeValue (base.get key) v else v) := by
  have hbase : (if above.containsKey "address" then base.remove ADDRESS_ORIGIN else base).get key =
      base.get key := by
    split
    · rw [TomlTable.get_remove, if_neg (Ne.symm hkey)]
    · rfl
  rw [mergePointTable, TomlTable.get_mergeWith _ _ h, hbase]

theorem table_of_pointId {point : Toml} {id : String} (h : pointId point = some id) :
    ∃ table : TomlTable, point = .table table ∧ (table.get "id").bind Toml.asStr = some id := by
  cases point with
  | table entries => exact ⟨entries, rfl, h⟩
  | _ => cases h

theorem pointId_mergeInto {base incoming : Toml} {id : String} (hbase : pointId base = some id)
    (hincoming : pointId incoming = some id) (h : incoming.WellFormed) :
    pointId (mergeInto base incoming) = some id := by
  obtain ⟨base, rfl, -⟩ := table_of_pointId hbase
  obtain ⟨above, rfl, hid⟩ := table_of_pointId hincoming
  show ((mergePointTable base above).get "id").bind Toml.asStr = some id
  rw [get_mergePointTable base h.1 (by decide)]
  cases hget : above.get "id" with
  | none => rw [hget] at hid; cases hid
  | some v =>
    rw [hget] at hid
    exact hid

/-! ## The points of a device -/

/-- The definitions of an id, in the order they are laid over each other. -/
def definitions (all : List Toml) (id : String) : List Toml :=
  all.filter fun point => pointId point == some id

/-- What the definitions of one point merge to. -/
def mergedDefinition : List Toml → Option Toml
  | [] => none
  | first :: later => some (later.foldl mergeInto first)

theorem definitions_snoc (all : List Toml) (incoming : Toml) (id : String) :
    definitions (all ++ [incoming]) id =
      if pointId incoming = some id then definitions all id ++ [incoming] else definitions all id := by
  unfold definitions
  rw [List.filter_append]
  split <;> rename_i h <;> simp [h]

theorem mergedDefinition_snoc {defs : List Toml} {base : Toml} (h : mergedDefinition defs = some base)
    (incoming : Toml) :
    mergedDefinition (defs ++ [incoming]) = some (mergeInto base incoming) := by
  cases defs with
  | nil => cases h
  | cons first later =>
    obtain rfl := Option.some.inj h
    simp [mergedDefinition]

/-- The merged points so far: the index says where each id stands, and a point with an id is
what the definitions of the id merge to. -/
structure Follows (seen : List Toml) (merged : Merged) : Prop where
  located : ∀ id i, merged.position id = some i ↔ ∃ p, merged.points[i]? = some p ∧ pointId p = some id
  unknown : ∀ id, merged.position id = none → definitions seen id = []
  merges : ∀ p ∈ merged.points, ∀ id, pointId p = some id →
    mergedDefinition (definitions seen id) = some p

theorem follows_empty : Follows [] {} where
  located id i := by simp [Merged.position]
  unknown _ _ := rfl
  merges p hp := by cases hp

theorem getElem?_snoc {α : Type} {l : List α} {x p : α} {i : Nat} :
    (l ++ [x])[i]? = some p ↔ l[i]? = some p ∨ (i = l.length ∧ p = x) := by
  rcases Nat.lt_trichotomy i l.length with h | h | h
  · rw [List.getElem?_append_left h]
    have : i ≠ l.length := by omega
    simp [this]
  · subst h
    simp [eq_comm]
  · have h1 : (l ++ [x])[i]? = none := List.getElem?_eq_none_iff.mpr (by simp; omega)
    have h2 : l[i]? = none := List.getElem?_eq_none_iff.mpr (by omega)
    have h3 : i ≠ l.length := by omega
    simp [h1, h2, h3]

namespace Follows

variable {seen : List Toml} {merged : Merged} {incoming : Toml} {id : String}

/-- A point without an id is appended. -/
theorem unnamed (h : Follows seen merged) (hid : pointId incoming = none) :
    Follows (seen ++ [incoming]) { merged with points := merged.points ++ [incoming] } where
  located id i := by
    show merged.position id = some i ↔ _
    rw [h.located]
    refine exists_congr fun p => ?_
    rw [getElem?_snoc]
    constructor
    · rintro ⟨hp, hpid⟩
      exact ⟨.inl hp, hpid⟩
    · rintro ⟨hp | ⟨-, rfl⟩, hpid⟩
      · exact ⟨hp, hpid⟩
      · rw [hid] at hpid
        cases hpid
  unknown id hat := by
    rw [definitions_snoc, if_neg (by simp [hid])]
    exact h.unknown id hat
  merges p hp id hpid := by
    rw [definitions_snoc, if_neg (by simp [hid])]
    rcases List.mem_append.mp hp with hp | hp
    · exact h.merges p hp id hpid
    · obtain rfl := List.mem_singleton.mp hp
      rw [hid] at hpid
      cases hpid

theorem position_push (id' : String) :
    (merged.push id incoming).position id' =
      if id = id' then some merged.points.length else merged.position id' := by
  unfold Merged.position Merged.push
  by_cases hk : id = id'
  · rw [List.find?_cons_of_pos (by simp [hk]), if_pos hk]
    rfl
  · rw [List.find?_cons_of_neg (by simp [hk]), if_neg hk]

/-- The first point of an id is appended and indexed. -/
theorem first (h : Follows seen merged) (hid : pointId incoming = some id)
    (hat : merged.position id = none) :
    Follows (seen ++ [incoming]) (merged.push id incoming) where
  located id' i := by
    rw [position_push]
    show _ ↔ ∃ p, (merged.points ++ [incoming])[i]? = some p ∧ _
    split
    · rename_i hk
      subst hk
      constructor
      · intro hi
        obtain rfl := Option.some.inj hi
        exact ⟨incoming, getElem?_snoc.mpr (.inr ⟨rfl, rfl⟩), hid⟩
      · rintro ⟨p, hp, hpid⟩
        rcases getElem?_snoc.mp hp with hp | ⟨rfl, -⟩
        · -- a point of that id would be in the index
          rw [(h.located id i).mpr ⟨p, hp, hpid⟩] at hat
          cases hat
        · rfl
    · rename_i hk
      rw [h.located]
      refine exists_congr fun p => ?_
      rw [getElem?_snoc]
      constructor
      · rintro ⟨hp, hpid⟩
        exact ⟨.inl hp, hpid⟩
      · rintro ⟨hp | ⟨-, rfl⟩, hpid⟩
        · exact ⟨hp, hpid⟩
        · rw [hid] at hpid
          exact absurd (Option.some.inj hpid) hk
  unknown id' hat' := by
    rw [position_push] at hat'
    split at hat'
    · cases hat'
    · rename_i hk
      rw [definitions_snoc, if_neg fun heq => hk (Option.some.inj (hid.symm.trans heq))]
      exact h.unknown id' hat'
  merges p hp id' hpid := by
    rw [definitions_snoc]
    rcases List.mem_append.mp hp with hp | hp
    · have hk : pointId incoming ≠ some id' := by
        intro heq
        obtain rfl := Option.some.inj (hid.symm.trans heq)
        -- the index knows every id
        obtain ⟨i, hi⟩ := List.getElem?_of_mem hp
        rw [(h.located id i).mpr ⟨p, hi, hpid⟩] at hat
        cases hat
      rw [if_neg hk]
      exact h.merges p hp id' hpid
    · obtain rfl := List.mem_singleton.mp hp
      rw [if_pos hpid]
      obtain rfl := Option.some.inj (hid.symm.trans hpid)
      rw [h.unknown id hat]
      rfl

/-- A further point of an id is merged into the one there. -/
theorem again (h : Follows seen merged) (hw : incoming.WellFormed)
    (hid : pointId incoming = some id) {i : Nat} (hat : merged.position id = some i) :
    Follows (seen ++ [incoming])
      { merged with points := merged.points.modify i fun base => mergeInto base incoming } := by
  obtain ⟨base, hbase, hbaseId⟩ := (h.located id i).mp hat
  have hmergedId : pointId (mergeInto base incoming) = some id :=
    pointId_mergeInto hbaseId hid hw
  have hget (j : Nat) : (merged.points.modify i fun base => mergeInto base incoming)[j]? =
      if i = j then some (mergeInto base incoming) else merged.points[j]? := by
    rw [List.getElem?_modify]
    split
    · rename_i hij
      subst hij
      rw [hbase]
      rfl
    · simp
  constructor
  · intro id' j
    show merged.position id' = some j ↔ _
    rw [h.located, hget]
    split
    · rename_i hij
      subst hij
      rw [hbase]
      -- both the point and what it is merged to have the id
      simp [hbaseId, hmergedId]
    · rfl
  · intro id' hat'
    rw [definitions_snoc, if_neg]
    · exact h.unknown id' hat'
    · intro heq
      obtain rfl := Option.some.inj (hid.symm.trans heq)
      have hnone : merged.position id = none := hat'
      rw [hat] at hnone
      cases hnone
  · intro p hp id' hpid
    rw [definitions_snoc]
    obtain ⟨j, hj⟩ := List.getElem?_of_mem hp
    rw [hget] at hj
    split at hj
    · obtain rfl := Option.some.inj hj
      obtain rfl := Option.some.inj (hmergedId.symm.trans hpid)
      rw [if_pos hid]
      exact mergedDefinition_snoc (h.merges base (List.mem_of_getElem? hbase) id hbaseId) incoming
    · rename_i hij
      have hk : pointId incoming ≠ some id' := by
        intro heq
        obtain rfl := Option.some.inj (hid.symm.trans heq)
        rw [(h.located id j).mpr ⟨p, hj, hpid⟩] at hat
        exact hij (Option.some.inj hat).symm
      rw [if_neg hk]
      exact h.merges p (List.mem_of_getElem? hj) id' hpid

theorem step (h : Follows seen merged) (hw : incoming.WellFormed) :
    Follows (seen ++ [incoming]) (mergePoint merged incoming) := by
  unfold mergePoint
  split
  · rename_i id hid
    split
    · rename_i i hat
      exact h.again hw hid hat
    · rename_i hat
      exact h.first hid hat
  · rename_i hid
    exact h.unnamed hid

theorem fold (h : Follows seen merged) {all : List Toml} (hw : ∀ p ∈ all, p.WellFormed) :
    Follows (seen ++ all) (all.foldl mergePoint merged) := by
  induction all generalizing seen merged with
  | nil => simpa using h
  | cons incoming rest ih =>
    rw [List.forall_mem_cons] at hw
    have := ih (h.step hw.1) hw.2
    simpa using this

end Follows

theorem resolved_eq {libraries : List (List Toml)} {inline : List Toml}
    (hw : ∀ p ∈ libraries.flatten ++ inline, p.WellFormed) (hlib : libraries ≠ [])
    {point : Toml} (hpoint : point ∈ resolvedPoints libraries inline) {id : String}
    (hid : pointId point = some id) :
    mergedDefinition (definitions (libraries.flatten ++ inline) id) = some point := by
  cases libraries with
  | nil => exact absurd rfl hlib
  | cons first rest =>
    have hfollows := follows_empty.fold hw
    exact hfollows.merges point hpoint id hid

end Library

end TedgeDot
