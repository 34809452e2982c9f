import Mathlib.Data.String.Basic
import TedgeDot.Sdk.Json

/-!
# TOML values

`toml::Value`, as the configuration documents are parsed into, and its tables. A table is a
`BTreeMap`: the list of its entries, each key once, in the order of the keys.
-/

namespace TedgeDot

/-- `toml::Value`. -/
inductive Toml where
  | string (s : String)
  | integer (n : Int64)
  | float (f : Float)
  | boolean (b : Bool)
  | datetime (s : String)
  | array (items : List Toml)
  | table (entries : List (String × Toml))

/-- `toml::value::Table`. -/
abbrev TomlTable := List (String × Toml)

namespace TomlTable

def get (table : TomlTable) (key : String) : Option Toml :=
  (table.find? fun e => e.1 == key).map Prod.snd

def containsKey (table : TomlTable) (key : String) : Bool := (table.get key).isSome

def insert (table : TomlTable) (key : String) (value : Toml) : TomlTable :=
  match table with
  | [] => [(key, value)]
  | (k, v) :: rest =>
    if key < k then (key, value) :: (k, v) :: rest
    else if key = k then (key, value) :: rest
    else (k, v) :: TomlTable.insert rest key value

def remove (table : TomlTable) (key : String) : TomlTable := table.filter fun e => e.1 != key

def Sorted (table : TomlTable) : Prop := (table.map Prod.fst).Pairwise (· < ·)

instance (table : TomlTable) : Decidable table.Sorted :=
  inferInstanceAs (Decidable ((table.map Prod.fst).Pairwise (· < ·)))

section Lemmas

variable (table : TomlTable) (key key' : String) (value : Toml)

@[simp] theorem get_nil : get [] key = none := rfl

theorem get_cons (e : String × Toml) (rest : TomlTable) :
    get (e :: rest) key = if e.1 = key then some e.2 else get rest key :=
  Members.get_cons e rest key

/-- Inserting a key changes that key. -/
theorem get_insert :
    (table.insert key value).get key' = if key = key' then some value else table.get key' := by
  induction table with
  | nil => simp [insert, get_cons]
  | cons e rest ih =>
    obtain ⟨k, v⟩ := e
    unfold insert
    split
    · rw [get_cons]
    · split
      · rename_i heq
        subst heq
        simp only [get_cons]
        split <;> rfl
      · rename_i hne
        rw [get_cons, get_cons, ih]
        -- the key is not `k`, so its value is as before
        split
        · rename_i hk
          rw [if_neg fun h => hne (h.trans hk.symm)]
        · rfl

theorem get_remove : (table.remove key).get key' = if key = key' then none else table.get key' :=
  Members.get_remove table key key'

variable {e : String × Toml}

theorem Sorted.tail {rest : TomlTable} (h : Sorted (e :: rest)) :
    rest.Sorted := (List.pairwise_cons.mp h).2

theorem Sorted.nodup {table : TomlTable} (h : table.Sorted) : (Members.keys table).Nodup :=
  h.imp fun hlt => ne_of_lt hlt

theorem mem_of_get {table : TomlTable} {key : String} {value : Toml}
    (h : table.get key = some value) : (key, value) ∈ table := Members.mem_of_get h

theorem Sorted.get_tail {rest : TomlTable} (h : Sorted (e :: rest)) : rest.get e.1 = none := by
  cases hget : rest.get e.1 with
  | none => rfl
  | some v =>
    have hmem : e.1 ∈ rest.map Prod.fst := List.mem_map.mpr ⟨_, mem_of_get hget, rfl⟩
    exact absurd ((List.pairwise_cons.mp h).1 e.1 hmem) (lt_irrefl e.1)

theorem get_of_mem {table : TomlTable} (h : table.Sorted) (he : e ∈ table) :
    table.get e.1 = some e.2 := Members.get_of_mem h.nodup he

theorem keys_insert {k : String} (h : k ∈ (table.insert key value).map Prod.fst) :
    k = key ∨ k ∈ table.map Prod.fst := by
  induction table with
  | nil => simpa [insert] using h
  | cons e rest ih =>
    obtain ⟨k', v'⟩ := e
    unfold insert at h
    simp only [List.map_cons, List.mem_cons]
    split at h
    · simpa using h
    · split at h
      · have h := List.mem_cons.mp h
        tauto
      · rcases List.mem_cons.mp h with h | h
        · exact .inr (.inl h)
        · have := ih h
          tauto

/-- And keeps the order. -/
theorem sorted_insert {table : TomlTable} (h : table.Sorted) : (table.insert key value).Sorted := by
  induction table with
  | nil => simp [insert, Sorted]
  | cons e rest ih =>
    obtain ⟨k, v⟩ := e
    have hhead := (List.pairwise_cons.mp h).1
    unfold insert
    split
    · rename_i hlt
      refine List.pairwise_cons.mpr ⟨fun k' hk' => ?_, h⟩
      rcases List.mem_cons.mp hk' with rfl | hk'
      · exact hlt
      · exact lt_trans hlt (hhead k' hk')
    · rename_i hlt
      split
      · rename_i heq
        subst heq
        exact h
      · rename_i hne
        refine List.pairwise_cons.mpr ⟨fun k' hk' => ?_, ih h.tail⟩
        rcases keys_insert _ _ _ hk' with rfl | hk'
        · exact lt_of_le_of_ne (not_lt.mp hlt) (Ne.symm hne)
        · exact hhead k' hk'

theorem sorted_remove {table : TomlTable} (h : table.Sorted) : (table.remove key).Sorted :=
  List.Pairwise.sublist (List.filter_sublist.map Prod.fst) h

/-- A table is what its keys give. -/
theorem ext_get {table other : TomlTable} (h : table.Sorted) (h' : other.Sorted)
    (hget : ∀ key, table.get key = other.get key) : table = other := by
  induction table generalizing other with
  | nil =>
    cases other with
    | nil => rfl
    | cons e rest =>
      have := hget e.1
      rw [get_cons, if_pos rfl] at this
      cases this
  | cons e rest ih =>
    cases other with
    | nil =>
      have := hget e.1
      rw [get_cons, if_pos rfl] at this
      cases this
    | cons e' rest' =>
      -- the first keys are the least, so each is not below the other
      have hle {a b : String × Toml} {as bs : TomlTable} (hs : Sorted (b :: bs))
          (heq : get (a :: as) a.1 = get (b :: bs) a.1) : b.1 ≤ a.1 := by
        rw [get_cons, if_pos rfl] at heq
        rcases List.mem_cons.mp (mem_of_get heq.symm) with hmem | hmem
        · exact le_of_eq (congrArg Prod.fst hmem).symm
        · exact le_of_lt ((List.pairwise_cons.mp hs).1 a.1 (List.mem_map_of_mem hmem))
      have hkey : e.1 = e'.1 := le_antisymm (hle h (hget e'.1).symm) (hle h' (hget e.1))
      have hvalue := hget e.1
      rw [get_cons, get_cons, if_pos rfl, if_pos hkey.symm] at hvalue
      have hrest : rest = rest' := by
        refine ih h.tail h'.tail fun key => ?_
        by_cases hk : key = e.1
        · rw [hk, h.get_tail, hkey, h'.get_tail]
        · have := hget key
          rwa [get_cons, get_cons, if_neg (Ne.symm hk),
            if_neg fun heq => hk (heq.symm.trans hkey.symm)]
            at this
      rw [hrest, Prod.ext hkey (Option.some.inj hvalue)]

end Lemmas

end TomlTable

namespace Toml

@[elab_as_elim] theorem induction {P : Toml → Prop} (string : ∀ s, P (.string s))
    (integer : ∀ n, P (.integer n)) (float : ∀ f, P (.float f)) (boolean : ∀ b, P (.boolean b))
    (datetime : ∀ s, P (.datetime s)) (array : ∀ items, (∀ v ∈ items, P v) → P (.array items))
    (table : ∀ entries, (∀ e ∈ entries, P (Prod.snd e)) → P (.table entries)) (v : Toml) : P v :=
  @Toml.rec P (fun items => ∀ v ∈ items, P v) (fun entries => ∀ e ∈ entries, P e.2) (fun e => P e.2)
    string integer float boolean datetime (fun items ih => array items ih)
    (fun entries ih => table entries ih)
    (fun _ h => absurd h List.not_mem_nil)
    (fun _ _ ihhead ihtail => List.forall_mem_cons.mpr ⟨ihhead, ihtail⟩)
    (fun _ h => absurd h List.not_mem_nil)
    (fun _ _ ihhead ihtail => List.forall_mem_cons.mpr ⟨ihhead, ihtail⟩)
    (fun _ _ ih => ih) v

def asStr : Toml → Option String
  | .string s => some s
  | _ => none

def asTable : Toml → Option TomlTable
  | .table entries => some entries
  | _ => none

def asArray : Toml → Option (List Toml)
  | .array items => some items
  | _ => none

/-- `Value::get` with a key: an entry of a table, nothing of any other value. -/
def get (v : Toml) (key : String) : Option Toml :=
  match v with
  | .table entries => TomlTable.get entries key
  | _ => none

mutual

/-- Every table of the value has its keys in order, each once. -/
def WellFormed : Toml → Prop
  | .array items => ItemsWellFormed items
  | .table entries => TomlTable.Sorted entries ∧ EntriesWellFormed entries
  | _ => True

def ItemsWellFormed : List Toml → Prop
  | [] => True
  | item :: items => item.WellFormed ∧ ItemsWellFormed items

def EntriesWellFormed : List (String × Toml) → Prop
  | [] => True
  | (_, value) :: entries => value.WellFormed ∧ EntriesWellFormed entries

end

theorem entriesWellFormed_iff (entries : List (String × Toml)) :
    EntriesWellFormed entries ↔ ∀ e ∈ entries, e.2.WellFormed := by
  induction entries with
  | nil => simp [EntriesWellFormed]
  | cons e rest ih =>
    rw [EntriesWellFormed, ih, List.forall_mem_cons]

theorem itemsWellFormed_iff (items : List Toml) :
    ItemsWellFormed items ↔ ∀ v ∈ items, v.WellFormed := by
  induction items with
  | nil => simp [ItemsWellFormed]
  | cons v rest ih =>
    rw [ItemsWellFormed, ih, List.forall_mem_cons]

theorem WellFormed.get {v w : Toml} {key : String} (h : v.WellFormed) (hget : v.get key = some w) :
    w.WellFormed := by
  cases v with
  | table entries =>
    rw [WellFormed, entriesWellFormed_iff] at h
    exact h.2 _ (TomlTable.mem_of_get hget)
  | _ => cases hget

theorem WellFormed.sorted {v : Toml} {table : TomlTable} (h : v.WellFormed)
    (htable : v.asTable = some table) : table.Sorted := by
  cases v with
  | table entries =>
    obtain rfl := Option.some.inj htable
    exact h.1
  | _ => cases htable

mutual

/-- The value as serde reads it into a `serde_json::Value`. -/
def toJson : Toml → Json
  | .string s => .string s
  | .integer n => .number (if 0 ≤ n then .posInt n.toUInt64 else .negInt n)
  | .float f => if f.isFinite then .number (.float f) else .null
  | .boolean b => .bool b
  | .datetime s => .object [("$__toml_private_datetime", .string s)]
  | .array items => .array (itemsToJson items)
  | .table entries => .object (entriesToJson entries)

def itemsToJson : List Toml → List Json
  | [] => []
  | item :: items => item.toJson :: itemsToJson items

def entriesToJson : List (String × Toml) → JsonMap
  | [] => []
  | (key, value) :: entries => (key, value.toJson) :: entriesToJson entries

end

theorem get_entriesToJson (table : TomlTable) (key : String) :
    JsonMap.get (entriesToJson table) key = (table.get key).map toJson := by
  induction table with
  | nil => rfl
  | cons e rest ih =>
    obtain ⟨k, v⟩ := e
    rw [TomlTable.get_cons, entriesToJson]
    unfold JsonMap.get at ih ⊢
    by_cases h : k = key
    · rw [List.find?_cons_of_pos (by simp [h]), if_pos h]
      rfl
    · rw [List.find?_cons_of_neg (by simp [h]), if_neg h]
      exact ih

end Toml

end TedgeDot
