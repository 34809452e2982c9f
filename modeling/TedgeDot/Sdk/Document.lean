import TedgeDot.Sdk.Toml

/-!
# Configuration documents

The `toml_edit` document a management command patches. A table written under its own header or
by dotted keys is a standard table; an inline table is a value like a string. What the document
says is its value as `toml` parses the text it prints.
-/

namespace TedgeDot

/-- `toml_edit::Item`: a value, a standard table, or an array of tables. -/
inductive Item where
  | value (v : Toml)
  | table (entries : List (String × Item))
  | arrayOfTables (tables : List (List (String × Item)))

/-- `toml_edit::Table`: its entries in the order they are written. -/
abbrev EditTable := List (String × Item)

/-- `DocumentMut`, as its root table. -/
abbrev Document := EditTable

namespace EditTable

def get (table : EditTable) (key : String) : Option Item :=
  (table.find? fun e => e.1 == key).map Prod.snd

/-- `Table::insert`: in the place of the key, or last. -/
def insert (table : EditTable) (key : String) (item : Item) : EditTable :=
  match table with
  | [] => [(key, item)]
  | (k, i) :: rest => if k = key then (key, item) :: rest else (k, i) :: EditTable.insert rest key item

theorem get_cons (e : String × Item) (rest : EditTable) (key : String) :
    get (e :: rest) key = if e.1 = key then some e.2 else get rest key :=
  Members.get_cons e rest key

theorem insert_eq_set (table : EditTable) (key : String) (item : Item) :
    table.insert key item = Members.set table key item := by
  induction table with
  | nil => rfl
  | cons e rest ih =>
    unfold insert Members.set
    rw [ih]

theorem get_insert (table : EditTable) (key key' : String) (item : Item) :
    (table.insert key item).get key' = if key = key' then some item else table.get key' := by
  rw [insert_eq_set]
  exact Members.get_set table key key' item

end EditTable

namespace Item

mutual

def toToml : Item → Toml
  | .value v => v
  | .table entries => .table (entriesToToml entries)
  | .arrayOfTables tables => .array (tablesToToml tables)

/-- An array of tables without a table prints nothing. -/
def entriesToToml : List (String × Item) → TomlTable
  | [] => []
  | (key, .arrayOfTables []) :: rest => TomlTable.remove (entriesToToml rest) key
  | (key, item) :: rest => TomlTable.insert (entriesToToml rest) key item.toToml

def tablesToToml : List (List (String × Item)) → List Toml
  | [] => []
  | entries :: rest => .table (entriesToToml entries) :: tablesToToml rest

end

/-- What an item under a key says, if it prints anything. -/
def printed : Item → Option Toml
  | .arrayOfTables [] => none
  | item => some item.toToml

def asTable : Item → Option EditTable
  | .table entries => some entries
  | _ => none

def asArrayOfTables : Item → Option (List EditTable)
  | .arrayOfTables tables => some tables
  | _ => none

def asStr : Item → Option String
  | .value v => v.asStr
  | _ => none

theorem entriesToToml_cons (key : String) (item : Item) (rest : EditTable) :
    entriesToToml ((key, item) :: rest) =
      match item.printed with
      | none => (entriesToToml rest).remove key
      | some v => (entriesToToml rest).insert key v := by
  cases item with
  | arrayOfTables tables => cases tables <;> rfl
  | _ => rfl

theorem get_entriesToToml (table : EditTable) (key : String) :
    (entriesToToml table).get key = (table.get key).bind printed := by
  induction table with
  | nil => rfl
  | cons e rest ih =>
    obtain ⟨k, item⟩ := e
    rw [entriesToToml_cons, EditTable.get_cons]
    cases hprinted : item.printed with
    | none =>
      rw [TomlTable.get_remove, ih]
      by_cases hk : k = key <;> simp [hk, hprinted]
    | some v =>
      rw [TomlTable.get_insert, ih]
      by_cases hk : k = key <;> simp [hk, hprinted]

theorem sorted_entriesToToml (table : EditTable) : (entriesToToml table).Sorted := by
  induction table with
  | nil => exact List.Pairwise.nil
  | cons e rest ih =>
    obtain ⟨k, item⟩ := e
    rw [entriesToToml_cons]
    split
    · exact TomlTable.sorted_remove _ ih
    · exact TomlTable.sorted_insert _ _ ih

end Item

/-- What the document says, as its text parses. -/
def Document.toToml (doc : Document) : Toml := .table (Item.entriesToToml doc)

namespace Item

mutual

/-- The tables of every value have their keys in order. -/
def WellFormed : Item → Prop
  | .value v => v.WellFormed
  | .table entries => EntriesWellFormed entries
  | .arrayOfTables tables => TablesWellFormed tables

def EntriesWellFormed : List (String × Item) → Prop
  | [] => True
  | (_, item) :: rest => item.WellFormed ∧ EntriesWellFormed rest

def TablesWellFormed : List (List (String × Item)) → Prop
  | [] => True
  | entries :: rest => EntriesWellFormed entries ∧ TablesWellFormed rest

end

theorem entriesWellFormed_iff (entries : EditTable) :
    EntriesWellFormed entries ↔ ∀ e ∈ entries, e.2.WellFormed := by
  induction entries with
  | nil => simp [EntriesWellFormed]
  | cons e rest ih => rw [EntriesWellFormed, ih, List.forall_mem_cons]

theorem tablesWellFormed_iff (tables : List EditTable) :
    TablesWellFormed tables ↔ ∀ t ∈ tables, EntriesWellFormed t := by
  induction tables with
  | nil => simp [TablesWellFormed]
  | cons t rest ih => rw [TablesWellFormed, ih, List.forall_mem_cons]

theorem EntriesWellFormed.get {table : EditTable} (h : EntriesWellFormed table) {key : String}
    {item : Item} (hget : table.get key = some item) : item.WellFormed := by
  rw [entriesWellFormed_iff] at h
  obtain ⟨e, hfind, rfl⟩ := Option.map_eq_some_iff.mp hget
  exact h e (List.mem_of_find?_eq_some hfind)

end Item

/-! ## JSON values in a document -/

def Number.asI64 : Number → Option Int64
  | .posInt n => if n.toNat < 2 ^ 63 then some (Int64.ofNat n.toNat) else none
  | .negInt n => some n
  | .float _ => none

namespace Json

mutual

/-- `json_value_to_edit`: a value a document holds. -/
def toEdit : Json → Except String Toml
  | .null => .error "null values are not allowed in config"
  | .bool b => .ok (.boolean b)
  | .number n =>
    match n.asI64 with
    | some i => .ok (.integer i)
    | none => .ok (.float n.asF64)
  | .string s => .ok (.string s)
  | .array items =>
    match itemsToEdit items with
    | .ok items => .ok (.array items)
    | .error e => .error e
  | .object members =>
    match membersToEdit members with
    | .ok table => .ok (.table table)
    | .error e => .error e

def itemsToEdit : List Json → Except String (List Toml)
  | [] => .ok []
  | item :: rest =>
    match item.toEdit with
    | .error e => .error e
    | .ok item =>
      match itemsToEdit rest with
      | .ok rest => .ok (item :: rest)
      | .error e => .error e

/-- `json_object_to_inline`. -/
def membersToEdit : List (String × Json) → Except String TomlTable
  | [] => .ok []
  | (key, value) :: rest =>
    match value.toEdit with
    | .error e => .error e
    | .ok value =>
      match membersToEdit rest with
      | .ok table => .ok (TomlTable.insert table key value)
      | .error e => .error e

end

mutual

/-- The keys of every object are distinct. -/
def WellFormed : Json → Prop
  | .array items => ItemsWellFormed items
  | .object members => (members.map Prod.fst).Nodup ∧ MembersWellFormed members
  | _ => True

def ItemsWellFormed : List Json → Prop
  | [] => True
  | item :: rest => item.WellFormed ∧ ItemsWellFormed rest

def MembersWellFormed : List (String × Json) → Prop
  | [] => True
  | (_, value) :: rest => value.WellFormed ∧ MembersWellFormed rest

end

theorem membersWellFormed_iff (members : JsonMap) :
    MembersWellFormed members ↔ ∀ m ∈ members, m.2.WellFormed := by
  induction members with
  | nil => simp [MembersWellFormed]
  | cons m rest ih => rw [MembersWellFormed, ih, List.forall_mem_cons]

theorem membersToEdit_cons {key : String} {value : Json} {rest : JsonMap} {table : TomlTable}
    (h : membersToEdit ((key, value) :: rest) = .ok table) :
    ∃ v t, value.toEdit = .ok v ∧ membersToEdit rest = .ok t ∧ table = t.insert key v := by
  unfold membersToEdit at h
  split at h
  · cases h
  · rename_i v hv
    split at h
    · rename_i t ht
      exact ⟨v, t, hv, ht, (Except.ok.inj h).symm⟩
    · cases h

theorem sorted_membersToEdit {members : JsonMap} {table : TomlTable}
    (h : membersToEdit members = .ok table) : table.Sorted := by
  induction members generalizing table with
  | nil =>
    obtain rfl := Except.ok.inj h
    exact List.Pairwise.nil
  | cons m rest ih =>
    obtain ⟨v, t, -, ht, rfl⟩ := membersToEdit_cons h
    exact TomlTable.sorted_insert _ _ (ih ht)

theorem get_membersToEdit {members : JsonMap} {table : TomlTable}
    (h : membersToEdit members = .ok table) (key : String) :
    match JsonMap.get members key with
    | none => table.get key = none
    | some value => ∃ v, value.toEdit = .ok v ∧ table.get key = some v := by
  induction members generalizing table with
  | nil =>
    obtain rfl := Except.ok.inj h
    rfl
  | cons m rest ih =>
    obtain ⟨v, t, hv, ht, rfl⟩ := membersToEdit_cons h
    rw [JsonMap.get_cons]
    by_cases hk : m.1 = key
    · rw [if_pos hk]
      exact ⟨v, hv, by rw [TomlTable.get_insert, if_pos hk]⟩
    · rw [if_neg hk, TomlTable.get_insert, if_neg hk]
      exact ih ht

end Json

end TedgeDot
