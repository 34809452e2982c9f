import TedgeDot.Library.Merge
import TedgeDot.Runtime.Management

/-!
# `set-config` as a deep merge

The section a `set-config` patches, against the recursive merge of what it said before with the
patch. The merge goes into standard tables only: where an object of the patch meets an inline
table, the object replaces it, and whatever the object does not name is lost.
-/

namespace TedgeDot.Management

open Library (mergeTable mergeValue)

/-! ## What the patch keeps -/

mutual

/-- An object names every key of an inline table, in the tables below as well. -/
def covers (inline : List (String × Toml)) (members : JsonMap) : Bool :=
  match inline with
  | [] => true
  | (key, v) :: rest => coversValue v (JsonMap.get members key) && covers rest members

def coversValue (v : Toml) (member : Option Json) : Bool :=
  match v with
  | .table entries =>
    match member with
    | none => false
    | some (.object members) => covers entries members
    | some _ => true
  | _ => member.isSome

end

mutual

/-- Wherever an object of the patch meets an inline table, it names everything in it. -/
def keeps (table : EditTable) (patch : List (String × Json)) : Bool :=
  match patch with
  | [] => true
  | (key, value) :: rest => keepsItem (table.get key) value && keeps table rest

def keepsItem (item : Option Item) (value : Json) : Bool :=
  match value with
  | .object members =>
    match item with
    | some (.table entries) => keeps entries members
    | some (.value (.table inline)) => covers inline members
    | _ => true
  | _ => true

end

theorem covers_iff (inline : TomlTable) (members : JsonMap) :
    covers inline members = true ↔
      ∀ e ∈ inline, coversValue e.2 (JsonMap.get members e.1) = true := by
  induction inline with
  | nil => simp [covers]
  | cons e rest ih => rw [covers, Bool.and_eq_true, ih, List.forall_mem_cons]

theorem keeps_iff (table : EditTable) (patch : JsonMap) :
    keeps table patch = true ↔ ∀ m ∈ patch, keepsItem (table.get m.1) m.2 = true := by
  induction patch with
  | nil => simp [keeps]
  | cons m rest ih => rw [keeps, Bool.and_eq_true, ih, List.forall_mem_cons]

/-! ## Replacing an inline table -/

theorem mergeValue_of_not_table {base : Option Toml} (h : ∀ b, base ≠ some (.table b)) (w : Toml) :
    mergeValue base w = w := by
  unfold mergeValue
  split
  · split
    · exact absurd rfl (h _)
    · rfl
  · rfl

theorem mergeValue_leaf (base : Option Toml) {w : Toml} (h : w.asTable = none) :
    mergeValue base w = w := by
  cases w with
  | table entries => cases h
  | _ => rfl

/-- A member becomes a table exactly if it is an object. -/
theorem toEdit_cases {member : Json} {w : Toml} (hw : member.toEdit = .ok w) :
    (∃ (members : JsonMap) (p : TomlTable), member = .object members ∧ w = .table p ∧
      Json.membersToEdit members = .ok p) ∨
      (member.asObject = none ∧ w.asTable = none) := by
  cases member with
  | object members =>
    unfold Json.toEdit at hw
    split at hw
    · rename_i p hp
      obtain rfl := Except.ok.inj hw
      exact .inl ⟨members, p, rfl, rfl, hp⟩
    · cases hw
  | array items =>
    unfold Json.toEdit at hw
    split at hw
    · obtain rfl := Except.ok.inj hw
      exact .inr ⟨rfl, rfl⟩
    · cases hw
  | number n =>
    unfold Json.toEdit at hw
    split at hw <;> obtain rfl := Except.ok.inj hw <;> exact .inr ⟨rfl, rfl⟩
  | null => cases hw
  | bool b =>
    obtain rfl := Except.ok.inj hw
    exact .inr ⟨rfl, rfl⟩
  | string s =>
    obtain rfl := Except.ok.inj hw
    exact .inr ⟨rfl, rfl⟩

/-- Merging `w` into a value leaves `w` exactly when `w` names everything in the value. -/
theorem mergeValue_eq_self_iff (v : Toml) {member : Json} {w : Toml} (hv : v.WellFormed)
    (hw : member.toEdit = .ok w) :
    mergeValue (some v) w = w ↔ coversValue v (some member) = true := by
  induction v using Toml.induction generalizing member w with
  | table entries ih =>
    rcases toEdit_cases hw with ⟨members, p, rfl, rfl, hp⟩ | ⟨hmember, hleaf⟩
    · have hentry (e : String × Toml) (he : e ∈ entries) : e.2.WellFormed :=
        (Toml.entriesWellFormed_iff entries).mp hv.2 e he
      show Toml.table (mergeTable entries p) = .table p ↔ covers entries members = true
      rw [Toml.table.injEq, covers_iff]
      have hpsorted := Json.sorted_membersToEdit hp
      constructor
      · intro heq e he
        have hget : (mergeTable entries p).get e.1 = p.get e.1 := by rw [heq]
        rw [Library.get_mergeTable _ hpsorted, TomlTable.get_of_mem hv.1 he] at hget
        have hmember := Json.get_membersToEdit hp e.1
        split at hmember
        · -- an entry the object does not name would stay
          rw [hmember] at hget
          cases hget
        · rename_i member hmem
          obtain ⟨w, hw, hpw⟩ := hmember
          rw [hpw] at hget
          rw [hmem]
          exact (ih e he (hentry e he) hw).mp (Option.some.inj hget)
      · intro hcovers
        refine TomlTable.ext_get (Library.sorted_mergeTable hv.1 p) hpsorted fun key => ?_
        rw [Library.get_mergeTable _ hpsorted]
        have hmember := Json.get_membersToEdit hp key
        cases hentries : TomlTable.get entries key with
        | none =>
          cases p.get key with
          | none => rfl
          | some w => simp [mergeValue_of_not_table]
        | some v =>
          have hmem := TomlTable.mem_of_get hentries
          have hcover := hcovers _ hmem
          split at hmember
          · rename_i hnone
            rw [hnone] at hcover
            cases v <;> simp [coversValue] at hcover
          · rename_i member hsome
            obtain ⟨w, hw, hpw⟩ := hmember
            rw [hsome] at hcover
            rw [hpw]
            exact congrArg some ((ih _ hmem (hentry _ hmem) hw).mpr hcover)
    · rw [mergeValue_leaf _ hleaf]
      cases member with
      | object members => cases hmember
      | _ => simp [coversValue]
  | _ =>
    rw [mergeValue_of_not_table (by simp)]
    simp [coversValue]

/-! ## The merge of a patch -/

/-- After the merge every key has the merged member or what was there. -/
theorem get_mergeObject {table table' : EditTable} {patch : JsonMap}
    (hnodup : (patch.map Prod.fst).Nodup) (h : mergeObject table patch = .ok table') (key : String) :
    match JsonMap.get patch key with
    | none => table'.get key = table.get key
    | some value => ∃ item, mergeItem (table.get key) value = .ok item ∧ table'.get key =
      some item := by
  induction patch generalizing table with
  | nil =>
    obtain rfl := Except.ok.inj h
    rfl
  | cons m rest ih =>
    rw [List.map_cons, List.nodup_cons] at hnodup
    unfold mergeObject at h
    split at h
    · cases h
    · rename_i item hitem
      have hrest := ih hnodup.2 h
      rw [JsonMap.get_cons]
      by_cases hk : m.1 = key
      · -- the key does not come again
        have hnone : JsonMap.get rest key = none := by
          cases hget : JsonMap.get rest key with
          | none => rfl
          | some value =>
            exact absurd (List.mem_map.mpr ⟨_, JsonMap.mem_of_get hget, hk.symm⟩) hnodup.1
        rw [hnone] at hrest
        rw [if_pos hk]
        subst hk
        refine ⟨item, hitem, ?_⟩
        rw [hrest, EditTable.get_insert, if_pos rfl]
      · rw [if_neg hk]
        have hsame : (table.insert m.1 item).get key = table.get key := by
          rw [EditTable.get_insert, if_neg hk]
        rw [hsame] at hrest
        exact hrest

theorem membersToEdit_ok {members : JsonMap} (h : ∀ m ∈ members, ∃ w, m.2.toEdit = .ok w) :
    ∃ p, Json.membersToEdit members = .ok p := by
  induction members with
  | nil => exact ⟨[], rfl⟩
  | cons m rest ih =>
    rw [List.forall_mem_cons] at h
    obtain ⟨w, hw⟩ := h.1
    obtain ⟨p, hp⟩ := ih h.2
    exact ⟨p.insert m.1 w, by simp [Json.membersToEdit, hw, hp]⟩

/-- What a member leaves under a key: the merge of its value with what was there, exactly when it
keeps that. -/
def MergesIff (value : Json) : Prop :=
  ∀ item item', (∀ i, item = some i → Item.WellFormed i) → mergeItem item value = .ok item' →
    ∃ w, value.toEdit = .ok w ∧ (item'.printed = some (mergeValue (item.bind Item.printed) w) ↔
      keepsItem item value = true)

/-- Members that merge give a table that does, unless the patch meets an inline table. -/
theorem mergeObject_iff_of {table table' : EditTable} {patch : JsonMap}
    (hnodup : (patch.map Prod.fst).Nodup) (htable : Item.EntriesWellFormed table)
    (hmembers : ∀ m ∈ patch, MergesIff m.2) (h : mergeObject table patch = .ok table') :
    ∃ p, Json.membersToEdit patch = .ok p ∧
      (Item.entriesToToml table' = mergeTable (Item.entriesToToml table) p ↔
        keeps table patch = true) := by
  have hget := get_mergeObject hnodup h
  -- each member converts, and is merged under its key
  have hmember (m : String × Json) (hm : m ∈ patch) : ∃ item w, table'.get m.1 = some item ∧
      m.2.toEdit = .ok w ∧ (item.printed = some (mergeValue ((table.get m.1).bind Item.printed) w) ↔
        keepsItem (table.get m.1) m.2 = true) := by
    have hm' := hget m.1
    rw [JsonMap.get_of_mem hnodup hm] at hm'
    obtain ⟨item, hitem, hafter⟩ := hm'
    obtain ⟨w, hw, hiff⟩ := hmembers m hm _ _ (fun i hi => htable.get hi) hitem
    exact ⟨item, w, hafter, hw, hiff⟩
  obtain ⟨p, hp⟩ := membersToEdit_ok fun m hm => by
    obtain ⟨_, w, _, hw, _⟩ := hmember m hm
    exact ⟨w, hw⟩
  refine ⟨p, hp, ?_⟩
  have hpsorted := Json.sorted_membersToEdit hp
  rw [keeps_iff]
  constructor
  · intro heq m hm
    obtain ⟨item, w, hafter, hw, hiff⟩ := hmember m hm
    rw [← hiff]
    have hkey : (Item.entriesToToml table').get m.1 =
        (mergeTable (Item.entriesToToml table) p).get m.1 := by rw [heq]
    have hpget := Json.get_membersToEdit hp m.1
    rw [JsonMap.get_of_mem hnodup hm] at hpget
    obtain ⟨w', hw', hpget⟩ := hpget
    obtain rfl := Except.ok.inj (hw.symm.trans hw')
    rw [Item.get_entriesToToml, Library.get_mergeTable _ hpsorted, hafter, hpget,
      Item.get_entriesToToml] at hkey
    exact hkey
  · intro hkeeps
    refine TomlTable.ext_get (Item.sorted_entriesToToml _)
      (Library.sorted_mergeTable (Item.sorted_entriesToToml _) p) fun key => ?_
    rw [Item.get_entriesToToml, Library.get_mergeTable _ hpsorted, Item.get_entriesToToml]
    have hpget := Json.get_membersToEdit hp key
    have hkey := hget key
    split at hpget
    · -- a key the patch does not name is as before
      rename_i hnone
      rw [hnone] at hkey
      rw [hpget, hkey]
    · rename_i value hsome
      obtain ⟨w, hw, hpget⟩ := hpget
      have hm := JsonMap.mem_of_get hsome
      obtain ⟨item, w', hafter, hw', hiff⟩ := hmember _ hm
      obtain rfl := Except.ok.inj (hw.symm.trans hw')
      rw [hpget, hafter]
      exact hiff.mpr (hkeeps _ hm)

theorem replaced_iff {item : Option Item} (hstandard : ∀ entries, item ≠ some (.table entries))
    (hitem : ∀ i, item = some i → i.WellFormed) {members : JsonMap} {p : TomlTable}
    (hp : Json.membersToEdit members = .ok p) :
    mergeValue (item.bind Item.printed) (.table p) = .table p ↔
      keepsItem item (.object members) = true := by
  have hedit : (Json.object members).toEdit = .ok (.table p) := by simp [Json.toEdit, hp]
  match item, hstandard, hitem with
  | none, _, _ => simp [mergeValue, keepsItem]
  | some (.table entries), hstandard, _ => exact absurd rfl (hstandard entries)
  | some (.arrayOfTables tables), _, _ =>
    cases tables <;> simp [mergeValue, keepsItem, Item.printed, Item.toToml]
  | some (.value v), _, hitem =>
    show mergeValue (some v) (.table p) = .table p ↔ _
    rw [mergeValue_eq_self_iff v (hitem _ rfl) hedit]
    cases v <;> simp [coversValue, keepsItem]

/-- Anything but an object replaces what was there. -/
theorem mergesIff_leaf {value : Json} (hvalue : value.asObject = none) : MergesIff value := by
  intro item item' _ h
  have hmerge : mergeItem item value = value.toEdit.map Item.value := by
    cases value with
    | object members => cases hvalue
    | _ =>
      unfold mergeItem
      split
      · rename_i e he
        rw [he]
        rfl
      · rename_i v hv
        rw [hv]
        rfl
  rw [hmerge] at h
  cases hw : value.toEdit with
  | error e =>
    rw [hw] at h
    cases h
  | ok w =>
    rw [hw] at h
    obtain rfl := Except.ok.inj h
    refine ⟨w, rfl, ?_⟩
    rcases toEdit_cases hw with ⟨members, p, rfl, -, -⟩ | ⟨-, hleaf⟩
    · cases hvalue
    · rw [mergeValue_leaf _ hleaf]
      cases value with
      | object members => cases hvalue
      | _ => simp [Item.printed, Item.toToml, keepsItem]

/-- The merge law of one member. -/
theorem mergeItem_iff (value : Json) (hvalue : value.WellFormed) : MergesIff value := by
  induction value using Json.induction with
  | object members ih =>
    intro item item' hitem h
    have hmembers : ∀ m ∈ members, MergesIff m.2 := fun m hm =>
      ih m hm ((Json.membersWellFormed_iff members).mp hvalue.2 m hm)
    unfold mergeItem at h
    split at h
    · -- a standard table that is there
      rename_i entries
      split at h
      · cases h
      · rename_i entries' hentries
        obtain rfl := Except.ok.inj h
        obtain ⟨p, hp, hiff⟩ := mergeObject_iff_of hvalue.1 (hitem _ rfl) hmembers hentries
        refine ⟨.table p, by simp [Json.toEdit, hp], ?_⟩
        show some (Toml.table (Item.entriesToToml entries')) =
          some (.table (mergeTable (Item.entriesToToml entries) p)) ↔ keeps entries members = true
        rw [Option.some.injEq, Toml.table.injEq, hiff]
    · rename_i hstandard
      split at h
      · cases h
      · rename_i p hp
        obtain rfl := Except.ok.inj h
        refine ⟨.table p, by simp [Json.toEdit, hp], ?_⟩
        show some (Toml.table p) = _ ↔ _
        rw [Option.some.injEq, eq_comm, replaced_iff (fun e heq => hstandard e heq) hitem hp]
  | _ => exact mergesIff_leaf rfl

/-! ## The sections of a document -/

/-- A place a `set-config` names: a key of the document, or a device. -/
inductive Section where
  | root (key : String)
  | device (i : Nat)

namespace Section

def value (doc : Document) : Section → Option Toml
  | .root key => (doc.get key).bind Item.printed
  | .device i => ((doc.get "device").bind Item.asArrayOfTables).bind fun devices =>
      devices[i]?.map fun device => .table (Item.entriesToToml device)

/-- The standard table there, empty when there is none. -/
def entries (doc : Document) : Section → EditTable
  | .root key => ((doc.get key).bind Item.asTable).getD []
  | .device i => (((doc.get "device").bind Item.asArrayOfTables).getD []).getD i []

variable (doc : Document)

theorem value_root (key : String) : value doc (.root key) = (doc.get key).bind Item.printed := rfl

theorem value_device (i : Nat) :
    value doc (.device i) = ((doc.get "device").bind Item.asArrayOfTables).bind fun devices =>
      devices[i]?.map fun device => .table (Item.entriesToToml device) := rfl

theorem entries_root (key : String) :
    entries doc (.root key) = ((doc.get key).bind Item.asTable).getD [] := rfl

theorem entries_device (i : Nat) :
    entries doc (.device i) =
      (((doc.get "device").bind Item.asArrayOfTables).getD []).getD i [] := rfl

/-- Neither of two places is part of the other. -/
def Apart : Section → Section → Prop
  | .root key, .root key' => key ≠ key'
  | .root key, .device _ => key ≠ "device"
  | .device _, .root key => key ≠ "device"
  | .device i, .device j => i ≠ j

end Section

/-- The section a `set-config` patches. -/
def targetSection (json : Json) (doc : Document) : Option Section :=
  ((json.get "target").bind Json.asStr).bind fun target =>
    match stripPrefix "device:" target with
    | some name =>
      ((doc.get "device").bind Item.asArrayOfTables).bind fun devices =>
        (findDevice devices name).map .device
    | none => some (.root target)

/-- The patch of a `set-config`. -/
def patchOf (json : Json) : JsonMap := ((json.get "config").bind Json.asObject).getD []

def tableOf : Option Toml → TomlTable
  | some (.table entries) => entries
  | _ => []

/-- The section is the recursive merge of what it was with the patch, and every other place is
as it was. -/
def MergedInto (doc doc' : Document) (s : Section) (patch : JsonMap) : Prop :=
  ∃ p, Json.membersToEdit patch = .ok p ∧
    s.value doc' = some (.table (mergeTable (tableOf (s.value doc)) p)) ∧
    ∀ s', s.Apart s' → s'.value doc' = s'.value doc

/-- The places a patched section leaves alone. -/
structure Patched (doc doc' : Document) (s : Section) (entries' : EditTable) : Prop where
  before : tableOf (s.value doc) = Item.entriesToToml (s.entries doc)
  after : s.value doc' = some (.table (Item.entriesToToml entries'))
  others : ∀ s', s.Apart s' → s'.value doc' = s'.value doc

theorem patched_root {doc : Document} {key : String} {entries' : EditTable}
    (h : ∀ item, doc.get key = some item → ∃ entries, item = .table entries) :
    Patched doc (doc.insert key (.table entries')) (.root key) entries' where
  before := by
    rw [Section.value_root, Section.entries_root]
    cases hget : doc.get key with
    | none => rfl
    | some item =>
      obtain ⟨entries, rfl⟩ := h item hget
      rfl
  after := by
    rw [Section.value_root, EditTable.get_insert, if_pos rfl]
    rfl
  others s' hapart := by
    cases s' with
    | root key' => rw [Section.value_root, Section.value_root, EditTable.get_insert, if_neg hapart]
    | device i => rw [Section.value_device, Section.value_device, EditTable.get_insert, if_neg hapart]

theorem patched_device {doc : Document} {devices : List EditTable} {i : Nat} {entries' : EditTable}
    (h : (doc.get "device").bind Item.asArrayOfTables = some devices) (hi : i < devices.length) :
    Patched doc (doc.insert "device" (.arrayOfTables (devices.set i entries'))) (.device i)
      entries' where
  before := by
    rw [Section.value_device, Section.entries_device, h]
    simp [tableOf, hi]
  after := by
    rw [Section.value_device, EditTable.get_insert, if_pos rfl]
    simp [Item.asArrayOfTables, hi]
  others s' hapart := by
    cases s' with
    | root key' =>
      rw [Section.value_root, Section.value_root, EditTable.get_insert,
        if_neg fun heq => hapart heq.symm]
    | device j =>
      have hij : i ≠ j := hapart
      rw [Section.value_device, Section.value_device, EditTable.get_insert, if_pos rfl, h]
      simp [Item.asArrayOfTables, List.getElem?_set_ne hij]

/-- A set-config patches one section and nothing else. -/
theorem applySetConfig_spec {json : Json} {doc doc' : Document} (h : applySetConfig json doc =
    .ok doc') :
    ∃ s entries', targetSection json doc = some s ∧
      mergeObject (s.entries doc) (patchOf json) = .ok entries' ∧ Patched doc doc' s entries' := by
  unfold applySetConfig at h
  unfold targetSection patchOf
  split at h
  · cases h
  -- the branches of the command: the section is found, made, or refused
  · rename_i target htarget
    rw [htarget]
    split at h
    · cases h
    · rename_i patch hpatch
      rw [hpatch]
      split at h
      · cases h
      · split at h
        · rename_i name hname
          split at h
          · cases h
          · rename_i devices hdevices
            split at h
            · cases h
            · rename_i i hi
              split at h
              · cases h
              · rename_i entries' hmerge
                obtain rfl := Except.ok.inj h
                have hlt : i < devices.length := (List.findIdx?_eq_some_iff_getElem.mp hi).1
                refine ⟨.device i, entries', by simp [hname, hdevices, hi], ?_,
                  patched_device hdevices hlt⟩
                rw [Section.entries_device, hdevices]
                exact hmerge
        · rename_i hname
          split at h
          · rename_i hkind
            split at h
            · rename_i entries hentries
              split at h
              · cases h
              · rename_i entries' hmerge
                obtain rfl := Except.ok.inj h
                refine ⟨.root target, entries', by simp [hname], ?_, patched_root fun item hitem => ?_⟩
                · have : Section.entries doc (.root target) = entries := by
                    rw [Section.entries_root]
                    cases hget : doc.get target with
                    | none =>
                      rw [hget] at hentries
                      obtain rfl := Item.table.inj hentries
                      rfl
                    | some item =>
                      rw [hget] at hentries
                      obtain rfl : item = .table entries := hentries
                      rfl
                  rw [this]
                  exact hmerge
                · rw [hitem] at hentries
                  exact ⟨entries, hentries⟩
            · cases h
          · cases h

/-- The entries of a section have distinct keys. -/
theorem wellFormed_entries {doc : Document} (h : Item.EntriesWellFormed doc) (s : Section) :
    Item.EntriesWellFormed (s.entries doc) := by
  cases s with
  | root key =>
    rw [Section.entries_root]
    cases hget : doc.get key with
    | none => trivial
    | some item =>
      cases item with
      | table entries => exact h.get hget
      | _ => trivial
  | device i =>
    rw [Section.entries_device]
    cases hget : doc.get "device" with
    | none => trivial
    | some item =>
      cases item with
      | arrayOfTables devices =>
        have hdevices := (Item.tablesWellFormed_iff devices).mp (h.get hget)
        show Item.EntriesWellFormed (devices.getD i [])
        rw [List.getD_eq_getElem?_getD]
        cases hi : devices[i]? with
        | none => trivial
        | some device => exact hdevices device (List.mem_of_getElem? hi)
      | _ => trivial

theorem wellFormed_patchOf {json : Json} (h : json.WellFormed) :
    ((patchOf json).map Prod.fst).Nodup ∧ ∀ m ∈ patchOf json, m.2.WellFormed := by
  unfold patchOf
  cases json with
  | object members =>
    cases hget : JsonMap.get members "config" with
    | none => simp [Json.get, hget]
    | some value =>
      have hvalue := (Json.membersWellFormed_iff members).mp h.2 _ (JsonMap.mem_of_get hget)
      cases value with
      | object patch =>
        have hpatch : (((Json.object members).get "config").bind Json.asObject).getD [] = patch := by
          simp [Json.get, hget, Json.asObject]
        rw [hpatch]
        exact ⟨hvalue.1, (Json.membersWellFormed_iff patch).mp hvalue.2⟩
      | _ => simp [Json.get, hget, Json.asObject]
  | _ => simp [Json.get]

/-- An applied `set-config` is the deep merge of its patch exactly when, wherever an object of
the patch meets an inline table, it names everything in it. -/
theorem set_config_merges_iff {doc doc' : Document} {json : Json}
    (hdoc : Item.EntriesWellFormed doc) (hjson : json.WellFormed)
    (h : applySetConfig json doc = .ok doc') :
    ∃ s, targetSection json doc = some s ∧
      (MergedInto doc doc' s (patchOf json) ↔ keeps (s.entries doc) (patchOf json) = true) := by
  obtain ⟨s, entries', hsection, hmerge, hpatched⟩ := applySetConfig_spec h
  obtain ⟨hnodup, hmembers⟩ := wellFormed_patchOf hjson
  obtain ⟨p, hp, hiff⟩ := mergeObject_iff_of hnodup (wellFormed_entries hdoc s)
    (fun m hm => mergeItem_iff m.2 (hmembers m hm)) hmerge
  refine ⟨s, hsection, ?_⟩
  rw [← hiff]
  constructor
  · rintro ⟨p', hp', hvalue, -⟩
    obtain rfl := Except.ok.inj (hp.symm.trans hp')
    rw [hpatched.after, hpatched.before] at hvalue
    exact Toml.table.inj (Option.some.inj hvalue)
  · intro heq
    refine ⟨p, hp, ?_, hpatched.others⟩
    rw [hpatched.after, hpatched.before, heq]

/-! A `measurement` table written inline, and a patch of its group. -/

def plantDocument : Document :=
  [("connector", .table [("protocol", .value (.string "modbus")),
    ("measurement",
      .value (.table [("group", .string "plant"), ("include_boolean", .boolean false)]))])]

def groupPatch : Json :=
  .object [("target", .string "connector"),
    ("config", .object [("measurement", .object [("group", .string "site")])])]

def sitePatched : Document :=
  [("connector", .table [("protocol", .value (.string "modbus")),
    ("measurement", .value (.table [("group", .string "site")]))])]

/-- `include_boolean` is gone, which the patch does not mention. -/
theorem inline_table_replaced :
    applySetConfig groupPatch plantDocument = .ok sitePatched ∧
    targetSection groupPatch plantDocument = some (.root "connector") ∧
    ¬ MergedInto plantDocument sitePatched (.root "connector") (patchOf groupPatch) := by
  refine ⟨rfl, rfl, ?_⟩
  rintro ⟨p, hp, hvalue, -⟩
  obtain rfl := Except.ok.inj (hp.symm.trans rfl)
  have hlost := congrArg (fun v => (((tableOf v).get "measurement").bind fun m =>
    m.get "include_boolean").isSome) hvalue
  exact absurd hlost (by decide)

theorem set_config_merges_iff_plant :
    ∃ s, targetSection groupPatch plantDocument = some s ∧
      (MergedInto plantDocument sitePatched s (patchOf groupPatch) ↔
        keeps (s.entries plantDocument) (patchOf groupPatch) = true) := by
  have hdoc : Item.EntriesWellFormed plantDocument := by
    simp [plantDocument, Item.EntriesWellFormed, Item.WellFormed, Toml.WellFormed,
      Toml.EntriesWellFormed]
    decide
  have hjson : groupPatch.WellFormed := by
    simp [groupPatch, Json.WellFormed, Json.MembersWellFormed]
  exact set_config_merges_iff hdoc hjson rfl

end TedgeDot.Management
