import TedgeDot.Runtime.Atomic
import TedgeDot.Runtime.SetConfig

/-!
# Commands that are delivered again

A message of the command topics may be delivered more than once. A `set-config` or a `define-device`
that is handled again patches the document into what it is already, unless the first one gave the
device another name.

- `redelivered`: whatever the resolver, the module and the broker say to it.
-/

namespace TedgeDot.Management

/-! ## The patch of a patched document -/

theorem insert_of_get {table : EditTable} {key : String} {item : Item}
    (h : table.get key = some item) : table.insert key item = table := by
  induction table with
  | nil => cases h
  | cons e rest ih =>
    obtain ⟨k, i⟩ := e
    rw [EditTable.get_cons] at h
    unfold EditTable.insert
    split at h
    · next hk =>
      obtain rfl := Option.some.inj h
      obtain rfl : k = key := hk
      rw [if_pos rfl]
    · next hk => rw [if_neg hk, ih h]

theorem mergeObject_of_merged {table : EditTable} {patch : JsonMap}
    (h : ∀ m ∈ patch, ∃ item, table.get m.1 = some item ∧ mergeItem (some item) m.2 = .ok item) :
    mergeObject table patch = .ok table := by
  induction patch with
  | nil => rfl
  | cons m rest ih =>
    obtain ⟨⟨item, hget, hmerge⟩, hrest⟩ := List.forall_mem_cons.mp h
    rw [mergeObject, hget, hmerge]
    simp only
    rw [insert_of_get hget]
    exact ih hrest

/-- What an object leaves of a table, its members leave as it is. -/
theorem mergeObject_again {patch : JsonMap} (hnodup : (patch.map Prod.fst).Nodup)
    (hmembers : ∀ m ∈ patch, ∀ item merged, mergeItem item m.2 = .ok merged →
      mergeItem (some merged) m.2 = .ok merged)
    {table table' : EditTable} (h : mergeObject table patch = .ok table') :
    mergeObject table' patch = .ok table' := by
  refine mergeObject_of_merged fun m hm => ?_
  have hget := get_mergeObject hnodup h m.1
  rw [JsonMap.get_of_mem hnodup hm] at hget
  obtain ⟨item, hmerge, hitem⟩ := hget
  exact ⟨item, hitem, hmembers m hm _ _ hmerge⟩

/-- A member merged twice is as merged once. -/
theorem mergeItem_again {value : Json} (hwell : value.WellFormed) {item : Option Item} {merged : Item}
    (h : mergeItem item value = .ok merged) : mergeItem (some merged) value = .ok merged := by
  induction value using Json.induction generalizing item merged with
  | object members ih =>
    obtain ⟨hnodup, hmembers⟩ := hwell
    rw [Json.membersWellFormed_iff] at hmembers
    unfold mergeItem at h
    split at h
    · -- the object meets a standard table
      split at h
      · cases h
      · next entries hmerge =>
        obtain rfl := Except.ok.inj h
        simp only [mergeItem,
          mergeObject_again hnodup (fun m hm _ _ hm' => ih m hm (hmembers m hm) hm') hmerge]
    · -- it replaces what is there
      split at h
      · cases h
      · next inline hinline =>
        obtain rfl := Except.ok.inj h
        simp only [mergeItem, hinline]
  | _ =>
    unfold mergeItem at h ⊢
    split at h
    · cases h
    · next v hv =>
      obtain rfl := Except.ok.inj h
      rfl

theorem merge_again {json : Json} (hwell : json.WellFormed) {table table' : EditTable}
    (h : mergeObject table (patchOf json) = .ok table') :
    mergeObject table' (patchOf json) = .ok table' :=
  have hpatch := wellFormed_patchOf hwell
  mergeObject_again hpatch.1 (fun m hm _ _ => mergeItem_again (hpatch.2 m hm)) h

/-! ## The command on a patched document -/

/-- A `set-config` of a device leaves the device its name. -/
def KeepsName (json : Json) : Prop :=
  ∀ target name value, (json.get "target").bind Json.asStr = some target →
    stripPrefix "device:" target = some name → JsonMap.get (patchOf json) "name" = some value →
    value = .string name

theorem deviceName_of_item {device : EditTable} {name : String}
    (h : device.get "name" = some (.value (.string name))) : deviceName device = some name := by
  rw [deviceName, h]
  rfl

theorem findDevice_set {devices : List EditTable} {name : String} {i : Nat} {device : EditTable}
    (h : findDevice devices name = some i) (hname : deviceName device = some name) :
    findDevice (devices.set i device) name = some i := by
  obtain ⟨hlt, hfound, hbefore⟩ := List.findIdx?_eq_some_iff_getElem.mp h
  refine List.findIdx?_eq_some_iff_getElem.mpr ⟨by simpa using hlt, by simp [hname], fun j hj => ?_⟩
  rw [List.getElem_set_ne (by omega)]
  exact hbefore j hj

/-- A set-config that is delivered again changes nothing. -/
theorem applySetConfig_again {json : Json} (hwell : json.WellFormed) (hname : KeepsName json)
    {doc doc' : Document} (h : applySetConfig json doc = .ok doc') :
    applySetConfig json doc' = .ok doc' := by
  unfold applySetConfig at h ⊢
  split at h
  · cases h
  next target htarget =>
  split at h
  · cases h
  next patch hpatch =>
  split at h
  · cases h
  next hguard =>
  -- the same section is found again, and its entries are those just merged
  obtain rfl : patchOf json = patch := by rw [patchOf, hpatch, Option.getD_some]
  split at h
  · next name hdevice =>
    split at h
    · cases h
    next devices hdevices =>
    split at h
    · cases h
    next i hi =>
    split at h
    · cases h
    next device hmerge =>
    obtain rfl := Except.ok.inj h
    have hlt : i < devices.length := (List.findIdx?_eq_some_iff_getElem.mp hi).1
    have hdeviceName : deviceName device = some name := by
      have hget := get_mergeObject (wellFormed_patchOf hwell).1 hmerge "name"
      split at hget
      · obtain ⟨_, hfound, -⟩ := List.findIdx?_eq_some_iff_getElem.mp hi
        rw [deviceName, hget, ← deviceName]
        simpa [List.getD_eq_getElem?_getD, hlt] using hfound
      · next value hvalue =>
        obtain ⟨item, hitem, hget⟩ := hget
        obtain rfl := hname target name value htarget hdevice hvalue
        obtain rfl := Except.ok.inj hitem
        exact deviceName_of_item hget
    have hgetD : (devices.set i device).getD i [] = device := by simp [hlt]
    simp only [EditTable.get_insert, if_true, Option.bind_some, Item.asArrayOfTables,
      findDevice_set hi hdeviceName, hgetD, merge_again hwell hmerge, List.set_set]
    exact congrArg _ (insert_of_get (by rw [EditTable.get_insert, if_pos rfl]))
  · split at h
    · next hsection =>
      split at h
      · next entries hentries =>
        split at h
        · cases h
        next entries' hmerge =>
        obtain rfl := Except.ok.inj h
        simp only [hsection, if_true, EditTable.get_insert, Option.getD_some,
          merge_again hwell hmerge]
        exact congrArg _ (insert_of_get (by rw [EditTable.get_insert, if_pos rfl]))
      · cases h
    · cases h

theorem objectToTable_ok {members : JsonMap} {table : EditTable}
    (h : objectToTable members = .ok table) :
    List.Forall₂ (fun m e => m.1 = e.1 ∧ itemOf m.2 = .ok e.2) members table := by
  induction members generalizing table with
  | nil =>
    obtain rfl := Except.ok.inj h
    exact .nil
  | cons m rest ih =>
    obtain ⟨key, value⟩ := m
    rw [objectToTable] at h
    split at h
    · cases h
    · rename_i item hitem
      split at h
      · cases h
      · rename_i table' htable
        obtain rfl := Except.ok.inj h
        exact .cons ⟨rfl, hitem⟩ (ih htable)

/-- The table made of an object has its members. -/
theorem get_objectToTable {members : JsonMap} {table : EditTable}
    (h : objectToTable members = .ok table) (key : String) :
    match JsonMap.get members key with
    | none => Members.get table key = none
    | some value => ∃ item, itemOf value = .ok item ∧ Members.get table key = some item := by
  have hall := objectToTable_ok h
  clear h
  induction hall with
  | nil => rfl
  | cons hhead _ ih =>
    rw [JsonMap.get_cons, Members.get_cons, hhead.1]
    split
    · rename_i heq
      split at heq
      · cases heq
      · rename_i hne
        rw [heq] at ih
        rw [if_neg hne]
        exact ih
    · rename_i value heq
      split at heq
      · rename_i hkey
        rw [if_pos hkey]
        obtain rfl := Option.some.inj heq
        exact ⟨_, hhead.2, rfl⟩
      · rename_i hne
        rw [heq] at ih
        rw [if_neg hne]
        exact ih

/-- Nor does a define-device. -/
theorem applyDefineDevice_again {json : Json} {doc doc' : Document}
    (h : applyDefineDevice json doc = .ok doc') : applyDefineDevice json doc' = .ok doc' := by
  unfold applyDefineDevice at h ⊢
  split at h
  · cases h
  next device hdevice =>
  split at h
  · cases h
  next name hname =>
  split at h
  · cases h
  next table htable =>
  -- the device is found under the name it was stored with
  have htableName : deviceName table = some name := by
    have hget := get_objectToTable htable "name"
    cases hvalue : JsonMap.get device "name" with
    | none => simp [hvalue] at hname
    | some value =>
      rw [hvalue] at hget hname
      obtain ⟨item, hitem, hget⟩ := hget
      cases value <;> cases hname
      obtain rfl := Except.ok.inj hitem
      exact deviceName_of_item hget
  split at h
  · next devices hdevices =>
    split at h
    · next i hi =>
      obtain rfl := Except.ok.inj h
      simp only [EditTable.get_insert, if_true, Option.getD_some, findDevice_set hi htableName,
        List.set_set]
      exact congrArg _ (insert_of_get (by rw [EditTable.get_insert, if_pos rfl]))
    · next hi =>
      obtain rfl := Except.ok.inj h
      have hlast : findDevice (devices ++ [table]) name = some devices.length := by
        rw [findDevice] at hi ⊢
        simp [List.findIdx?_append, hi, htableName]
      simp only [EditTable.get_insert, if_true, Option.getD_some, hlast]
      rw [List.set_append_right _ _ (Nat.le_refl _), Nat.sub_self]
      exact congrArg _ (insert_of_get (by rw [EditTable.get_insert, if_pos rfl]; rfl))
  · cases h

theorem applyManagement_again {verb : String} {json : Json} (hverb : verb ≠ "remove-device")
    (hwell : json.WellFormed) (hname : KeepsName json) {doc doc' : Document}
    (h : applyManagement verb json doc = .ok doc') : applyManagement verb json doc' = .ok doc' := by
  unfold applyManagement at h ⊢
  split at h
  · exact applySetConfig_again hwell hname h
  · exact applyDefineDevice_again h
  · exact absurd rfl hverb
  · cases h

/-! ## Runs -/

variable {M : Type}

/-- A command, handled once for each of these. -/
def deliveries (verb : String) (json : Json) (arounds : List Surroundings) : List Event :=
  arounds.map fun around => .command around verb json

/-- **A command that left the document** leaves it again, and the file with it, as often as it is
delivered and whatever comes of it. -/
theorem redelivered (h : Host M) {s : State M} {verb : String} {json : Json} {doc : Document}
    (hverb : verb ≠ "remove-device") (hwell : json.WellFormed) (hname : KeepsName json)
    (happlied : applyManagement verb json doc = .ok s.doc) (hfile : s.file = .ok s.doc)
    (arounds : List Surroundings) :
    seen (Machine.final (step h) s (deliveries verb json arounds)) = seen s := by
  have hagain := applyManagement_again hverb hwell hname happlied
  rw [deliveries, Machine.final_map]
  refine Machine.final_induction (P := fun s' => seen s' = seen s) (fun s' around hs' => ?_) arounds rfl
  by_cases hadopts : adopts h s' (.command around verb json) = true
  · rw [seen_of_adopts hadopts, hs', observe, seen, hagain, hfile]
    exact congrArg (Prod.mk _) (ite_self _)
  · rw [← hs']
    exact seen_of_not_adopts (Bool.eq_false_iff.mpr hadopts)

/-- The state that a `set-config` left. -/
def siteState : State (Option ConnectorConfig) :=
  { idleState with doc := sitePatched, file := .ok sitePatched }

/-- A section that is patched twice. -/
theorem redelivered_site :
    seen (Machine.final (step fussy) siteState (deliveries "set-config" groupPatch
      [{ resolve := fun _ => .error "no such library" },
        { resolve := fun _ => .ok { protocol := "modbus" } }])) =
      seen siteState := by
  have hjson : groupPatch.WellFormed := by
    simp [groupPatch, Json.WellFormed, Json.MembersWellFormed]
  have hname : KeepsName groupPatch := by
    rintro target name value ⟨⟩ hdevice
    cases hdevice
  have happlied : applyManagement "set-config" groupPatch plantDocument = .ok siteState.doc := rfl
  exact redelivered fussy (by decide) hjson hname happlied rfl _

end TedgeDot.Management
