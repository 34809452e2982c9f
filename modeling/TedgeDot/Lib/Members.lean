import Mathlib.Data.List.Perm.Basic
import Mathlib.Data.List.Nodup

/-!
# Members of an object

A list of keys with a value each, looked up from the front. `set` writes a value in the place of its
key, or last. Where the keys are distinct, what a key gives does not depend on the order of the
members (`get_perm`).
-/

namespace TedgeDot.Members

universe u v w

variable {κ : Type u} {α : Type v} {β : Type w}

def keys (members : List (κ × α)) : List κ := members.map Prod.fst

@[simp] theorem keys_nil : keys ([] : List (κ × α)) = [] := rfl

@[simp] theorem keys_cons (m : κ × α) (rest : List (κ × α)) :
    keys (m :: rest) = m.1 :: keys rest := rfl

@[simp] theorem keys_append (members others : List (κ × α)) :
    keys (members ++ others) = keys members ++ keys others := List.map_append

variable {members : List (κ × α)}

theorem mem_keys_of_mem {m : κ × α} (h : m ∈ members) :
    m.1 ∈ keys members := List.mem_map_of_mem h

variable [DecidableEq κ]

/-- The value of the first member with the key. -/
def get (members : List (κ × α)) (key : κ) : Option α :=
  (members.find? fun m => m.1 == key).map Prod.snd

/-- The value in the place of the key, or last. -/
def set (members : List (κ × α)) (key : κ) (value : α) : List (κ × α) :=
  match members with
  | [] => [(key, value)]
  | m :: rest => if m.1 = key then (key, value) :: rest else m :: set rest key value

@[simp] theorem get_nil (key : κ) : get ([] : List (κ × α)) key = none := rfl

theorem get_cons (m : κ × α) (rest : List (κ × α)) (key : κ) :
    get (m :: rest) key = if m.1 = key then some m.2 else get rest key := by
  unfold get
  by_cases h : m.1 = key
  · rw [List.find?_cons_of_pos (by simp [h]), if_pos h]
    rfl
  · rw [List.find?_cons_of_neg (by simp [h]), if_neg h]

theorem get_append (members others : List (κ × α)) (key : κ) :
    get (members ++ others) key = (get members key).or (get others key) := by
  induction members with
  | nil => simp
  | cons m rest ih =>
    rw [List.cons_append, get_cons, get_cons, ih]
    split <;> simp

theorem mem_of_get {key : κ} {value : α} (h : get members key = some value) :
    (key, value) ∈ members := by
  obtain ⟨m, hfind, rfl⟩ := Option.map_eq_some_iff.mp h
  obtain rfl : m.1 = key := by simpa using List.find?_some hfind
  exact List.mem_of_find?_eq_some hfind

theorem get_eq_none_iff (members : List (κ × α)) (key : κ) :
    get members key = none ↔ key ∉ keys members := by
  induction members with
  | nil => simp
  | cons m rest ih =>
    rw [get_cons, keys_cons, List.mem_cons]
    by_cases h : m.1 = key
    · simp [h]
    · simp [h, ih, Ne.symm h]

theorem isSome_get_iff (members : List (κ × α)) (key : κ) :
    (get members key).isSome = true ↔ key ∈ keys members := by
  rw [← not_iff_not, ← get_eq_none_iff]
  simp

theorem get_of_mem (h : (keys members).Nodup) {m : κ × α} (hm : m ∈ members) :
    get members m.1 = some m.2 := by
  induction members with
  | nil => cases hm
  | cons m' rest ih =>
    rw [keys_cons, List.nodup_cons] at h
    rw [get_cons]
    rcases List.mem_cons.mp hm with rfl | hm
    · rw [if_pos rfl]
    · have hne : m'.1 ≠ m.1 := fun heq => h.1 (by rw [heq]; exact mem_keys_of_mem hm)
      rw [if_neg hne]
      exact ih h.2 hm

theorem get_eq_some_iff (h : (keys members).Nodup) (key : κ) (value : α) :
    get members key = some value ↔ (key, value) ∈ members :=
  ⟨mem_of_get, fun hm => get_of_mem h hm⟩

theorem get_perm {members others : List (κ × α)} (hperm : members.Perm others)
    (h : (keys members).Nodup) (key : κ) : get members key = get others key := by
  have hothers : (keys others).Nodup := (hperm.map Prod.fst).nodup_iff.mp h
  ext value
  rw [get_eq_some_iff h, get_eq_some_iff hothers, hperm.mem_iff]

theorem get_set (members : List (κ × α)) (key key' : κ) (value : α) :
    get (set members key value) key' = if key = key' then some value else get members key' := by
  induction members with
  | nil => simp [set, get_cons]
  | cons m rest ih =>
    unfold set
    by_cases hm : m.1 = key
    · subst hm
      rw [if_pos rfl, get_cons, get_cons]
      split <;> rfl
    · rw [if_neg hm, get_cons, get_cons, ih]
      -- the first member keeps its key
      split
      · rename_i hkey
        rw [if_neg fun heq => hm (hkey.trans heq.symm)]
      · rfl

theorem mem_keys_set (members : List (κ × α)) (key key' : κ) (value : α) :
    key' ∈ keys (set members key value) ↔ key' = key ∨ key' ∈ keys members := by
  rw [← isSome_get_iff, ← isSome_get_iff, get_set]
  by_cases h : key = key'
  · simp [h]
  · simp [h, Ne.symm h]

theorem nodup_keys_set (h : (keys members).Nodup) (key : κ) (value : α) :
    (keys (set members key value)).Nodup := by
  induction members with
  | nil => simp [set]
  | cons m rest ih =>
    rw [keys_cons, List.nodup_cons] at h
    unfold set
    by_cases hm : m.1 = key
    · rw [if_pos hm, keys_cons, List.nodup_cons]
      exact hm ▸ h
    · rw [if_neg hm, keys_cons, List.nodup_cons, mem_keys_set]
      exact ⟨fun hmem => hmem.elim hm h.1, ih h.2⟩

theorem get_remove (members : List (κ × α)) (key key' : κ) :
    get (members.filter fun m => m.1 != key) key' =
      if key = key' then none else get members key' := by
  induction members with
  | nil => simp
  | cons m rest ih =>
    by_cases h : m.1 = key
    · rw [List.filter_cons_of_neg (by simp [h]), ih, get_cons, h]
      split <;> rfl
    · rw [List.filter_cons_of_pos (by simp [h]), get_cons, ih, get_cons]
      split
      · rename_i hkey
        rw [if_neg fun heq => h (hkey.trans heq.symm)]
      · rfl

/-- Filtering distinct keys, at one key. -/
theorem get_filter (members : List (κ × α)) (h : (keys members).Nodup) (p : κ × α → Bool) (key : κ) :
    get (members.filter p) key = (get members key).filter fun value => p (key, value) := by
  induction members with
  | nil => rfl
  | cons m rest ih =>
    rw [keys_cons, List.nodup_cons] at h
    have hrest := ih h.2
    rw [get_cons]
    by_cases hkey : m.1 = key
    · subst hkey
      rw [if_pos rfl]
      by_cases hp : p m = true
      · rw [List.filter_cons_of_pos hp, get_cons, if_pos rfl]
        rw [Option.filter_some, if_pos hp]
      · -- the key stands nowhere else
        rw [List.filter_cons_of_neg hp, hrest, (get_eq_none_iff rest m.1).mpr h.1,
          Option.filter_none, Option.filter_some, if_neg hp]
    · rw [if_neg hkey]
      by_cases hp : p m = true
      · rw [List.filter_cons_of_pos hp, get_cons, if_neg hkey, hrest]
      · rw [List.filter_cons_of_neg hp, hrest]

theorem get_map (f : α → β) (members : List (κ × α)) (key : κ) :
    get (members.map fun m => (m.1, f m.2)) key = (get members key).map f := by
  induction members with
  | nil => rfl
  | cons m rest ih =>
    rw [List.map_cons, get_cons, get_cons, ih]
    split <;> rfl

end TedgeDot.Members
