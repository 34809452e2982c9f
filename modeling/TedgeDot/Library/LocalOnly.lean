import TedgeDot.Library.Guards

/-!
# Local-only settings stay as they are

Where the restricted keys of a configuration stand, at any depth, and what the guard of
`reject_local_only_settings` says of them. Its walk goes through tables and stops at anything
else, so a restricted key below an array is out of its sight.
-/

namespace TedgeDot

namespace Toml

inductive Step where
  | key (k : String)
  | index (i : Nat)
deriving DecidableEq

/-- What stands one step below a value. -/
def step (v : Toml) : Step → Option Toml
  | .key k => v.get k
  | .index i => v.asArray.bind fun items => items[i]?

def valueAt (v : Option Toml) (path : List Step) : Option Toml :=
  path.foldl (fun v s => v.bind fun v => v.step s) v

theorem valueAt_append (v : Option Toml) (path path' : List Step) :
    valueAt v (path ++ path') = valueAt (valueAt v path) path' := List.foldl_append ..

@[simp] theorem valueAt_none (path : List Step) : valueAt none path = none := by
  induction path with
  | nil => rfl
  | cons s path ih => exact ih

/-! ## Equal values are equal at every path -/

/-- Equal tables have equal values at each key. -/
theorem same_get {as bs : TomlTable} (h : beqEntries as bs = true) (k : String) :
    same (as.get k) (bs.get k) = true := by
  induction as generalizing bs with
  | nil =>
    cases bs with
    | nil => rfl
    | cons b bs => simp [beqEntries] at h
  | cons a as ih =>
    obtain ⟨k', a⟩ := a
    cases bs with
    | nil => simp [beqEntries] at h
    | cons b bs =>
      obtain ⟨k'', b⟩ := b
      simp only [beqEntries, Bool.and_eq_true, beq_iff_eq] at h
      obtain ⟨⟨rfl, hab⟩, hrest⟩ := h
      rw [TomlTable.get_cons, TomlTable.get_cons]
      split
      · exact hab
      · exact ih hrest

theorem same_getElem {as bs : List Toml} (h : beqItems as bs = true) (i : Nat) :
    same as[i]? bs[i]? = true := by
  induction as generalizing bs i with
  | nil =>
    cases bs with
    | nil => simp [same]
    | cons b bs => simp [beqItems] at h
  | cons a as ih =>
    cases bs with
    | nil => simp [beqItems] at h
    | cons b bs =>
      simp only [beqItems, Bool.and_eq_true] at h
      cases i with
      | zero => exact h.1
      | succ i => exact ih h.2 i

/-- Equal values lead to equal values at each step. -/
theorem same_step {a b : Toml} (h : a.beq b = true) (s : Step) :
    same (a.step s) (b.step s) = true := by
  cases a with
  | table entries =>
    cases b with
    | table entries' =>
      cases s with
      | key k => exact same_get h k
      | index i => rfl
    | _ => simp [beq] at h
  | array items =>
    cases b with
    | array items' =>
      cases s with
      | key k => rfl
      | index i => exact same_getElem h i
    | _ => simp [beq] at h
  | _ =>
    -- nothing is below either value
    cases b with
    | table entries => simp [beq] at h
    | array items => simp [beq] at h
    | _ => cases s <;> rfl

theorem same_valueAt {a b : Option Toml} (h : same a b = true) (path : List Step) :
    same (valueAt a path) (valueAt b path) = true := by
  induction path generalizing a b with
  | nil => exact h
  | cons s path ih =>
    apply ih
    cases a with
    | none =>
      cases b with
      | none => rfl
      | some b => cases h
    | some a =>
      cases b with
      | none => cases h
      | some b => exact same_step h s

end Toml

namespace Library

open Toml (Step valueAt same)

/-! ## What the walk collects -/

def keySteps (path : List String) : List Step := path.map Step.key

theorem lookup_eq (v : Option Toml) (path : List String) : lookup v path = valueAt v
    (keySteps path) := by
  unfold lookup valueAt keySteps
  rw [List.foldl_map]
  rfl

theorem mem_collectEntries (keys : List String) (entries : TomlTable) (e : List String × Toml) :
    e ∈ collectEntries keys entries ↔ ∃ m ∈ entries,
      if keys.contains m.1 then e = ([m.1], m.2)
      else ∃ e' ∈ collectKeys keys m.2, e = (m.1 :: e'.1, e'.2) := by
  induction entries with
  | nil => simp [collectEntries]
  | cons m rest ih =>
    obtain ⟨k, v⟩ := m
    rw [collectEntries, List.mem_append, ih, List.exists_mem_cons_iff]
    refine or_congr ?_ Iff.rfl
    split <;> simp [eq_comm]

variable {keys : List String} {path : List String}

/-- A restricted key that is reached through tables only is collected. -/
theorem mem_collectKeys {k : String} (hpath : ∀ key ∈ path, keys.contains key = false)
    (hk : keys.contains k = true) {v w : Toml} (h : lookup (some v) (path ++ [k]) = some w) :
    (path ++ [k], w) ∈ collectKeys keys v := by
  induction path generalizing v with
  | nil =>
    cases v with
    | table entries =>
      rw [collectKeys, mem_collectEntries]
      exact ⟨(k, w), TomlTable.mem_of_get h, by rw [if_pos hk]; rfl⟩
    | _ => cases h
  -- the walk goes on below a key only if it is not restricted itself
  | cons key path ih =>
    rw [List.forall_mem_cons] at hpath
    cases v with
    | table entries =>
      rw [collectKeys, mem_collectEntries]
      cases hget : TomlTable.get entries key with
      | none =>
        have hnone : lookup ((some (Toml.table entries)).bind fun v => v.get key) (path ++ [k]) =
          some w := h
        have hnone' : (some (Toml.table entries)).bind (fun v => v.get key) = none := hget
        rw [hnone', lookup_eq, Toml.valueAt_none] at hnone
        cases hnone
      | some v =>
        have hrest : lookup (some v) (path ++ [k]) = some w := by
          have : (some (Toml.table entries)).bind (fun v => v.get key) = some v := hget
          rw [← this]
          exact h
        refine ⟨(key, v), TomlTable.mem_of_get hget, ?_⟩
        rw [if_neg (by rw [hpath.1]; exact Bool.false_ne_true)]
        exact ⟨_, ih hpath.2 hrest, rfl⟩
    | _ =>
      have hnone : lookup none (path ++ [k]) = some w := h
      rw [lookup_eq, Toml.valueAt_none] at hnone
      cases hnone

theorem lookup_collected {k : String} (hpath : ∀ key ∈ path, keys.contains key = false)
    (hk : keys.contains k = true) {v : Option Toml} {w : Toml} (h : lookup v (path ++ [k]) = some w) :
    (path ++ [k], w) ∈ (v.map (collectKeys keys)).getD [] := by
  cases v with
  | none =>
    rw [lookup_eq, Toml.valueAt_none] at h
    cases h
  | some v => exact mem_collectKeys hpath hk h

theorem same_of_changedKey {before after : Option Toml} (h : changedKey before after keys = none)
    {k : String} (hpath : ∀ key ∈ path, keys.contains key = false) (hk : keys.contains k = true) :
    same (lookup before (path ++ [k])) (lookup after (path ++ [k])) = true := by
  unfold changedKey at h
  rw [Option.map_eq_none_iff, Option.or_eq_none_iff, List.find?_eq_none, List.find?_eq_none] at h
  obtain ⟨hnew, hold⟩ := h
  cases hafter : lookup after (path ++ [k]) with
  | some w => simpa using hnew _ (lookup_collected hpath hk hafter)
  | none =>
    cases hbefore : lookup before (path ++ [k]) with
    | none => rfl
    | some v =>
      -- a key that was there and is gone would be in the old collection
      have := hold _ (lookup_collected hpath hk hbefore)
      rw [hafter] at this
      simp [same] at this

/-! ## The occurrences of restricted keys -/

/-- A path that ends in a restricted key. -/
def Restricted (keys : List String) (path : List Step) : Prop :=
  ∃ front, ∃ k ∈ keys, path = front ++ [.key k]

/-- The path goes through an array before it comes to a restricted key. -/
def BelowArray (keys : List String) (path : List Step) : Prop :=
  ∃ front i rest, path = keySteps front ++ .index i :: rest ∧ ∀ key ∈ front, key ∉ keys

/-- Restricted keys occur with the same values, at the same paths. -/
def Unchanged (keys : List String) (before after : Option Toml) : Prop :=
  ∀ path, Restricted keys path → same (valueAt before path) (valueAt after path) = true

def UnchangedBelowArrays (keys : List String) (before after : Option Toml) : Prop :=
  ∀ path, Restricted keys path → BelowArray keys path →
    same (valueAt before path) (valueAt after path) = true

/-- A restricted place lies below an array, or below a restricted key that is found. -/
theorem restricted_cases {path : List Step} (h : Restricted keys path) :
    BelowArray keys path ∨ ∃ front k rest, path = keySteps front ++ .key k :: rest ∧ k ∈ keys ∧
      ∀ key ∈ front, key ∉ keys := by
  induction path with
  | nil =>
    obtain ⟨front, k, -, heq⟩ := h
    exact absurd heq.symm (by simp)
  | cons s path ih =>
    cases s with
    | index i => exact .inl ⟨[], i, path, rfl, by simp⟩
    | key k =>
      by_cases hk : k ∈ keys
      · exact .inr ⟨[], k, path, rfl, hk, by simp⟩
      · obtain ⟨front, k', hk', heq⟩ := h
        have hrest : Restricted keys path := by
          cases front with
          | nil =>
            -- the one key of the path is restricted
            simp only [List.nil_append, List.cons.injEq, Step.key.injEq] at heq
            exact absurd (heq.1 ▸ hk') hk
          | cons s' front =>
            exact ⟨front, k', hk', (List.cons.inj heq).2⟩
        rcases ih hrest with ⟨front, i, rest, rfl, hfront⟩ | ⟨front, k'', rest, rfl, hk'', hfront⟩
        · exact .inl ⟨k :: front, i, rest, rfl, List.forall_mem_cons.mpr ⟨hk, hfront⟩⟩
        · exact .inr ⟨k :: front, k'', rest, rfl, hk'', List.forall_mem_cons.mpr ⟨hk, hfront⟩⟩

theorem unchanged_iff {before after : Option Toml} (h : changedKey before after keys = none) :
    Unchanged keys before after ↔ UnchangedBelowArrays keys before after := by
  constructor
  · intro hall path hpath _
    exact hall path hpath
  · intro harrays path hpath
    rcases restricted_cases hpath with hbelow | ⟨front, k, rest, rfl, hk, hfront⟩
    · exact harrays path hpath hbelow
    · have hfront' : ∀ key ∈ front, keys.contains key = false := fun key hkey => by
        simpa using hfront key hkey
      have hsame := same_of_changedKey h hfront' (k := k) (by simpa using hk)
      rw [lookup_eq, lookup_eq] at hsame
      have hsplit : keySteps front ++ .key k :: rest = keySteps (front ++ [k]) ++ rest := by
        simp [keySteps]
      rw [hsplit, Toml.valueAt_append, Toml.valueAt_append]
      exact Toml.same_valueAt hsame rest

end Library

end TedgeDot
