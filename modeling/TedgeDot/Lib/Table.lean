import Mathlib.Data.List.AList
import Mathlib.Data.List.Perm.Basic

/-!
# Tables of collected items

A table (`AList`) whose values hold items. `items` lists what a whole table holds; the lemmas
say how it changes, up to order, when a key is erased or inserted, and `flatMap_set_perm` how
the items of a list of collections change when one collection is replaced.
-/

namespace TedgeDot.Table

universe u v w

variable {α : Type u} {β : Type v} {γ : Type w}

/-- Everything a table holds, key by key. -/
def items (f : α → β → List γ) (s : AList fun _ : α => β) : List γ :=
  s.entries.flatMap fun e => f e.1 e.2

@[simp] theorem items_empty (f : α → β → List γ) : items f ∅ = [] := rfl

variable [DecidableEq α] {f : α → β → List γ} {s : AList fun _ : α => β} {a : α} {b : β}

theorem items_erase (h : s.lookup a = some b) :
    (items f s).Perm (f a b ++ items f (s.erase a)) := by
  have hmem : a ∈ s.entries.keys := by
    have : a ∈ s := AList.lookup_isSome.mp (by rw [h]; rfl)
    exact this
  obtain ⟨c, l₁, l₂, -, hentries, herase⟩ := List.exists_of_kerase hmem
  have hc : c = b := by
    have hlookup : c ∈ s.lookup a := AList.mem_lookup_iff.mpr (by rw [hentries]; simp)
    rw [h] at hlookup
    exact (Option.some.inj hlookup).symm
  have herase' : (s.erase a).entries = l₁ ++ l₂ := herase
  unfold items
  rw [hentries, herase', hc]
  simp only [List.flatMap_append, List.flatMap_cons, ← List.append_assoc]
  exact List.Perm.append_right _ List.perm_append_comm

theorem erase_of_lookup_none (h : s.lookup a = none) : s.erase a = s :=
  AList.ext (List.kerase_of_notMem_keys (AList.lookup_eq_none.mp h))

theorem items_insert :
    (items f (s.insert a b)).Perm (f a b ++ items f (s.erase a)) := by
  unfold items
  rw [AList.entries_insert]
  exact List.Perm.refl _

/-- Replacing one collection of a list: what the list gains and loses is what the collection
gains and loses. -/
theorem flatMap_set_perm (f : β → List γ) {l : List β} {i : Nat} {b b' : β}
    {x y : List γ} (h : l[i]? = some b) (hf : (f b' ++ x).Perm (f b ++ y)) :
    ((l.set i b').flatMap f ++ x).Perm (l.flatMap f ++ y) := by
  induction l generalizing i with
  | nil => simp at h
  | cons c l ih =>
    cases i with
    | zero =>
      obtain rfl : c = b := by simpa using h
      simp only [List.set_cons_zero, List.flatMap_cons, List.append_assoc]
      calc (f b' ++ (l.flatMap f ++ x)).Perm (f b' ++ (x ++ l.flatMap f)) :=
            List.perm_append_comm.append_left _
        _ = f b' ++ x ++ l.flatMap f := (List.append_assoc ..).symm
        List.Perm _ (f c ++ y ++ l.flatMap f) := hf.append_right _
        _ = f c ++ (y ++ l.flatMap f) := List.append_assoc ..
        List.Perm _ (f c ++ (l.flatMap f ++ y)) := List.perm_append_comm.append_left _
    | succ i =>
      simp only [List.set_cons_succ, List.flatMap_cons, List.append_assoc]
      exact (ih (by simpa using h)).append_left _

omit [DecidableEq α] in
theorem items_eq_nil (h : ∀ a, a ∉ s) : items f s = [] := by
  have hentries : s.entries = [] := by
    refine List.eq_nil_iff_forall_not_mem.mpr fun e he => h e.1 ?_
    exact List.mem_map_of_mem he
  rw [items, hentries, List.flatMap_nil]

section Kinds

variable {κ : Type*} {α' : Type*} [DecidableEq κ]

theorem perm_of_filter (kind : γ → κ) {l l' : List γ}
    (h : ∀ c, (l.filter fun x => kind x = c).Perm (l'.filter fun x => kind x = c)) : l.Perm l' := by
  classical
  rw [List.perm_iff_count]
  intro x
  have hcount := (h (kind x)).count_eq x
  rwa [List.count_filter (by simp), List.count_filter (by simp)] at hcount

omit [DecidableEq α] in
private theorem filter_tagged (kind : α → κ) (f : α → List γ) (l : List α) (c : κ) :
    (l.flatMap fun a => (f a).map (Prod.mk (kind a))).filter (fun x => x.1 = c) =
      ((l.filter fun a => kind a = c).flatMap f).map (Prod.mk c) := by
  induction l with
  | nil => rfl
  | cons a l ih =>
    rw [List.flatMap_cons, List.filter_append, ih, List.filter_map]
    by_cases ha : kind a = c
    · simp [ha, Function.comp_def]
    · simp [ha, Function.comp_def]

omit [DecidableEq α] in
theorem flatMap_perm_of_filter (kind : α → κ) (kind' : α' → κ) {f : α → List γ} {f' : α' → List γ}
    {l : List α} {l' : List α'}
    (h : ∀ c, ((l.filter fun a => kind a = c).flatMap f).Perm
      ((l'.filter fun a => kind' a = c).flatMap f')) : (l.flatMap f).Perm (l'.flatMap f') := by
  have htagged : (l.flatMap fun a => (f a).map (Prod.mk (kind a))).Perm
      (l'.flatMap fun a => (f' a).map (Prod.mk (kind' a))) := by
    refine perm_of_filter Prod.fst fun c => ?_
    rw [filter_tagged, filter_tagged]
    exact (h c).map _
  simpa [List.map_flatMap, List.map_map, Function.comp_def] using htagged.map Prod.snd

end Kinds

end TedgeDot.Table
