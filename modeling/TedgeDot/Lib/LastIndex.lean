import Mathlib.Data.List.Basic
import Mathlib.Logic.Function.Basic

/-!
# Indices of last positions

A map built by going through a list and inserting each element's key with its position keeps, for
each key, the last position (`LastIndex`).
-/

namespace TedgeDot

universe u v

variable {α : Type u} {κ : Type v}

/-- `index` gives, for each key, the last position of the list with that key. -/
structure LastIndex (key : α → κ) (l : List α) (index : κ → Option Nat) : Prop where
  get : ∀ c i, index c = some i → ∃ x, l[i]? = some x ∧ key x = c
  last : ∀ c i, index c = some i → ∀ j x, i < j → l[j]? = some x → key x ≠ c
  all : ∀ c, index c = none → ∀ x ∈ l, key x ≠ c

namespace LastIndex

variable {key : α → κ} {l : List α} {index : κ → Option Nat}

theorem nil (key : α → κ) : LastIndex key [] fun _ => none :=
  ⟨by simp, by simp, by simp⟩

/-- One more element becomes the last of its key. -/
theorem snoc [DecidableEq κ] (h : LastIndex key l index) (x : α) :
    LastIndex key (l ++ [x]) (Function.update index (key x) (some l.length)) := by
  -- every index so far is of an earlier element
  have hlt : ∀ c i, index c = some i → i < l.length := by
    intro c i hi
    obtain ⟨y, hy, -⟩ := h.get c i hi
    exact (List.getElem?_eq_some_iff.mp hy).1
  constructor
  · intro c i hi
    by_cases hc : c = key x
    · subst hc
      rw [Function.update_self, Option.some.injEq] at hi
      exact ⟨x, by simp [← hi], rfl⟩
    · rw [Function.update_of_ne hc] at hi
      obtain ⟨y, hy, hkey⟩ := h.get c i hi
      exact ⟨y, by rw [List.getElem?_append_left (hlt c i hi), hy], hkey⟩
  · intro c i hi j y hij hy
    have hj : j < l.length + 1 := by simpa using (List.getElem?_eq_some_iff.mp hy).1
    by_cases hc : c = key x
    · subst hc
      rw [Function.update_self, Option.some.injEq] at hi
      omega
    · rw [Function.update_of_ne hc] at hi
      rcases Nat.lt_or_ge j l.length with hj' | hj'
      · rw [List.getElem?_append_left hj'] at hy
        exact h.last c i hi j y hij hy
      · obtain rfl : j = l.length := by omega
        obtain rfl : x = y := by simpa using hy
        exact fun heq => hc heq.symm
  · intro c hc y hy
    by_cases hcx : c = key x
    · subst hcx
      simp at hc
    · rw [Function.update_of_ne hcx] at hc
      rcases List.mem_append.mp hy with hy | hy
      · exact h.all c hc y hy
      · rw [List.mem_singleton.mp hy]
        exact fun heq => hcx heq.symm

/-- Looking an index up finds the last element of the key. -/
theorem find [DecidableEq κ] (h : LastIndex key l index) (c : κ) :
    (index c).bind (fun i => l[i]?) = l.reverse.find? fun x => key x = c := by
  cases hi : index c with
  | none =>
    symm
    simpa using h.all c hi
  | some i =>
    obtain ⟨x, hx, hkey⟩ := h.get c i hi
    obtain ⟨hlt, hget⟩ := List.getElem?_eq_some_iff.mp hx
    rw [Option.bind_some, hx]
    symm
    have hsplit : l = l.take i ++ x :: l.drop (i + 1) := by
      rw [← hget, ← List.drop_eq_getElem_cons hlt, List.take_append_drop]
    have hafter : (l.drop (i + 1)).reverse.find? (fun y => key y = c) = none := by
      simp only [List.find?_eq_none, List.mem_reverse, decide_eq_true_eq]
      intro y hy
      obtain ⟨j, hj⟩ := List.getElem?_of_mem hy
      rw [List.getElem?_drop] at hj
      exact h.last c i hi _ y (by omega) hj
    rw [hsplit, List.reverse_append, List.reverse_cons, List.append_assoc, List.find?_append,
      hafter]
    simp [hkey]

end LastIndex

end TedgeDot
