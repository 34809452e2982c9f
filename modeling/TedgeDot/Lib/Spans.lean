import Mathlib.Data.List.DropRight

/-!
# Spans of a list

How `takeWhile` and `dropWhile` go with a list that is written as a span of elements that pass a
test and a rest that does not begin with one (`takeWhile_span`, `dropWhile_span`), and what trimming
at both ends keeps (`trimBoth_rdropWhile`, `span_rdropWhile`).
-/

namespace TedgeDot

universe u

variable {α : Type u} {p q : α → Bool}

/-- The list does not begin with an element that passes. -/
def Stops (p : α → Bool) (rest : List α) : Prop := ∀ c, rest.head? = some c → p c = false

@[simp] theorem stops_nil : Stops p [] := by
  intro c h
  cases h

@[simp] theorem stops_cons {c : α} {rest : List α} : Stops p (c :: rest) ↔ p c = false := by
  constructor
  · intro h
    exact h c rfl
  · intro h d hd
    obtain rfl := Option.some.inj hd
    exact h

theorem stops_dropWhile (p : α → Bool) (l : List α) : Stops p (l.dropWhile p) := by
  intro c hc
  cases hrest : l.dropWhile p with
  | nil =>
    rw [hrest] at hc
    cases hc
  | cons d rest =>
    have hne : l.dropWhile p ≠ [] := by simp [hrest]
    have hfail := List.head_dropWhile_not p hne
    simp only [hrest, List.head_cons] at hfail
    rw [hrest] at hc
    obtain rfl := Option.some.inj hc
    exact hfail

theorem Stops.of_prefix {l rest : List α} (h : Stops p rest) (hfront : l <+: rest) :
    Stops p l := by
  obtain ⟨cut, rfl⟩ := hfront
  intro c hc
  apply h c
  rw [List.head?_append, hc]
  rfl

theorem takeWhile_of_stops {rest : List α} (h : Stops p rest) : rest.takeWhile p = [] := by
  cases rest with
  | nil => rfl
  | cons c rest => simp [stops_cons.mp h]

theorem dropWhile_of_stops {rest : List α} (h : Stops p rest) : rest.dropWhile p = rest := by
  cases rest with
  | nil => rfl
  | cons c rest => simp [stops_cons.mp h]

theorem takeWhile_span {w rest : List α} (hw : ∀ c ∈ w, p c = true) (hr : Stops p rest) :
    (w ++ rest).takeWhile p = w := by
  rw [List.takeWhile_append_of_pos hw, takeWhile_of_stops hr, List.append_nil]

theorem dropWhile_span {w rest : List α} (hw : ∀ c ∈ w, p c = true) (hr : Stops p rest) :
    (w ++ rest).dropWhile p = rest := by
  rw [List.dropWhile_append_of_pos hw, dropWhile_of_stops hr]

theorem exists_span (p : α → Bool) (l : List α) :
    ∃ w rest, l = w ++ rest ∧ (∀ c ∈ w, p c = true) ∧ Stops p rest :=
  ⟨l.takeWhile p, l.dropWhile p, List.takeWhile_append_dropWhile.symm,
    fun _ hc => List.mem_takeWhile_imp hc, stops_dropWhile p l⟩

/-! ## Trimming -/

/-- The list without what passes at its ends. -/
def trimBoth (q : α → Bool) (l : List α) : List α := (l.dropWhile q).rdropWhile q

theorem rdropWhile_append_cons {w rest : List α} {c : α} (h : q c = false) :
    (w ++ c :: rest).rdropWhile q = w ++ c :: rest.rdropWhile q := by
  unfold List.rdropWhile
  rw [List.reverse_append, List.reverse_cons, List.append_assoc, List.dropWhile_append]
  split
  · rename_i hempty
    have hnil : rest.reverse.dropWhile q = [] := by simpa using hempty
    rw [hnil, List.singleton_append, List.dropWhile_cons, h]
    simp
  · simp

theorem rdropWhile_cons {rest : List α} {c : α} (h : q c = false) :
    (c :: rest).rdropWhile q = c :: rest.rdropWhile q :=
  @rdropWhile_append_cons α q [] rest c h

theorem rdropWhile_append {w rest : List α} (h : ∀ c ∈ w, q c = false) :
    (w ++ rest).rdropWhile q = w ++ rest.rdropWhile q := by
  induction w with
  | nil => rfl
  | cons c w ih =>
    rw [List.cons_append, rdropWhile_cons (h c (by simp)), ih fun d hd => h d (by simp [hd]),
      List.cons_append]

theorem trimBoth_rdropWhile (l : List α) : trimBoth q (l.rdropWhile q) = trimBoth q l := by
  obtain ⟨w, rest, rfl, hw, hr⟩ := exists_span q l
  unfold trimBoth
  cases rest with
  | nil =>
    rw [List.append_nil, List.rdropWhile_eq_nil_iff.mpr hw, List.dropWhile_eq_nil_iff.mpr hw]
    rfl
  | cons c rest =>
    have hc := stops_cons.mp hr
    rw [rdropWhile_append_cons hc, dropWhile_span hw hr, dropWhile_span hw (stops_cons.mpr hc),
      rdropWhile_cons hc, rdropWhile_cons hc, List.rdropWhile_idempotent]

theorem span_rdropWhile (hpq : ∀ c, p c = true → q c = false) (l : List α) :
    (l.rdropWhile q).takeWhile p = l.takeWhile p ∧
      (l.rdropWhile q).dropWhile p = (l.dropWhile p).rdropWhile q := by
  obtain ⟨w, rest, rfl, hw, hr⟩ := exists_span p l
  have hstay : ∀ c ∈ w, q c = false := fun c hc => hpq c (hw c hc)
  have hstops : Stops p (rest.rdropWhile q) := hr.of_prefix (List.rdropWhile_prefix q rest)
  rw [rdropWhile_append hstay, takeWhile_span hw hstops, takeWhile_span hw hr,
    dropWhile_span hw hstops, dropWhile_span hw hr]
  exact ⟨rfl, rfl⟩

end TedgeDot
