import Mathlib.Data.List.Infix

/-!
# Frames in a stream

A scanner looks for frames at the head of a buffer, to which a stream adds bytes as they are
received. This file says what a scan of a stream finds, for any relation `Valid` between the
symbols of a frame and what the frame says, and compares a scanner with it that decides on the
head of its buffer alone:

- `Scans`: the reference. The valid frame at a position is found and passed over; where no
  symbols that follow make a valid frame, one symbol is.
- `Lawful.scans`: a scanner that obeys `Lawful` never leaves the reference's way.
- `Lawful.drain_advances`: its calls come to an end.
- `Lawful.pending_iff`: it goes as far as the reference exactly where the reference comes to no
  place at which the scanner waits for a frame that nothing completes.
- `Lawful.advances_unique`: what it finds is a matter of the stream alone.
-/

namespace TedgeDot.Framing

variable {α β : Type*}

/-- What a scanner says about the head of its buffer. -/
inductive Verdict (β : Type*) where
  /-- The head may yet become a frame. -/
  | more
  /-- No frame starts here. -/
  | skip
  /-- A frame of so many symbols. -/
  | found (frame : β) (used : Nat)
deriving DecidableEq

/-! ## Reference -/

section Reference

variable (Valid : List α → β → Prop)

def Starts (buf : List α) : Prop := ∃ symbols frame, Valid symbols frame ∧ symbols <+: buf

/-- Some continuation completes a valid frame at the head. -/
def Completable (buf : List α) : Prop := ∃ more, Starts Valid (buf ++ more)

/-- The reference passes over a stream as far as the third argument and finds the frames. -/
inductive Scans : List α → List β → List α → Prop where
  | here (buf : List α) : Scans buf [] buf
  | frame {symbols : List α} {f : β} {rest : List α} {frames : List β} {left : List α} :
      Valid symbols f → Scans rest frames left → Scans (symbols ++ rest) (f :: frames) left
  | skip {x : α} {rest : List α} {frames : List β} {left : List α} :
      ¬ Completable Valid (x :: rest) → Scans rest frames left → Scans (x :: rest) frames left

/-- The end of the reference's way: the head is not a frame and may become one. -/
def Pending (buf : List α) : Prop := Completable Valid buf ∧ ¬ Starts Valid buf

end Reference

section

variable {Valid : List α → β → Prop}

theorem Starts.completable {buf : List α} (h : Starts Valid buf) : Completable Valid buf :=
  ⟨[], by simpa using h⟩

theorem starts_frame {symbols : List α} {f : β} (h : Valid symbols f) (rest : List α) :
    Starts Valid (symbols ++ rest) :=
  ⟨symbols, f, h, List.prefix_append symbols rest⟩

theorem Scans.valid {a b : List α} {fs : List β} (h : Scans Valid a fs b) {f : β} (hf : f ∈ fs) :
    ∃ symbols, Valid symbols f := by
  induction h with
  | here => exact absurd hf List.not_mem_nil
  | @frame symbols g _ _ _ hvalid _ ih =>
    rcases List.mem_cons.mp hf with rfl | hf
    · exact ⟨symbols, hvalid⟩
    · exact ih hf
  | skip _ _ ih => exact ih hf

theorem Pending.eq_left {a b : List α} {fs : List β} (ha : Pending Valid a)
    (h : Scans Valid a fs b) : b = a ∧ fs = [] := by
  cases h with
  | here => exact ⟨rfl, rfl⟩
  | frame hvalid _ => exact absurd (starts_frame hvalid _) ha.2
  | skip hskip _ => exact absurd ha.1 hskip

end

/-! ## Scanner -/

section Scanner

variable (head : List α → Option (Verdict β))

/-- One call: symbols at which no frame starts are passed over, up to the first frame. `none` is a
look past the end of the buffer. -/
def next : List α → Option (Option β × List α)
  | [] => some (none, [])
  | x :: rest =>
    match head (x :: rest) with
    | none => none
    | some .more => some (none, x :: rest)
    | some .skip => next rest
    | some (.found f used) => some (some f, (x :: rest).drop used)

/-- Calls until one finds no frame. `none` also stands for fuel that is too little. -/
def drain : Nat → List α → Option (List β × List α)
  | 0, _ => none
  | fuel + 1, buf =>
    match next head buf with
    | none => none
    | some (none, left) => some ([], left)
    | some (some f, rest) => (drain fuel rest).map fun r => (f :: r.1, r.2)

/-- The scanner's own way over a stream. -/
inductive Advances : List α → List β → List α → Prop where
  | here (buf : List α) : Advances buf [] buf
  | found {symbols : List α} {f : β} {rest : List α} {frames : List β} {left : List α} :
      head (symbols ++ rest) = some (.found f symbols.length) → Advances rest frames left →
      Advances (symbols ++ rest) (f :: frames) left
  | skip {x : α} {rest : List α} {frames : List β} {left : List α} :
      head (x :: rest) = some .skip → Advances rest frames left →
      Advances (x :: rest) frames left

/-- A call that starts here finds nothing. -/
def Waits (buf : List α) : Prop := buf = [] ∨ head buf = some .more

variable (Valid : List α → β → Prop)

/-- The scanner waits for more where no continuation completes a frame. -/
def Held (buf : List α) : Prop := head buf = some .more ∧ ¬ Completable Valid buf

/-- The scanner decides on the head of its buffer, whatever follows. -/
structure Lawful : Prop where
  inhabited : ∃ symbols f, Valid symbols f
  nonempty : ∀ {symbols f}, Valid symbols f → symbols ≠ []
  /-- It does not look past the end of the buffer. -/
  total : ∀ x rest, ∃ v, head (x :: rest) = some v
  accepts : ∀ {symbols f} rest, Valid symbols f →
    head (symbols ++ rest) = some (.found f symbols.length)
  sound : ∀ {buf f used}, head buf = some (.found f used) →
    ∃ symbols rest, buf = symbols ++ rest ∧ symbols.length = used ∧ Valid symbols f
  keeps : ∀ {buf} rest, head buf = some .skip → head (buf ++ rest) = some .skip

variable {head Valid}

theorem Advances.trans {a b c : List α} {fs gs : List β} (hab : Advances head a fs b)
    (hbc : Advances head b gs c) : Advances head a (fs ++ gs) c := by
  induction hab with
  | here => exact hbc
  | found hfound _ ih => exact .found hfound (ih hbc)
  | skip hskip _ ih => exact .skip hskip (ih hbc)

namespace Lawful

variable (hlaw : Lawful head Valid)

include hlaw

variable {buf : List α} {a b : List α} {fs : List β}

theorem head_of_starts (h : Starts Valid buf) : ∃ f used, head buf = some (.found f used) := by
  obtain ⟨symbols, f, hvalid, rest, rfl⟩ := h
  exact ⟨f, symbols.length, hlaw.accepts rest hvalid⟩

theorem not_completable_of_skip (h : head buf = some .skip) : ¬ Completable Valid buf := by
  intro hcomp
  obtain ⟨more, hstarts⟩ := hcomp
  obtain ⟨f, used, hfound⟩ := hlaw.head_of_starts hstarts
  simp [hlaw.keeps more h] at hfound

theorem not_starts_of_waits (h : Waits head buf) : ¬ Starts Valid buf := by
  intro hstarts
  cases h with
  | inl hnil =>
    obtain ⟨symbols, f, hvalid, hpre⟩ := hstarts
    rw [hnil] at hpre
    exact hlaw.nonempty hvalid (List.prefix_nil.mp hpre)
  | inr hmore =>
    obtain ⟨f, used, hfound⟩ := hlaw.head_of_starts hstarts
    simp [hmore] at hfound

theorem valid_of_found {symbols : List α} {f : β} {rest : List α}
    (h : head (symbols ++ rest) = some (.found f symbols.length)) : Valid symbols f := by
  obtain ⟨symbols', rest', happ, hlen, hvalid⟩ := hlaw.sound h
  rw [(List.append_inj happ hlen.symm).1]
  exact hvalid

theorem scans (h : Advances head a fs b) : Scans Valid a fs b := by
  induction h with
  | here => exact .here _
  | found hfound _ ih => exact .frame (hlaw.valid_of_found hfound) ih
  | skip hskip _ ih => exact .skip (hlaw.not_completable_of_skip hskip) ih

theorem advances_append (h : Advances head a fs b) (more : List α) :
    Advances head (a ++ more) fs (b ++ more) := by
  induction h with
  | here => exact .here _
  | found hfound _ ih =>
    rw [List.append_assoc]
    exact .found (hlaw.accepts _ (hlaw.valid_of_found hfound)) ih
  | skip hskip _ ih => exact .skip (hlaw.keeps more hskip) ih

/-- A scan that has come to where it waits gets there over any cut. -/
theorem reaches_of_waits {a b h : List α} {fs gs : List β} (hab : Advances head a fs b)
    (hscans : Scans Valid a gs h) (hwaits : Waits head h) : ∃ gs', Scans Valid b gs' h := by
  induction hab generalizing gs with
  | here => exact ⟨gs, hscans⟩
  | @found symbols f rest frames left hfound _ ih =>
    have hstarts := starts_frame (hlaw.valid_of_found hfound) rest
    generalize hbuf : symbols ++ rest = buf at hscans hstarts hfound
    cases hscans with
    | here => exact absurd hstarts (hlaw.not_starts_of_waits hwaits)
    | @frame symbols' f' rest' _ _ hvalid hrest =>
      have hsame := hlaw.accepts rest' hvalid
      rw [hfound] at hsame
      obtain ⟨-, hlen⟩ : f = f' ∧ symbols.length = symbols'.length := by simpa using hsame
      obtain ⟨-, rfl⟩ := List.append_inj hbuf hlen
      exact ih hrest
    | skip hskip _ => exact absurd hstarts.completable hskip
  | @skip x rest frames left hskip _ ih =>
    have hnot := hlaw.not_completable_of_skip hskip
    generalize hbuf : x :: rest = buf at hscans hnot hskip
    cases hscans with
    | here =>
      cases hwaits with
      | inl hnil => simp [hnil] at hbuf
      | inr hmore => simp [hmore] at hskip
    | frame hvalid _ => exact absurd (starts_frame hvalid _).completable hnot
    | skip _ hrest =>
      obtain ⟨-, rfl⟩ := List.cons.inj hbuf
      exact ih hrest

/-- One step of the scan finds a frame, or waits. -/
theorem next_advances (buf : List α) :
    ∃ found left, next head buf = some (found, left) ∧
      Advances head buf found.toList left ∧
      (found = none → Waits head left) ∧ (found.isSome → left.length < buf.length) := by
  induction buf with
  | nil => exact ⟨none, [], rfl, .here [], fun _ => .inl rfl, by simp⟩
  | cons x rest ih =>
    obtain ⟨v, hv⟩ := hlaw.total x rest
    cases v with
    | more => exact ⟨none, x :: rest, by simp [next, hv], .here _, fun _ => .inr hv, by simp⟩
    | skip =>
      obtain ⟨found, left, hnext, hadv, hwaits, hless⟩ := ih
      refine ⟨found, left, by simpa [next, hv] using hnext, .skip hv hadv, hwaits, fun h => ?_⟩
      exact (hless h).trans (Nat.lt_succ_self _)
    | found f used =>
      obtain ⟨symbols, tail, hbuf, rfl, hvalid⟩ := hlaw.sound hv
      have hpos : 0 < symbols.length := List.length_pos_iff.mpr (hlaw.nonempty hvalid)
      have hdrop : (x :: rest).drop symbols.length = tail := by rw [hbuf, List.drop_left]
      refine ⟨some f, tail, by simp [next, hv, hdrop], ?_, by simp, fun _ => ?_⟩
      · rw [hbuf] at hv ⊢
        exact .found hv (.here tail)
      · rw [hbuf, List.length_append]
        exact Nat.lt_add_of_pos_left hpos

theorem drain_advances (fuel : Nat) (buf : List α) (h : buf.length < fuel) :
    ∃ frames left, drain head fuel buf = some (frames, left) ∧
      Advances head buf frames left ∧ Waits head left := by
  induction fuel generalizing buf with
  | zero => exact absurd h (Nat.not_lt_zero _)
  | succ fuel ih =>
    obtain ⟨found, left, hnext, hadv, hwaits, hless⟩ := hlaw.next_advances buf
    cases found with
    | none => exact ⟨[], left, by simp [drain, hnext], hadv, hwaits rfl⟩
    | some f =>
      obtain ⟨frames, last, hdrain, hrest, hlast⟩ :=
        ih left ((hless rfl).trans_le (Nat.lt_succ_iff.mp h))
      exact ⟨f :: frames, last, by simp [drain, hnext, hdrain], hadv.trans hrest, hlast⟩

/-- A scanner that waits is as far as the reference exactly where the reference comes to no place
at which the scanner is held. -/
theorem pending_iff (h : Advances head a fs b) (hwaits : Waits head b) :
    Pending Valid b ↔ ∀ gs c, Scans Valid a gs c → ¬ Held head Valid c := by
  constructor
  · intro hpending gs c hscans hheld
    obtain ⟨gs', hreach⟩ := hlaw.reaches_of_waits h hscans (.inr hheld.1)
    obtain ⟨rfl, -⟩ := hpending.eq_left hreach
    exact hheld.2 hpending.1
  · intro hnever
    refine ⟨?_, hlaw.not_starts_of_waits hwaits⟩
    cases hwaits with
    | inl hnil =>
      obtain ⟨symbols, f, hvalid⟩ := hlaw.inhabited
      exact ⟨symbols, by simpa [hnil] using starts_frame hvalid []⟩
    | inr hmore =>
      by_contra hcomp
      exact hnever fs b (hlaw.scans h) ⟨hmore, hcomp⟩

/-- Two ways over one stream that both end waiting are the same. -/
theorem advances_unique {a b c : List α} {fs gs : List β} (hb : Advances head a fs b)
    (hc : Advances head a gs c) (hwb : Waits head b) (hwc : Waits head c) :
    fs = gs ∧ b = c := by
  induction hb generalizing gs with
  | here =>
    cases hc with
    | here => exact ⟨rfl, rfl⟩
    | found hfound _ =>
      exact absurd (starts_frame (hlaw.valid_of_found hfound) _) (hlaw.not_starts_of_waits hwb)
    | skip hskip _ => cases hwb <;> simp_all
  | @found symbols f rest frames left hfound hrest ih =>
    have hstarts := starts_frame (hlaw.valid_of_found hfound) rest
    generalize hbuf : symbols ++ rest = buf at hc hstarts hfound
    cases hc with
    | here => exact absurd hstarts (hlaw.not_starts_of_waits hwc)
    | @found symbols' f' rest' _ _ hfound' hrest' =>
      rw [hfound] at hfound'
      obtain ⟨rfl, hlen⟩ : f = f' ∧ symbols.length = symbols'.length := by simpa using hfound'
      obtain ⟨-, rfl⟩ := List.append_inj hbuf hlen
      obtain ⟨rfl, rfl⟩ := ih hrest' hwb
      exact ⟨rfl, rfl⟩
    | skip hskip _ => simp [hskip] at hfound
  | @skip x rest frames left hskip hrest ih =>
    generalize hbuf : x :: rest = buf at hc hskip
    cases hc with
    | here => cases hwc <;> simp_all
    | found hfound _ => simp [hskip] at hfound
    | skip _ hrest' =>
      obtain ⟨-, rfl⟩ := List.cons.inj hbuf
      exact ih hrest' hwb

end Lawful

end Scanner

end TedgeDot.Framing
