import TedgeDot.Lib.Calendar
import TedgeDot.Lib.Decimal
import Mathlib.Data.List.TakeWhile
import Mathlib.Data.Rat.Floor
import Mathlib.Tactic.NormNum

/-!
# RFC 3339 in UTC

The instant that a text of the form `2006-01-02T15:04:05.678Z` denotes, as seconds after
1970-01-01T00:00:00Z.

- `instant_stamp`: the text of a date and a time of day denotes them.
- `fractionOf_trimZeros`: the zeros at the end of a fraction say nothing.
- `stamp_lt`: such texts are ordered as what they denote.
-/

namespace TedgeDot.Rfc3339

open Calendar Decimal

/-! ## Numbers of a fixed width -/

/-- A number in decimal, with zeros in front up to the width. -/
def pad (width n : Nat) : List Char :=
  List.replicate (width - (Nat.toDigits 10 n).length) '0' ++ Nat.toDigits 10 n

/-- A number of so many digits, and the text behind it. -/
def number (width : Nat) (text : List Char) : Option (Nat × List Char) :=
  (digits (text.take width)).map fun n => (n, text.drop width)

theorem length_toDigits_le {width n : Nat} (hwidth : 0 < width) (h : n < 10 ^ width) :
    (Nat.toDigits 10 n).length ≤ width :=
  (Nat.length_toDigits_le_iff (by decide) hwidth).mpr h

theorem length_pad {width n : Nat} (hwidth : 0 < width) (h : n < 10 ^ width) :
    (pad width n).length = width := by
  have hle := length_toDigits_le hwidth h
  rw [pad, List.length_append, List.length_replicate]
  omega

theorem isDigit_of_mem_pad {width n : Nat} {c : Char} (h : c ∈ pad width n) : c.isDigit = true := by
  rcases List.mem_append.mp h with h | h
  · rw [List.eq_of_mem_replicate h]
    decide
  · exact Nat.isDigit_of_mem_toDigits (by decide) (by decide) h

theorem ofDigitChars_pad (width n : Nat) : Nat.ofDigitChars 10 (pad width n) 0 = n := by
  rw [pad, Nat.ofDigitChars_append, Nat.ofDigitChars_replicate_zero, Nat.mul_zero,
    Nat.ofDigitChars_ten_toDigits]

theorem digits_pad (width n : Nat) : digits (pad width n) = some n := by
  have hne : pad width n ≠ [] := by
    intro h
    exact Nat.toDigits_ne_nil (List.append_eq_nil_iff.mp h).2
  have hall : (pad width n).all Char.isDigit = true :=
    List.all_eq_true.mpr fun c hc => isDigit_of_mem_pad hc
  rw [digits, if_pos ⟨hne, hall⟩, ofDigitChars_pad]

theorem number_pad {width n : Nat} (hwidth : 0 < width) (h : n < 10 ^ width) (rest : List Char) :
    number width (pad width n ++ rest) = some (n, rest) := by
  have hlen := length_pad hwidth h
  rw [number, List.take_left' hlen, List.drop_left' hlen, digits_pad]
  rfl

/-! ## Reading -/

/-- A separator, and the text behind it. -/
def expect (c : Char) : List Char → Option (List Char)
  | [] => none
  | x :: rest => if x = c then some rest else none

@[simp] theorem expect_cons (c : Char) (rest : List Char) : expect c (c :: rest) = some rest :=
  if_pos rfl

/-- The fraction of a second, and the `Z` of UTC, at the end of a text. -/
def fractionOf : List Char → Option ℚ
  | ['Z'] => some 0
  | '.' :: rest =>
    if rest.dropWhile Char.isDigit = ['Z'] then
      (digits (rest.takeWhile Char.isDigit)).map fun n : Nat =>
        (n : ℚ) / 10 ^ (rest.takeWhile Char.isDigit).length
    else none
  | _ => none

/-- The instant that a text denotes, if it denotes one. -/
def instant (text : String) : Option ℚ := do
  let (year, rest) ← number 4 text.toList
  let rest ← expect '-' rest
  let (month, rest) ← number 2 rest
  let rest ← expect '-' rest
  let (day, rest) ← number 2 rest
  let rest ← expect 'T' rest
  let (hour, rest) ← number 2 rest
  let rest ← expect ':' rest
  let (minute, rest) ← number 2 rest
  let rest ← expect ':' rest
  let (second, rest) ← number 2 rest
  let fraction ← fractionOf rest
  if hdate : IsDate year month day then
    if hour < 24 ∧ minute < 60 ∧ second < 60 then
      some (dayNumber ⟨year, month, day, hdate⟩ * 86400 + hour * 3600 + minute * 60 + second +
        fraction)
    else none
  else none

/-! ## Writing -/

/-- A time of day on a date, of four digits the year. -/
structure Stamp where
  date : Date
  hour : Nat
  minute : Nat
  second : Nat
  year_lt : date.year < 10000
  hour_lt : hour < 24
  minute_lt : minute < 60
  second_lt : second < 60

/-- Seconds after 1970-01-01T00:00:00Z. -/
def Stamp.seconds (s : Stamp) : Int :=
  dayNumber s.date * 86400 + s.hour * 3600 + s.minute * 60 + s.second

/-- The text of a stamp, up to its whole seconds. -/
def Stamp.chars (s : Stamp) : List Char :=
  pad 4 s.date.year ++ '-' :: (pad 2 s.date.month ++ '-' :: (pad 2 s.date.day ++ 'T' ::
    (pad 2 s.hour ++ ':' :: (pad 2 s.minute ++ ':' :: pad 2 s.second))))

theorem daysInMonth_lt (y m : Nat) : daysInMonth y m < 100 := by
  unfold daysInMonth
  split <;> try split
  all_goals decide

theorem Stamp.month_lt (s : Stamp) : s.date.month < 10 ^ 2 := by
  have h := s.date.valid.1.2
  omega

theorem Stamp.day_lt (s : Stamp) : s.date.day < 10 ^ 2 := by
  have h := s.date.valid.2.2
  have hlt := daysInMonth_lt s.date.year s.date.month
  omega

theorem instant_stamp (s : Stamp) {fraction : List Char} {q : ℚ}
    (h : fractionOf fraction = some q) :
    instant (String.ofList (s.chars ++ fraction)) = some (s.seconds + q) := by
  have hyear : s.date.year < 10 ^ 4 := s.year_lt
  have hhour : s.hour < 10 ^ 2 := s.hour_lt.trans (by decide)
  have hminute : s.minute < 10 ^ 2 := s.minute_lt.trans (by decide)
  have hsecond : s.second < 10 ^ 2 := s.second_lt.trans (by decide)
  have hdate : IsDate s.date.year s.date.month s.date.day := s.date.valid
  have htime : s.hour < 24 ∧ s.minute < 60 ∧ s.second < 60 :=
    ⟨s.hour_lt, s.minute_lt, s.second_lt⟩
  unfold instant Stamp.chars
  simp only [String.toList_ofList, List.append_assoc, List.cons_append,
    number_pad (by decide) hyear, number_pad (by decide) s.month_lt,
    number_pad (by decide) s.day_lt, number_pad (by decide) hhour,
    number_pad (by decide) hminute, number_pad (by decide) hsecond, expect_cons,
    Option.bind_eq_bind, Option.bind_some, h, dif_pos hdate, if_pos htime, Stamp.seconds]
  push_cast
  rfl

/-! ## Fractions -/

/-- Digits without the zeros at their end. -/
def trimZeros (l : List Char) : List Char := (l.reverse.dropWhile (· == '0')).reverse

theorem exists_trimZeros (l : List Char) : ∃ k, l = trimZeros l ++ List.replicate k '0' := by
  have hzeros : ∀ c ∈ l.reverse.takeWhile (· == '0'), c = '0' :=
    fun c hc => by simpa using List.mem_takeWhile_imp hc
  refine ⟨(l.reverse.takeWhile (· == '0')).length, ?_⟩
  have hsplit := congrArg List.reverse
    (@List.takeWhile_append_dropWhile _ (· == '0') l.reverse)
  rw [List.reverse_append, List.reverse_reverse, List.eq_replicate_of_mem hzeros,
    List.reverse_replicate] at hsplit
  exact hsplit.symm

theorem trimZeros_ne_append_zero (l init : List Char) : trimZeros l ≠ init ++ ['0'] := by
  intro h
  have hhead : l.reverse.dropWhile (· == '0') = '0' :: init.reverse := by
    rw [← List.reverse_reverse (l.reverse.dropWhile _), ← trimZeros, h]
    simp
  have hnot := List.head?_dropWhile_not (· == '0') l.reverse
  rw [hhead] at hnot
  simp at hnot

theorem isDigit_of_mem_trimZeros {l : List Char} (hl : ∀ c ∈ l, c.isDigit = true) {c : Char}
    (hc : c ∈ trimZeros l) : c.isDigit = true := by
  obtain ⟨k, hk⟩ := exists_trimZeros l
  apply hl
  rw [hk]
  exact List.mem_append_left _ hc

section Trimmed

variable {width n : Nat} (hwidth : 0 < width) (h : n < 10 ^ width)

include hwidth h

theorem trimZeros_value : ∃ k, (trimZeros (pad width n)).length + k = width ∧
    n = Nat.ofDigitChars 10 (trimZeros (pad width n)) 0 * 10 ^ k := by
  obtain ⟨k, hk⟩ := exists_trimZeros (pad width n)
  have hlen := length_pad hwidth h
  have hvalue := ofDigitChars_pad width n
  rw [hk, List.length_append, List.length_replicate] at hlen
  rw [hk, Nat.ofDigitChars_append, Nat.ofDigitChars_replicate_zero, Nat.mul_comm] at hvalue
  exact ⟨k, hlen, hvalue.symm⟩

theorem trimZeros_ne_nil (hpos : 0 < n) : trimZeros (pad width n) ≠ [] := by
  intro hnil
  obtain ⟨k, -, hvalue⟩ := trimZeros_value hwidth h
  rw [hnil, Nat.ofDigitChars_nil, Nat.zero_mul] at hvalue
  omega

/-- The fraction without its zeros is the same. -/
theorem fractionOf_trimZeros (hpos : 0 < n) :
    fractionOf ('.' :: (trimZeros (pad width n) ++ ['Z'])) = some ((n : ℚ) / 10 ^ width) := by
  obtain ⟨k, hlen, hvalue⟩ := trimZeros_value hwidth h
  have hall : ∀ c ∈ trimZeros (pad width n), c.isDigit = true :=
    fun c hc => isDigit_of_mem_trimZeros (fun d hd => isDigit_of_mem_pad hd) hc
  have htake : (trimZeros (pad width n) ++ ['Z']).takeWhile Char.isDigit =
      trimZeros (pad width n) := by
    rw [List.takeWhile_append_of_pos hall]
    simp
  have hdrop : (trimZeros (pad width n) ++ ['Z']).dropWhile Char.isDigit = ['Z'] := by
    rw [List.dropWhile_append_of_pos hall]
    simp
  have hdigits : digits (trimZeros (pad width n)) =
      some (Nat.ofDigitChars 10 (trimZeros (pad width n)) 0) :=
    if_pos ⟨trimZeros_ne_nil hwidth h hpos, List.all_eq_true.mpr hall⟩
  have hten : (10 : ℚ) ^ k ≠ 0 := pow_ne_zero k (by norm_num)
  rw [fractionOf, if_pos hdrop, htake, hdigits, Option.map_some, Option.some.injEq]
  generalize trimZeros (pad width n) = text at hlen hvalue ⊢
  rw [hvalue, ← hlen, pow_add]
  push_cast
  rw [mul_div_mul_right _ _ hten]

end Trimmed

/-! ## Order -/

theorem append_lt_append_iff {a b x y : List Char} (h : a.length = b.length) :
    a ++ x < b ++ y ↔ a < b ∨ a = b ∧ x < y := by
  induction a generalizing b with
  | nil =>
    obtain rfl : b = [] := List.length_eq_zero_iff.mp h.symm
    simp
  | cons c a ih =>
    cases b with
    | nil => cases h
    | cons d b =>
      rw [List.cons_append, List.cons_append, List.cons_lt_cons_iff, List.cons_lt_cons_iff,
        ih (Nat.succ.inj h), List.cons.injEq]
      tauto

theorem digit_bounds {c : Char} (h : c.isDigit = true) : 48 ≤ c.toNat ∧ c.toNat ≤ 57 :=
  Char.isDigit_iff_toNat.mp h

theorem ofDigitChars_lt {a : List Char} (ha : ∀ c ∈ a, c.isDigit = true) :
    Nat.ofDigitChars 10 a 0 < 10 ^ a.length := by
  induction a with
  | nil => simp
  | cons c a ih =>
    have hc := digit_bounds (ha c List.mem_cons_self)
    have hlt := ih fun x hx => ha x (List.mem_cons_of_mem _ hx)
    have hzero : '0'.toNat = 48 := rfl
    rw [Nat.ofDigitChars_cons, Nat.ofDigitChars_eq_ofDigitChars_zero, List.length_cons, hzero]
    have hmul : 10 ^ a.length * (10 * 0 + (c.toNat - 48)) ≤ 10 ^ a.length * 9 :=
      Nat.mul_le_mul_left _ (by omega)
    rw [Nat.pow_succ]
    omega

/-- Digits of one length compare like their numbers. -/
theorem lt_of_ofDigitChars_lt {a b : List Char} (hlen : a.length = b.length)
    (ha : ∀ c ∈ a, c.isDigit = true) (hb : ∀ c ∈ b, c.isDigit = true)
    (h : Nat.ofDigitChars 10 a 0 < Nat.ofDigitChars 10 b 0) : a < b := by
  induction a generalizing b with
  | nil =>
    obtain rfl : b = [] := List.length_eq_zero_iff.mp hlen.symm
    exact absurd h (lt_irrefl _)
  | cons c a ih =>
    cases b with
    | nil => cases hlen
    | cons d b =>
      have hc := digit_bounds (ha c List.mem_cons_self)
      have hd := digit_bounds (hb d List.mem_cons_self)
      have ha' : ∀ x ∈ a, x.isDigit = true := fun x hx => ha x (List.mem_cons_of_mem _ hx)
      have hb' : ∀ x ∈ b, x.isDigit = true := fun x hx => hb x (List.mem_cons_of_mem _ hx)
      have hlen' : a.length = b.length := Nat.succ.inj hlen
      have hzero : '0'.toNat = 48 := rfl
      rw [Nat.ofDigitChars_cons, Nat.ofDigitChars_cons, Nat.ofDigitChars_eq_ofDigitChars_zero,
        @Nat.ofDigitChars_eq_ofDigitChars_zero b, hlen', hzero] at h
      rw [List.cons_lt_cons_iff]
      rcases lt_trichotomy c.toNat d.toNat with hlt | heq | hgt
      · exact .inl (Char.lt_def.mpr (UInt32.lt_iff_toNat_lt.mpr hlt))
      · rw [heq] at h
        exact .inr ⟨Char.toNat_inj.mp heq, ih hlen' ha' hb' (Nat.lt_of_add_lt_add_left h)⟩
      · -- the numbers behind the first digits cannot make up for these
        have hrest := ofDigitChars_lt hb'
        have hmul : 10 ^ b.length * (10 * 0 + (d.toNat - 48)) + 10 ^ b.length * 1 ≤
            10 ^ b.length * (10 * 0 + (c.toNat - 48)) := by
          rw [← Nat.mul_add]
          exact Nat.mul_le_mul_left _ (by omega)
        omega

theorem pad_lt_pad {width m n : Nat} (hwidth : 0 < width) (hm : m < 10 ^ width)
    (hn : n < 10 ^ width) (h : m < n) : pad width m < pad width n := by
  apply lt_of_ofDigitChars_lt
  · rw [length_pad hwidth hm, length_pad hwidth hn]
  · exact fun c hc => isDigit_of_mem_pad hc
  · exact fun c hc => isDigit_of_mem_pad hc
  · rw [ofDigitChars_pad, ofDigitChars_pad]
    exact h

theorem field_lt {width m n : Nat} (hwidth : 0 < width) (hm : m < 10 ^ width) (hn : n < 10 ^ width)
    {c : Char} {x y : List Char} (h : m < n ∨ m = n ∧ x < y) :
    pad width m ++ c :: x < pad width n ++ c :: y := by
  rw [append_lt_append_iff (by rw [length_pad hwidth hm, length_pad hwidth hn])]
  rcases h with hlt | ⟨rfl, hxy⟩
  · exact .inl (pad_lt_pad hwidth hm hn hlt)
  · exact .inr ⟨rfl, List.cons_lt_cons_iff.mpr (.inr ⟨rfl, hxy⟩)⟩

/-- Later stamps have larger texts. -/
theorem stamp_lt {s t : Stamp} (h : s.seconds < t.seconds) (x y : List Char) :
    s.chars ++ 'Z' :: x < t.chars ++ 'Z' :: y := by
  have hs : s.hour < 10 ^ 2 ∧ s.minute < 10 ^ 2 ∧ s.second < 10 ^ 2 :=
    ⟨s.hour_lt.trans (by decide), s.minute_lt.trans (by decide), s.second_lt.trans (by decide)⟩
  have ht : t.hour < 10 ^ 2 ∧ t.minute < 10 ^ 2 ∧ t.second < 10 ^ 2 :=
    ⟨t.hour_lt.trans (by decide), t.minute_lt.trans (by decide), t.second_lt.trans (by decide)⟩
  -- a later moment is on a later day, or later on the same day
  have hdays : Before s.date t.date ∨ s.date = t.date := by
    rcases before_or_eq_or_before s.date t.date with hab | heq | hba
    · exact .inl hab
    · exact .inr heq
    · have hlt := dayNumber_lt_iff.mpr hba
      have hbounds := And.intro s.hour_lt (And.intro s.minute_lt (And.intro s.second_lt
        (And.intro t.hour_lt (And.intro t.minute_lt t.second_lt))))
      unfold Stamp.seconds at h
      omega
  simp only [Stamp.chars, List.append_assoc, List.cons_append]
  rcases hdays with hbefore | hsame
  · refine field_lt (by decide) s.year_lt t.year_lt ?_
    rcases hbefore with hyear | ⟨hyear, hrest⟩
    · exact .inl hyear
    refine .inr ⟨hyear, field_lt (by decide) s.month_lt t.month_lt ?_⟩
    rcases hrest with hmonth | ⟨hmonth, hday⟩
    · exact .inl hmonth
    · exact .inr ⟨hmonth, field_lt (by decide) s.day_lt t.day_lt (.inl hday)⟩
  · rw [hsame]
    refine field_lt (by decide) t.year_lt t.year_lt (.inr ⟨rfl, ?_⟩)
    refine field_lt (by decide) t.month_lt t.month_lt (.inr ⟨rfl, ?_⟩)
    refine field_lt (by decide) t.day_lt t.day_lt (.inr ⟨rfl, ?_⟩)
    have hbounds := And.intro s.minute_lt (And.intro s.second_lt
      (And.intro t.minute_lt t.second_lt))
    simp only [Stamp.seconds, hsame] at h
    refine field_lt (by decide) hs.1 ht.1 ?_
    by_cases hhour : s.hour < t.hour
    · exact .inl hhour
    refine .inr ⟨by omega, field_lt (by decide) hs.2.1 ht.2.1 ?_⟩
    by_cases hminute : s.minute < t.minute
    · exact .inl hminute
    · exact .inr ⟨by omega, field_lt (by decide) hs.2.2 ht.2.2 (.inl (by omega))⟩

end TedgeDot.Rfc3339
