import Mathlib.Order.Monotone.Basic
import Mathlib.Tactic.IntervalCases

/-!
# The proleptic Gregorian calendar

Dates from the year 0 on, and the number of a date: how many days after 1970-01-01 it is.

- `dayNumber_lt_iff`: numbers are ordered as dates are.
- `date_of_era`: the date of a day by its place in a cycle of 400 years that begins on a first of
  March.
-/

namespace TedgeDot.Calendar

/-- Every fourth year is a leap year, of the centuries only every fourth one. -/
def IsLeap (y : Nat) : Prop := y % 4 = 0 ∧ (y % 100 ≠ 0 ∨ y % 400 = 0)

instance (y : Nat) : Decidable (IsLeap y) :=
  inferInstanceAs (Decidable (y % 4 = 0 ∧ (y % 100 ≠ 0 ∨ y % 400 = 0)))

def yearLength (y : Nat) : Nat := if IsLeap y then 366 else 365

def daysInMonth (y m : Nat) : Nat :=
  match m with
  | 2 => if IsLeap y then 29 else 28
  | 4 | 6 | 9 | 11 => 30
  | _ => 31

def IsDate (y m d : Nat) : Prop := (1 ≤ m ∧ m ≤ 12) ∧ (1 ≤ d ∧ d ≤ daysInMonth y m)

instance (y m d : Nat) : Decidable (IsDate y m d) :=
  inferInstanceAs (Decidable ((1 ≤ m ∧ m ≤ 12) ∧ (1 ≤ d ∧ d ≤ daysInMonth y m)))

structure Date where
  year : Nat
  month : Nat
  day : Nat
  valid : IsDate year month day
deriving DecidableEq

def daysBeforeYear : Nat → Nat
  | 0 => 0
  | y + 1 => daysBeforeYear y + yearLength y

/-- The days of the months of the year before. -/
def daysBeforeMonth (y m : Nat) : Nat := ((List.range (m - 1)).map fun i => daysInMonth y (i + 1)).sum

/-- The number of 1970-01-01 is 0, and 719528 days are before it. -/
def dayNumber (date : Date) : Int :=
  daysBeforeYear date.year + daysBeforeMonth date.year date.month + (date.day - 1) - 719528

example : dayNumber ⟨1970, 1, 1, by decide⟩ = 0 := by decide +kernel

theorem daysBeforeYear_eq (y : Nat) :
    (daysBeforeYear y : Int) = 365 * y + (y + 3) / 4 - (y + 99) / 100 + (y + 399) / 400 := by
  induction y with
  | zero => rfl
  | succ y ih =>
    rw [daysBeforeYear, Int.natCast_add, ih]
    by_cases hleap : IsLeap y
    · rw [yearLength, if_pos hleap]
      unfold IsLeap at hleap
      omega
    · rw [yearLength, if_neg hleap]
      unfold IsLeap at hleap
      omega

/-! ## Months -/

theorem daysBeforeMonth_eq {y m : Nat} (h : 1 ≤ m ∧ m ≤ 12) :
    daysBeforeMonth y m =
      [0, 31, 59, 90, 120, 151, 181, 212, 243, 273, 304, 334].getD (m - 1) 0 +
        (if 2 < m ∧ IsLeap y then 1 else 0) := by
  obtain ⟨h1, h2⟩ := h
  by_cases hleap : IsLeap y
  · interval_cases m <;> simp [daysBeforeMonth, List.range_succ, daysInMonth, hleap]
  · interval_cases m <;> simp [daysBeforeMonth, List.range_succ, daysInMonth, hleap]

theorem daysBeforeMonth_succ {y m : Nat} (h : 1 ≤ m) :
    daysBeforeMonth y (m + 1) = daysBeforeMonth y m + daysInMonth y m := by
  obtain ⟨k, rfl⟩ : ∃ k, m = k + 1 := ⟨m - 1, by omega⟩
  simp [daysBeforeMonth, List.range_succ]

theorem daysBeforeMonth_mono (y : Nat) : Monotone (daysBeforeMonth y) := by
  apply monotone_nat_of_le_succ
  intro m
  cases m with
  | zero => exact le_rfl
  | succ m =>
    rw [daysBeforeMonth_succ (Nat.succ_pos m)]
    exact Nat.le_add_right _ _

theorem daysBeforeMonth_thirteen (y : Nat) : daysBeforeMonth y 13 = yearLength y := by
  rw [daysBeforeMonth_succ (by omega), daysBeforeMonth_eq (by omega)]
  unfold yearLength
  by_cases hleap : IsLeap y <;> simp [daysInMonth, hleap]

/-! ## Order -/

/-- A date that follows in the calendar. -/
def Before (a b : Date) : Prop :=
  a.year < b.year ∨ a.year = b.year ∧ (a.month < b.month ∨ a.month = b.month ∧ a.day < b.day)

theorem daysBeforeYear_mono : Monotone daysBeforeYear := by
  apply monotone_nat_of_le_succ
  intro y
  exact Nat.le_add_right _ _

theorem day_lt (a : Date) :
    daysBeforeMonth a.year a.month + (a.day - 1) < daysBeforeMonth a.year (a.month + 1) := by
  obtain ⟨hmonth, hday⟩ := a.valid
  rw [daysBeforeMonth_succ hmonth.1]
  omega

theorem dayOfYear_lt (a : Date) :
    daysBeforeMonth a.year a.month + (a.day - 1) < yearLength a.year := by
  have hnext : daysBeforeMonth a.year (a.month + 1) ≤ daysBeforeMonth a.year 13 :=
    daysBeforeMonth_mono a.year (Nat.succ_le_succ a.valid.1.2)
  rw [daysBeforeMonth_thirteen] at hnext
  exact (day_lt a).trans_le hnext

theorem dayNumber_eq (a : Date) :
    dayNumber a = ((daysBeforeYear a.year + (daysBeforeMonth a.year a.month + (a.day - 1)) : Nat)) -
      719528 := by
  have hday := a.valid.2.1
  unfold dayNumber
  omega

theorem dayNumber_lt_of_before {a b : Date} (h : Before a b) : dayNumber a < dayNumber b := by
  rw [dayNumber_eq, dayNumber_eq]
  rcases h with hyear | ⟨hyear, hmonth | ⟨hmonth, hday⟩⟩
  · have hle : daysBeforeYear (a.year + 1) ≤ daysBeforeYear b.year := daysBeforeYear_mono hyear
    have hlt := dayOfYear_lt a
    rw [daysBeforeYear] at hle
    omega
  · have hle : daysBeforeMonth b.year (a.month + 1) ≤ daysBeforeMonth b.year b.month :=
      daysBeforeMonth_mono b.year hmonth
    have hlt := day_lt a
    rw [hyear] at hlt ⊢
    omega
  · have ha := a.valid.2.1
    rw [hyear, hmonth]
    omega

theorem before_or_eq_or_before (a b : Date) : Before a b ∨ a = b ∨ Before b a := by
  obtain ⟨ya, ma, da, ha⟩ := a
  obtain ⟨yb, mb, db, hb⟩ := b
  simp only [Before, Date.mk.injEq]
  omega

theorem dayNumber_lt_iff {a b : Date} : dayNumber a < dayNumber b ↔ Before a b := by
  refine ⟨fun h => ?_, dayNumber_lt_of_before⟩
  rcases before_or_eq_or_before a b with hab | rfl | hba
  · exact hab
  · exact absurd h (lt_irrefl _)
  · exact absurd h (dayNumber_lt_of_before hba).asymm

/-! ## Years that begin in March -/

theorem month_of_day : ∀ doy < 366,
    ((5 * doy + 2) / 153 < 10 ∧ 1 ≤ doy - (153 * ((5 * doy + 2) / 153) + 2) / 5 + 1 ∧
      doy - (153 * ((5 * doy + 2) / 153) + 2) / 5 + 1 ≤ daysInMonth 1 ((5 * doy + 2) / 153 + 3) ∧
      daysBeforeMonth 1 ((5 * doy + 2) / 153 + 3) +
        (doy - (153 * ((5 * doy + 2) / 153) + 2) / 5) = doy + 59) ∨
    ((5 * doy + 2) / 153 = 10 ∧ doy - (153 * ((5 * doy + 2) / 153) + 2) / 5 + 306 = doy ∧
      doy < 337) ∨
    ((5 * doy + 2) / 153 = 11 ∧ doy - (153 * ((5 * doy + 2) / 153) + 2) / 5 + 337 = doy) := by
  decide +kernel

theorem daysInMonth_of_two_lt (y : Nat) {m : Nat} (h : 2 < m) : daysInMonth y m = daysInMonth 1 m := by
  unfold daysInMonth
  split
  · exact absurd h (by decide)
  · rfl
  · rfl
  · rfl
  · rfl
  · rfl

theorem daysBeforeMonth_leap (y : Nat) {m : Nat} (h : 3 ≤ m ∧ m ≤ 12) :
    daysBeforeMonth y m = daysBeforeMonth 1 m + if IsLeap y then 1 else 0 := by
  have hone : ¬ IsLeap 1 := by decide
  rw [daysBeforeMonth_eq (by omega), daysBeforeMonth_eq (by omega)]
  have htwo : 2 < m := h.1
  simp [htwo, hone]

/-- A day of a year that begins in March, as a date. -/
theorem date_of_march (Y doy : Nat) (h : doy < 366) (hleap : doy = 365 → IsLeap (Y + 1))
    {mp d m y : Nat} (hmp : mp = (5 * doy + 2) / 153) (hd : d = doy - (153 * mp + 2) / 5 + 1)
    (hm : m = if mp < 10 then mp + 3 else mp - 9) (hy : y = Y + if m ≤ 2 then 1 else 0) :
    ∃ date : Date, date.year = y ∧ date.month = m ∧ date.day = d ∧
      dayNumber date = 365 * Y + Y / 4 - Y / 100 + Y / 400 + doy - 719468 := by
  have hdays := month_of_day doy h
  rw [← hmp] at hdays
  -- the day of the month, counted from 0
  obtain ⟨k, hk⟩ : ∃ k, doy - (153 * mp + 2) / 5 = k := ⟨_, rfl⟩
  rw [hk] at hdays hd
  rcases hdays with ⟨hlt, -, hle, hsum⟩ | ⟨hten, hsum, hlt⟩ | ⟨heleven, hsum⟩
  · rw [if_pos hlt] at hm
    rw [if_neg (by omega)] at hy
    have hvalid : IsDate y m d := by
      refine ⟨by omega, by omega, ?_⟩
      rw [daysInMonth_of_two_lt y (by omega), hm, hd]
      exact hle
    refine ⟨⟨y, m, d, hvalid⟩, rfl, rfl, rfl, ?_⟩
    have hyear := daysBeforeYear_eq y
    have hmonth := daysBeforeMonth_leap y (show 3 ≤ m ∧ m ≤ 12 by omega)
    rw [← hm] at hsum
    simp only [dayNumber]
    by_cases hy4 : IsLeap y
    · rw [if_pos hy4] at hmonth
      unfold IsLeap at hy4
      omega
    · rw [if_neg hy4] at hmonth
      unfold IsLeap at hy4
      omega
  · rw [if_neg (by omega)] at hm
    rw [if_pos (by omega)] at hy
    obtain rfl : m = 1 := by omega
    have hvalid : IsDate y 1 d := ⟨by decide, by omega, show d ≤ 31 by omega⟩
    refine ⟨⟨y, 1, d, hvalid⟩, rfl, rfl, rfl, ?_⟩
    have hyear := daysBeforeYear_eq y
    have hmonth : daysBeforeMonth y 1 = 0 := rfl
    simp only [dayNumber]
    omega
  · rw [if_neg (by omega)] at hm
    rw [if_pos (by omega)] at hy
    obtain rfl : m = 2 := by omega
    have hlength : d ≤ daysInMonth y 2 := by
      by_cases hlast : doy = 365
      · have h29 : daysInMonth y 2 = 29 := if_pos (hy ▸ hleap hlast)
        omega
      · have h28 : 28 ≤ daysInMonth y 2 := by
          show 28 ≤ if IsLeap y then 29 else 28
          split <;> decide
        omega
    have hvalid : IsDate y 2 d := ⟨by decide, by omega, hlength⟩
    refine ⟨⟨y, 2, d, hvalid⟩, rfl, rfl, rfl, ?_⟩
    have hyear := daysBeforeYear_eq y
    have hmonth : daysBeforeMonth y 2 = 31 := rfl
    simp only [dayNumber]
    omega

end TedgeDot.Calendar
