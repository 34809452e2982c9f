import TedgeDot.Lib.Convert
import TedgeDot.Lib.Decimal

/-!
# Numbers written in decimal

The text of a number: an optional sign, digits with an optional point among them, and an optional
exponent. A text stands for one rational number (`exact`), and is parsed to the float nearest it
(`parseF64`). The text of an integer stands for that integer (`exact_toString`).
-/

namespace TedgeDot.Decimal

open Binary64 Float.Model Float.Model.UnpackedFloat

/-! ## Grammar -/

/-- The sign in front of a number, and the rest. -/
def sign : List Char → Sign × List Char
  | '-' :: rest => (.negative, rest)
  | '+' :: rest => (.positive, rest)
  | rest => (.positive, rest)

def signed (s : Sign) (q : ℚ) : ℚ :=
  match s with
  | .negative => -q
  | .positive => q

/-- The power of ten at the end of a number, where nothing is the zeroth. -/
def exponent : List Char → Option Int
  | [] => some 0
  | c :: rest =>
    if c == 'e' || c == 'E' then
      (digits (sign rest).2).map fun n : Nat => (sign rest).1.apply (n : Int)
    else none

/-- The digits after a point, and the rest. -/
def fraction : List Char → List Char × List Char
  | '.' :: rest => (rest.takeWhile Char.isDigit, rest.dropWhile Char.isDigit)
  | rest => ([], rest)

/-- A number without a sign: its digits as one natural number, and the power of ten that scales
it. -/
def unsigned (text : List Char) : Option (Nat × Int) :=
  let whole := text.takeWhile Char.isDigit
  let (part, rest) := fraction (text.dropWhile Char.isDigit)
  if whole ++ part = [] then none
  else (exponent rest).map fun e => (Nat.ofDigitChars 10 (whole ++ part) 0, e - part.length)

/-- `m * 10 ^ e`. -/
def scaled (m : Nat) (e : Int) : ℚ :=
  if 0 ≤ e then (m * 10 ^ e.toNat : Nat) else (m : ℚ) / (10 ^ (-e).toNat : Nat)

def exact (text : String) : Option ℚ :=
  (unsigned (sign text.toList).2).map fun n => signed (sign text.toList).1 (scaled n.1 n.2)

/-! ## Parsing -/

/-- The names of the values that are not numbers. -/
def special (s : Sign) (text : List Char) : Option Float :=
  let name := String.ofList (text.map Char.toLower)
  if name == "inf" || name == "infinity" then some (.ofModel (.pack (.infinity s)))
  else if name == "nan" then some (.ofModel (.pack .notANumber))
  else none

/-- `text.parse::<f64>()`. -/
def parseF64 (text : String) : Option Float :=
  match unsigned (sign text.toList).2 with
  | some (m, e) => some (nearest (sign text.toList).1 (scaled m e))
  | none => special (sign text.toList).1 (sign text.toList).2

def parseInt (text : String) : Option Int :=
  (digits (sign text.toList).2).map fun n : Nat => (sign text.toList).1.apply (n : Int)

/-- `text.parse::<i64>()`. -/
def parseI64 (text : String) : Option Int :=
  (parseInt text).filter fun n => -2 ^ 63 ≤ n ∧ n < 2 ^ 63

/-- `text.parse::<u64>()`, which takes no minus sign. -/
def parseU64 (text : String) : Option Int :=
  if text.toList.head? = some '-' then none
  else (parseInt text).filter fun n => n < 2 ^ 64

/-! ## Integers -/

section Digits

variable {text : List Char} {n : Nat}

theorem digits_spec (h : digits text = some n) :
    text ≠ [] ∧ text.all Char.isDigit = true ∧ n = Nat.ofDigitChars 10 text 0 := by
  unfold digits at h
  split at h
  · rename_i hcond
    cases h
    exact ⟨hcond.1, hcond.2, rfl⟩
  · cases h

theorem takeWhile_of_all (h : text.all Char.isDigit = true) : text.takeWhile Char.isDigit = text :=
  List.takeWhile_eq_self_iff.mpr (List.all_eq_true.mp h)

theorem dropWhile_of_all (h : text.all Char.isDigit = true) : text.dropWhile Char.isDigit = [] :=
  List.dropWhile_eq_nil_iff.mpr (List.all_eq_true.mp h)

theorem unsigned_of_digits (h : digits text = some n) : unsigned text = some (n, 0) := by
  obtain ⟨hne, hall, rfl⟩ := digits_spec h
  unfold unsigned
  simp only [takeWhile_of_all hall, dropWhile_of_all hall, fraction, List.append_nil]
  rw [if_neg hne]
  rfl

end Digits

@[simp] theorem scaled_zero (m : Nat) : scaled m 0 = m := by
  rw [scaled, if_pos (Int.le_refl 0), Int.toNat_zero, Nat.pow_zero, Nat.mul_one]

theorem signed_natCast (s : Sign) (n : Nat) : signed s n = (s.apply n : Int) := by
  cases s
  · exact (Int.cast_neg _).symm
  · rfl

variable {text : String}

theorem exact_of_parseInt {v : Int} (h : parseInt text = some v) : exact text = some (v : ℚ) := by
  unfold parseInt at h
  obtain ⟨n, hn, rfl⟩ := Option.map_eq_some_iff.mp h
  rw [exact, unsigned_of_digits hn, Option.map_some, scaled_zero, signed_natCast]

theorem sign_of_isDigit {c : Char} {rest : List Char} (h : c.isDigit = true) :
    sign (c :: rest) = (.positive, c :: rest) := by
  unfold sign
  split
  · rename_i heq
    cases heq
    exact absurd h (by decide)
  · rename_i heq
    cases heq
    exact absurd h (by decide)
  · rfl

theorem parseInt_toString (v : Int) : parseInt (toString v) = some v := by
  unfold parseInt
  rcases Int.lt_or_le v 0 with hv | hv
  · rw [toList_toString_of_neg hv]
    simp only [sign, digits_toDigits, Option.map_some, Sign.apply]
    congr 1
    omega
  · obtain ⟨c, rest, hc, hdigit⟩ := toDigits_head v.toNat
    rw [toList_toString_of_nonneg hv, hc, sign_of_isDigit hdigit, ← hc]
    simp only [digits_toDigits, Option.map_some, Sign.apply]
    congr 1
    omega

theorem exact_toString (v : Int) : exact (toString v) = some (v : ℚ) :=
  exact_of_parseInt (parseInt_toString v)

theorem parseI64_toString {v : Int} (hlow : -2 ^ 63 ≤ v) (hhigh : v < 2 ^ 63) :
    parseI64 (toString v) = some v := by
  rw [parseI64, parseInt_toString, Option.filter_some, if_pos]
  exact decide_eq_true ⟨hlow, hhigh⟩

theorem parseU64_toString {v : Int} (hlow : 0 ≤ v) (hhigh : v < 2 ^ 64) :
    parseU64 (toString v) = some v := by
  have hhead : (toString v).toList.head? ≠ some '-' := by
    obtain ⟨c, rest, hc, hdigit⟩ := toDigits_head v.toNat
    rw [toList_toString_of_nonneg hlow, hc, List.head?_cons]
    intro heq
    cases heq
    exact absurd hdigit (by decide)
  rw [parseU64, if_neg hhead, parseInt_toString, Option.filter_some, if_pos]
  exact decide_eq_true hhigh

/-- An unsigned text is an integer in range. -/
theorem parseU64_spec {n : Int} (h : parseU64 text = some n) :
    parseInt text = some n ∧ 0 ≤ n ∧ n < 2 ^ 64 := by
  unfold parseU64 at h
  split at h
  · cases h
  · rename_i hhead
    obtain ⟨hint, hhigh⟩ := Option.filter_eq_some_iff.mp h
    refine ⟨hint, ?_, of_decide_eq_true hhigh⟩
    obtain ⟨m, hm, rfl⟩ := Option.map_eq_some_iff.mp hint
    have hsign : (sign text.toList).1 = .positive := by
      unfold sign
      split
      · rename_i heq
        rw [heq, List.head?_cons] at hhead
        exact absurd rfl hhead
      · rfl
      · rfl
    rw [hsign]
    exact Int.natCast_nonneg m

/-! ## Floats -/

theorem not_finite_of_special {s : Sign} {text : List Char} {f : Float}
    (h : special s text = some f) : f.isFinite = false := by
  unfold special at h
  simp only at h
  split at h
  · cases h
    cases s <;> decide
  · split at h
    · cases h
      decide
    · cases h

theorem parseF64_spec {f : Float} (h : parseF64 text = some f) (hfinite : f.isFinite = true) :
    ∃ s m e, f = nearest s (scaled m e) ∧
      exact text = some (signed s (scaled m e)) := by
  unfold parseF64 at h
  unfold exact
  cases hu : unsigned (sign text.toList).2 with
  | none =>
    rw [hu] at h
    have hnot := not_finite_of_special h
    exact absurd (hnot.symm.trans hfinite) (by decide)
  | some n =>
    rw [hu] at h
    cases h
    exact ⟨_, _, _, rfl, rfl⟩

theorem scaled_nonneg (m : Nat) (e : Int) : 0 ≤ scaled m e := by
  unfold scaled
  split <;> positivity

/-- A text that stands for an integer is parsed to its rounding. -/
theorem toRat_parseF64 {f : Float} (h : parseF64 text = some f) (hfinite : f.isFinite = true)
    {n : Int} (hn : exact text = some (n : ℚ)) : toRat f = roundInt n := by
  obtain ⟨s, m, e, rfl, hexact⟩ := parseF64_spec h hfinite
  have hvalue : signed s (scaled m e) = n := Option.some.inj (hexact.symm.trans hn)
  have hpos := scaled_nonneg m e
  -- the number without its sign is a natural number
  obtain ⟨k, hk, happly⟩ : ∃ k : Nat, scaled m e = k ∧ s.apply k = n := by
    cases s with
    | positive =>
      have hvalue : scaled m e = n := hvalue
      have hn0 : 0 ≤ n := by
        rw [hvalue] at hpos
        exact_mod_cast hpos
      refine ⟨n.toNat, ?_, ?_⟩
      · rw [hvalue, cast_toNat hn0]
      · show (n.toNat : Int) = n
        omega
    | negative =>
      have hvalue : -scaled m e = n := hvalue
      have hscaled : scaled m e = ((-n : Int) : ℚ) := by
        push_cast
        linarith
      have hn0 : 0 ≤ -n := by
        rw [hscaled] at hpos
        exact_mod_cast hpos
      refine ⟨(-n).toNat, ?_, ?_⟩
      · rw [hscaled, cast_toNat hn0]
      · show -((-n).toNat : Int) = n
        omega
  rw [hk] at hfinite ⊢
  rw [toRat_nearest_nat hfinite]
  subst happly
  congr 1
  cases s with
  | positive => exact (if_pos (Int.natCast_nonneg k)).symm
  | negative =>
    show -(roundNat k : Int) = roundInt (-(k : Int))
    rcases Nat.eq_zero_or_pos k with rfl | hkpos
    · decide
    · unfold roundInt
      rw [if_neg (by omega), Int.neg_neg, Int.toNat_natCast]

/-- An integer within 2^53 is parsed to a finite double. -/
theorem parseF64_of_exact {n : Int} (hlow : -2 ^ 53 ≤ n) (hhigh : n ≤ 2 ^ 53)
    (h : exact text = some (n : ℚ)) : ∃ f, parseF64 text = some f ∧ f.isFinite = true := by
  unfold exact at h
  obtain ⟨⟨m, e⟩, hu, hvalue⟩ := Option.map_eq_some_iff.mp h
  have hpos := scaled_nonneg m e
  refine ⟨nearest (sign text.toList).1 (scaled m e), by rw [parseF64, hu], ?_⟩
  have hspec := (ofInt_spec (moderate_of_lt (n := n) (by omega) (by omega))).1
  cases hsign : (sign text.toList).1 with
  | positive =>
    rw [hsign] at hvalue
    have hvalue : scaled m e = n := hvalue
    rw [hvalue] at hpos ⊢
    rw [nearest_int (by exact_mod_cast hpos)]
    exact hspec
  | negative =>
    rw [hsign] at hvalue
    have hvalue : -scaled m e = n := hvalue
    have hscaled : scaled m e = ((-n : Int) : ℚ) := by
      push_cast
      linarith
    rw [hscaled] at hpos ⊢
    have hneg : 0 ≤ -n := by exact_mod_cast hpos
    rcases Int.lt_or_eq_of_le (show n ≤ 0 by omega) with hn | rfl
    · rw [nearest_neg hn]
      exact hspec
    · rw [Int.neg_zero, Int.cast_zero, nearest_zero]
      decide

theorem parseF64_toString (v : Int) : parseF64 (toString v) = some (Binary64.ofInt v) := by
  unfold parseF64
  rcases Int.lt_or_le v 0 with hv | hv
  · rw [toList_toString_of_neg hv]
    simp only [sign, unsigned_of_digits (digits_toDigits _), scaled_zero]
    rw [cast_toNat (by omega), nearest_neg hv]
  · obtain ⟨c, rest, hc, hdigit⟩ := toDigits_head v.toNat
    rw [toList_toString_of_nonneg hv, hc, sign_of_isDigit hdigit, ← hc]
    simp only [unsigned_of_digits (digits_toDigits _), scaled_zero]
    rw [cast_toNat hv, nearest_int hv]

end TedgeDot.Decimal
