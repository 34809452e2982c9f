import TedgeDot.Lib.Division
import TedgeDot.Lib.Spans
import TedgeDot.Sdk.Seconds
import TedgeDot.Sdk.TdotDuration

/-!
# Durations in both SDKs

Both SDKs accept the same duration strings (`durations_agree`). A duration of the C SDK is a double
of seconds: it is within a millisecond of the one of the Rust SDK, unless the string counts more
than `2 ^ 53` milliseconds, which no double counts exactly (`milliseconds_lost`).
-/

namespace TedgeDot.Duration

open Binary64

/-! ## The Rust scanner -/

/-- A character of a number, as the scanner takes them. -/
def isNumber (c : Char) : Bool := c.isDigit || c == '.'

def wellFormed (number : List Char) : Bool :=
  match splitOnce number with
  | some (whole, fraction) => digits whole && digits fraction
  | none => digits number

def scale (unit : String) : Option Float :=
  if unit == "" || unit == "s" then some 1.0
  else if unit == "m" then some 60.0
  else if unit == "h" then some 3600.0
  else none

/-- The duration of a scanned number and its unit. -/
def ofNumber (number : List Char) (unit : String) : Option Nat :=
  if !wellFormed number then none
  else if unit == "ms" then
    if number.contains '.' || 2 ^ 64 ≤ digitsValue number then none
    else some (fromMillis (digitsValue number))
  else (scale unit).bind fun scale => tryFromSecsF64 (parseF64 number * scale)

/-- The unit of a duration string, as the Rust SDK scans it. -/
def unit (s : String) : String :=
  String.ofList (trimC ((trimC s.toList).dropWhile isNumber))

theorem not_space_of_isNumber (c : Char) (h : isNumber c = true) : isCWhitespace c = false := by
  cases hspace : isCWhitespace c with
  | false => rfl
  | true =>
    simp only [isCWhitespace, Bool.or_eq_true, beq_iff_eq] at hspace
    rcases hspace with ((((rfl | rfl) | rfl) | rfl) | rfl) | rfl <;> exact absurd h (by decide)

theorem scanned (l : List Char) :
    (trimC l).takeWhile isNumber = (l.dropWhile isCWhitespace).takeWhile isNumber ∧
      trimC ((trimC l).dropWhile isNumber) =
        trimC ((l.dropWhile isCWhitespace).dropWhile isNumber) := by
  have htrim : trimC l = (l.dropWhile isCWhitespace).rdropWhile isCWhitespace := rfl
  obtain ⟨hnumber, hrest⟩ := span_rdropWhile not_space_of_isNumber (l.dropWhile isCWhitespace)
  rw [htrim, hnumber, hrest]
  exact ⟨rfl, trimBoth_rdropWhile _⟩

theorem parseDuration_eq (s : String) :
    parseDuration s = ofNumber ((s.toList.dropWhile isCWhitespace).takeWhile isNumber) (unit s) := by
  rw [← (scanned s.toList).1]
  rfl

/-! ## The shapes of a number -/

/-- The text begins with neither a digit nor a point. -/
def Ends (rest : List Char) : Prop := Stops isNumber rest

/-- How a text begins: a number without a point, a number with one, or one with a second point. -/
inductive Shape : List Char → Prop
  | whole {w rest : List Char} (hw : ∀ c ∈ w, c.isDigit = true) (hrest : Ends rest) :
      Shape (w ++ rest)
  | fraction {w f rest : List Char} (hw : ∀ c ∈ w, c.isDigit = true)
      (hf : ∀ c ∈ f, c.isDigit = true) (hrest : Ends rest) : Shape (w ++ '.' :: (f ++ rest))
  | points {w f rest : List Char} (hw : ∀ c ∈ w, c.isDigit = true)
      (hf : ∀ c ∈ f, c.isDigit = true) : Shape (w ++ '.' :: (f ++ '.' :: rest))

theorem ends_or_point {rest : List Char} (h : Stops Char.isDigit rest) :
    Ends rest ∨ ∃ rest', rest = '.' :: rest' := by
  cases rest with
  | nil => exact .inl stops_nil
  | cons c rest =>
    by_cases hc : c = '.'
    · exact .inr ⟨rest, by rw [hc]⟩
    · refine .inl (stops_cons.mpr ?_)
      simp [isNumber, stops_cons.mp h, hc]

theorem shape (text : List Char) : Shape text := by
  obtain ⟨w, rest, rfl, hw, hrest⟩ := exists_span Char.isDigit text
  rcases ends_or_point hrest with hends | ⟨rest, rfl⟩
  · exact .whole hw hends
  · obtain ⟨f, rest, rfl, hf, hrest⟩ := exists_span Char.isDigit rest
    rcases ends_or_point hrest with hends | ⟨rest, rfl⟩
    · exact .fraction hw hf hends
    · exact .points hw hf

section Shapes

variable {w f rest : List Char} (hw : ∀ c ∈ w, c.isDigit = true) (hf : ∀ c ∈ f, c.isDigit = true)

include hw

theorem isNumber_of_digits : ∀ c ∈ w, isNumber c = true := by
  intro c hc
  simp [isNumber, hw c hc]

theorem no_point : ∀ c ∈ w, (c != '.') = true := by
  intro c hc
  have hdigit := hw c hc
  simp only [bne_iff_ne, ne_eq]
  rintro rfl
  exact absurd hdigit (by decide)

theorem digits_iff : digits w = !w.isEmpty := by
  have hall : w.all Char.isDigit = true := List.all_eq_true.mpr hw
  rw [digits, hall, Bool.and_true]

theorem splitOnce_whole : splitOnce w = none := by
  have hnil : w.dropWhile (· != '.') = [] := List.dropWhile_eq_nil_iff.mpr (no_point hw)
  unfold splitOnce
  rw [hnil]

theorem splitOnce_point (tail : List Char) : splitOnce (w ++ '.' :: tail) = some (w, tail) := by
  have hstops : Stops (· != '.') ('.' :: tail) := stops_cons.mpr (by decide)
  unfold splitOnce
  rw [dropWhile_span (no_point hw) hstops, takeWhile_span (no_point hw) hstops]

theorem wellFormed_whole : wellFormed w = !w.isEmpty := by
  unfold wellFormed
  rw [splitOnce_whole hw]
  exact digits_iff hw

theorem contains_whole : w.contains '.' = false := by
  rw [List.contains_eq_any_beq, List.any_eq_false]
  intro c hc heq
  have hne := no_point hw c hc
  obtain rfl := beq_iff_eq.mp heq
  exact absurd hne (by decide)

theorem takeWhile_whole (hrest : Ends rest) : (w ++ rest).takeWhile isNumber = w :=
  takeWhile_span (isNumber_of_digits hw) hrest

theorem dropWhile_whole (hrest : Ends rest) : (w ++ rest).dropWhile isNumber = rest :=
  dropWhile_span (isNumber_of_digits hw) hrest

theorem takeWhile_isDigit (hrest : Stops Char.isDigit rest) :
    (w ++ rest).takeWhile Char.isDigit = w := takeWhile_span hw hrest

theorem dropWhile_isDigit (hrest : Stops Char.isDigit rest) :
    (w ++ rest).dropWhile Char.isDigit = rest := dropWhile_span hw hrest

omit hw in
theorem stops_of_ends (h : Ends rest) : Stops Char.isDigit rest := by
  intro c hc
  have hnumber := h c hc
  simp only [isNumber, Bool.or_eq_false_iff] at hnumber
  exact hnumber.1

omit hw in
theorem stops_point (tail : List Char) : Stops Char.isDigit ('.' :: tail) :=
  stops_cons.mpr (by decide)

include hf

theorem wellFormed_fraction : wellFormed (w ++ '.' :: f) = (!w.isEmpty && !f.isEmpty) := by
  unfold wellFormed
  rw [splitOnce_point hw]
  simp only [digits_iff hw, digits_iff hf]

theorem isNumber_of_fraction : ∀ c ∈ w ++ '.' :: f, isNumber c = true := by
  intro c hc
  rcases List.mem_append.mp hc with hc | hc
  · exact isNumber_of_digits hw c hc
  · rcases List.mem_cons.mp hc with rfl | hc
    · decide
    · exact isNumber_of_digits hf c hc

theorem takeWhile_fraction (hrest : Ends rest) :
    (w ++ '.' :: (f ++ rest)).takeWhile isNumber = w ++ '.' :: f := by
  have hassoc : w ++ '.' :: (f ++ rest) = (w ++ '.' :: f) ++ rest := by simp
  rw [hassoc, takeWhile_span (isNumber_of_fraction hw hf) hrest]

theorem dropWhile_fraction (hrest : Ends rest) :
    (w ++ '.' :: (f ++ rest)).dropWhile isNumber = rest := by
  have hassoc : w ++ '.' :: (f ++ rest) = (w ++ '.' :: f) ++ rest := by simp
  rw [hassoc, dropWhile_span (isNumber_of_fraction hw hf) hrest]

theorem wellFormed_points (rest : List Char) :
    wellFormed ((w ++ '.' :: (f ++ '.' :: rest)).takeWhile isNumber) = false := by
  have hassoc : w ++ '.' :: (f ++ '.' :: rest) = (w ++ '.' :: f) ++ '.' :: rest := by simp
  have hfirst : (w ++ '.' :: (f ++ '.' :: rest)).takeWhile isNumber =
      w ++ '.' :: (f ++ '.' :: rest.takeWhile isNumber) := by
    rw [hassoc, List.takeWhile_append_of_pos (isNumber_of_fraction hw hf)]
    simp [isNumber]
  unfold wellFormed
  rw [hfirst, splitOnce_point hw]
  simp [digits]

end Shapes

/-! ## Values -/

/-- A duration and a number of seconds differ by less than a millisecond. -/
def SameTime (n : Nat) (c : Float) : Prop := |(n : ℚ) / 10 ^ 9 - toRat c| < 1 / 1000

/-- The results of both SDKs for a unit: both accept, or neither does, and the lengths are the same
unless they count too many milliseconds. -/
structure Agree (unit : String) (rust : Option Nat) (c : Float) : Prop where
  accepted : rust.isSome = true ↔ ofInt 0 ≤ c
  length : ∀ n, rust = some n → (unit ≠ "ms" ∨ n ≤ fromMillis (2 ^ 53)) → SameTime n c

theorem agree_refused (unit : String) : Agree unit none TdotDuration.refused := by
  refine ⟨?_, fun n hn => by cases hn⟩
  have hnot : ¬ ofInt 0 ≤ TdotDuration.refused := by decide
  simp [hnot]

theorem sameTime_of_nearest {n : Nat} {c : Float} (h : Nearest n (toRat c)) : SameTime n c := by
  have hlimit : (1 : ℚ) / (2 * 10 ^ 9) < 1 / 1000 := by norm_num
  exact lt_of_le_of_lt h hlimit

theorem agree_seconds (unit : String) (x : Float) :
    Agree unit (tryFromSecsF64 x)
      (if x < ofInt 18446744073709551616 then x else TdotDuration.refused) := by
  obtain ⟨haccepted, hnearest⟩ := tryFromSecsF64_spec x
  by_cases hlimit : x < ofInt 18446744073709551616
  · rw [if_pos hlimit]
    refine ⟨?_, fun n hn _ => sameTime_of_nearest (hnearest n hn)⟩
    rw [haccepted]
    exact ⟨fun h => h.1, fun h => ⟨h, hlimit⟩⟩
  · have hnone : tryFromSecsF64 x = none := by
      rw [← Option.not_isSome_iff_eq_none, haccepted]
      exact fun h => hlimit h.2
    rw [if_neg hlimit, hnone]
    exact agree_refused unit

theorem ofInt_div_thousand {ms : Nat} (hpos : 0 < ms) (hmax : ms < 2 ^ 64) :
    (ofInt ms / ofInt 1000).isFinite = true ∧ ∃ (m : Nat) (e : Int),
      toRat (ofInt ms / ofInt 1000) = m * 2 ^ e ∧ Near (roundInt ms / 1000) m e := by
  have hthousand : roundInt 1000 = 1000 := by decide
  obtain ⟨hfinite, m, e, hvalue, hnear⟩ :=
    @ofInt_div ms 1000 (by omega) (by omega) (by decide) (by decide)
  refine ⟨hfinite, m, e, hvalue, ?_⟩
  rw [hthousand] at hnear
  exact_mod_cast hnear

theorem near_millisecond {q : ℚ} {m : Nat} {e : Int} (hq : q ≤ 2 ^ 53 / 1000) (h : Near q m e) :
    |(m : ℚ) * 2 ^ e - q| < 1 / 1000 := by
  have hm : (2 : ℚ) ^ 52 ≤ m := by exact_mod_cast h.low
  have hunit : (0 : ℚ) < 2 ^ e := by positivity
  have hproduct : (2 : ℚ) ^ 52 * 2 ^ e ≤ m * 2 ^ e := mul_le_mul_of_nonneg_right hm hunit.le
  have herror := h.error
  have hupper := (abs_le.mp herror).2
  have hexponent : e < -8 := by
    by_contra hlarge
    have hpow : (2 : ℚ) ^ (-8 : Int) ≤ 2 ^ e := zpow_le_zpow_right₀ (by norm_num) (by omega)
    norm_num at hpow hproduct hq
    linarith
  have hpow : (2 : ℚ) ^ e ≤ 2 ^ (-9 : Int) := zpow_le_zpow_right₀ (by norm_num) (by omega)
  have hlimit : (2 : ℚ) ^ (-9 : Int) / 2 < 1 / 1000 := by norm_num
  calc |(m : ℚ) * 2 ^ e - q| ≤ 2 ^ e / 2 := herror
    _ ≤ 2 ^ (-9 : Int) / 2 := div_le_div_of_nonneg_right hpow (by norm_num)
    _ < 1 / 1000 := hlimit

/-- Milliseconds below 2^64 are the same duration. -/
theorem agree_milliseconds {ms : Nat} (hmax : ms < 2 ^ 64) :
    Agree "ms" (some (fromMillis ms)) (ofInt ms / ofInt 1000) := by
  rcases Nat.eq_zero_or_pos ms with rfl | hpos
  · have hzero : ofInt ((0 : Nat) : Int) / ofInt 1000 = ofInt 0 := by decide
    rw [hzero]
    constructor
    · simp only [Option.isSome_some, true_iff]
      decide
    · intro n hn _
      obtain rfl := Option.some.inj hn
      show |((0 * 1000000 : Nat) : ℚ) / 10 ^ 9 - 0| < 1 / 1000
      norm_num
  · obtain ⟨hfinite, m, e, hvalue, hnear⟩ := ofInt_div_thousand hpos hmax
    constructor
    · simp only [Option.isSome_some, true_iff]
      rw [le_iff toRat_zero.1 hfinite, toRat_zero.2, hvalue]
      positivity
    · intro n hn hsmall
      obtain rfl := Option.some.inj hn
      have hsmall : ms ≤ 2 ^ 53 := by
        rcases hsmall with hunit | hle
        · exact absurd rfl hunit
        · simp only [fromMillis] at hle
          omega
      have hround : roundInt ms = ms := roundInt_of_le (by omega) (by exact_mod_cast hsmall)
      rw [hround] at hnear
      have hq : ((ms : Int) : ℚ) / 1000 ≤ 2 ^ 53 / 1000 := by
        have : (ms : ℚ) ≤ 2 ^ 53 := by exact_mod_cast hsmall
        rw [Int.cast_natCast]
        linarith
      -- a double near enough to the quotient, as the milliseconds are exact
      have hless := near_millisecond hq hnear
      unfold SameTime
      have hseconds : ((fromMillis ms : Nat) : ℚ) / 10 ^ 9 = ((ms : Int) : ℚ) / 1000 := by
        rw [fromMillis]
        push_cast
        ring
      rw [hseconds, hvalue, abs_sub_comm]
      exact hless

theorem ofList_beq (l : List Char) (t : String) :
    (String.ofList l == t) = decide (l = t.toList) := by
  rw [Bool.eq_iff_iff, beq_iff_eq, decide_eq_true_eq]
  constructor
  · rintro rfl
    rw [String.toList_ofList]
  · rintro rfl
    rw [String.ofList_toList]

theorem scale_ofList (unit : List Char) :
    scale (String.ofList unit) = TdotDuration.scale unit := by
  have hempty : "".toList = [] := rfl
  have hs : "s".toList = ['s'] := rfl
  have hm : "m".toList = ['m'] := rfl
  have hh : "h".toList = ['h'] := rfl
  unfold scale TdotDuration.scale
  simp only [ofList_beq, hempty, hs, hm, hh, Bool.or_eq_true, decide_eq_true_eq]

/-- A number with its unit. -/
theorem agree_valueOf {number text rest : List Char} {fraction : Bool}
    (hformed : wellFormed number = true) (hpoint : number.contains '.' = fraction)
    (hstrtod : TdotDuration.strtod text = parseF64 number)
    (hdigits : fraction = false → text.takeWhile Char.isDigit = number) :
    Agree (String.ofList (trimC rest)) (ofNumber number (String.ofList (trimC rest)))
      (TdotDuration.valueOf text fraction rest) := by
  have hms : "ms".toList = ['m', 's'] := rfl
  unfold ofNumber TdotDuration.valueOf
  simp only [hformed, Bool.not_true, Bool.false_eq_true, if_false, ofList_beq, hms,
    decide_eq_true_eq, hpoint]
  by_cases hunit : trimC rest = ['m', 's']
  · rw [if_pos hunit, if_pos hunit]
    cases fraction with
    | true => exact agree_refused _
    | false =>
      have hunit : String.ofList (trimC rest) = "ms" := by rw [hunit]
      simp only [Bool.false_or, decide_eq_true_eq, Bool.false_eq_true, if_false,
        TdotDuration.strtoull, hdigits rfl]
      by_cases hmax : digitsValue number < 2 ^ 64
      · rw [if_neg (by omega), if_pos hmax, hunit]
        exact agree_milliseconds hmax
      · rw [if_pos (by omega), if_neg hmax]
        exact agree_refused _
  · rw [if_neg hunit, if_neg hunit, scale_ofList]
    cases TdotDuration.scale (trimC rest) with
    | none => exact agree_refused _
    | some scale =>
      simp only [Option.bind_some, hstrtod]
      exact agree_seconds _ _

/-! ## Both scanners -/

theorem strtod_whole {w rest : List Char} (hw : ∀ c ∈ w, c.isDigit = true) (hrest : Ends rest) :
    TdotDuration.strtod (w ++ rest) = parseF64 w := by
  unfold TdotDuration.strtod
  rw [dropWhile_isDigit hw (stops_of_ends hrest), takeWhile_isDigit hw (stops_of_ends hrest)]
  split
  · rename_i tail
    have hpoint := stops_cons.mp hrest
    exact absurd hpoint (by decide)
  · rfl

theorem strtod_fraction {w f rest : List Char} (hw : ∀ c ∈ w, c.isDigit = true)
    (hf : ∀ c ∈ f, c.isDigit = true) (hrest : Ends rest) :
    TdotDuration.strtod (w ++ '.' :: (f ++ rest)) = parseF64 (w ++ '.' :: f) := by
  unfold TdotDuration.strtod
  rw [dropWhile_isDigit hw (stops_point _), takeWhile_isDigit hw (stops_point _)]
  simp only [takeWhile_isDigit hf (stops_of_ends hrest)]

theorem valueOf_point (text : List Char) (fraction : Bool) (rest : List Char) :
    TdotDuration.valueOf text fraction ('.' :: rest) = TdotDuration.refused := by
  have hspace : isCWhitespace '.' = false := by decide
  have hunit : trimC ('.' :: rest) = '.' :: rest.rdropWhile isCWhitespace := by
    show ((('.' :: rest).dropWhile isCWhitespace).rdropWhile isCWhitespace) = _
    rw [dropWhile_of_stops (stops_cons.mpr hspace), rdropWhile_cons hspace]
  unfold TdotDuration.valueOf TdotDuration.scale
  simp [hunit]

/-- The whole text, by the shape of its number. -/
theorem agree_scan (text : List Char) :
    Agree (String.ofList (trimC (text.dropWhile isNumber)))
      (ofNumber (text.takeWhile isNumber) (String.ofList (trimC (text.dropWhile isNumber))))
      (TdotDuration.scan text) := by
  -- a number that Rust refuses is one C does not scan as a whole
  have hrefused {number : List Char} {unit : String} (h : wellFormed number = false) :
      ofNumber number unit = none := by simp [ofNumber, h]
  cases shape text with
  | @whole w rest hw hrest =>
    rw [takeWhile_whole hw hrest, dropWhile_whole hw hrest]
    unfold TdotDuration.scan
    simp only [takeWhile_isDigit hw (stops_of_ends hrest),
      dropWhile_isDigit hw (stops_of_ends hrest)]
    have hformed := wellFormed_whole hw
    cases hempty : w.isEmpty with
    | true =>
      rw [hempty] at hformed
      rw [hrefused hformed]
      exact agree_refused _
    | false =>
      rw [hempty] at hformed
      simp only [Bool.false_eq_true, if_false]
      split
      · have hpoint := stops_cons.mp hrest
        exact absurd hpoint (by decide)
      · exact agree_valueOf hformed (contains_whole hw) (strtod_whole hw hrest)
          fun _ => takeWhile_isDigit hw (stops_of_ends hrest)
  | @fraction w f rest hw hf hrest =>
    rw [takeWhile_fraction hw hf hrest, dropWhile_fraction hw hf hrest]
    unfold TdotDuration.scan
    simp only [takeWhile_isDigit hw (stops_point _), dropWhile_isDigit hw (stops_point _),
      takeWhile_isDigit hf (stops_of_ends hrest), dropWhile_isDigit hf (stops_of_ends hrest)]
    have hformed := wellFormed_fraction hw hf
    cases hempty : w.isEmpty || f.isEmpty with
    | true =>
      have hformed : wellFormed (w ++ '.' :: f) = false := by
        rw [hformed, ← Bool.not_or, hempty]
        rfl
      rw [hrefused hformed]
      rcases Bool.or_eq_true_iff.mp hempty with hw' | hf'
      · simp only [hw', if_true]
        exact agree_refused _
      · simp only [hf', if_true, ite_self]
        exact agree_refused _
    | false =>
      have hformed : wellFormed (w ++ '.' :: f) = true := by
        rw [hformed, ← Bool.not_or, hempty]
        rfl
      obtain ⟨hw', hf'⟩ := Bool.or_eq_false_iff.mp hempty
      simp only [hw', hf', Bool.false_eq_true, if_false]
      have hcontains : (w ++ '.' :: f).contains '.' = true := by simp
      exact agree_valueOf hformed hcontains (strtod_fraction hw hf hrest)
        fun h => by cases h
  | @points w f rest hw hf =>
    rw [hrefused (wellFormed_points hw hf rest)]
    unfold TdotDuration.scan
    simp only [takeWhile_isDigit hw (stops_point _), dropWhile_isDigit hw (stops_point _),
      takeWhile_isDigit hf (stops_point _), dropWhile_isDigit hf (stops_point _), valueOf_point,
      ite_self]
    exact agree_refused _

/-- **One duration grammar**: both SDKs accept the same strings, and the lengths differ by less than
a millisecond, unless the string counts more than `2 ^ 53` milliseconds. A C string holds no zero. -/
theorem durations_agree {s : String} (hs : '\x00' ∉ s.toList) :
    ((parseDuration s).isSome = true ↔ ofInt 0 ≤ tdotDurationParse s) ∧
      ∀ n, parseDuration s = some n → (unit s ≠ "ms" ∨ n ≤ fromMillis (2 ^ 53)) →
        |(n : ℚ) / 10 ^ 9 - toRat (tdotDurationParse s)| < 1 / 1000 := by
  have hstring : TdotDuration.cString s = s.toList := by
    apply List.takeWhile_eq_self_iff.mpr
    intro c hc
    simp only [bne_iff_ne, ne_eq]
    rintro rfl
    exact hs hc
  have hunit : unit s =
      String.ofList (trimC ((s.toList.dropWhile isCWhitespace).dropWhile isNumber)) := by
    rw [unit, (scanned s.toList).2]
  have hagree := agree_scan (s.toList.dropWhile isCWhitespace)
  rw [← hunit, ← parseDuration_eq] at hagree
  unfold tdotDurationParse
  rw [hstring]
  exact ⟨hagree.accepted, hagree.length⟩

/-- Half a second. -/
theorem durations_agree_half : ((parseDuration "1.5 s").isSome = true ↔
    ofInt 0 ≤ tdotDurationParse "1.5 s") ∧
      |((1500000000 : Nat) : ℚ) / 10 ^ 9 - toRat (tdotDurationParse "1.5 s")| < 1 / 1000 := by
  obtain ⟨haccepted, hlength⟩ := @durations_agree "1.5 s" (by decide)
  exact ⟨haccepted, hlength 1500000000 (by decide) (.inl (by decide))⟩

/-- The largest count of milliseconds: the C SDK is more than a third of a second late. -/
theorem milliseconds_lost : '\x00' ∉ "18446744073709551615ms".toList ∧
    parseDuration "18446744073709551615ms" = some (fromMillis 18446744073709551615) ∧
    toRat (tdotDurationParse "18446744073709551615ms") = 18446744073709552 ∧
    ¬ |((fromMillis 18446744073709551615 : Nat) : ℚ) / 10 ^ 9 -
      toRat (tdotDurationParse "18446744073709551615ms")| < 1 / 1000 := by
  have hvalue : tdotDurationParse "18446744073709551615ms" = ofInt 18446744073709552 := by
    decide +kernel
  have hround : roundInt 18446744073709552 = 18446744073709552 := by decide
  have hmoderate : Moderate 18446744073709552 := by
    unfold Moderate
    decide
  have hrat : toRat (tdotDurationParse "18446744073709551615ms") = 18446744073709552 := by
    rw [hvalue, (ofInt_spec hmoderate).2, hround]
    norm_num
  refine ⟨by decide, by decide, hrat, ?_⟩
  rw [hrat, fromMillis]
  norm_num

end TedgeDot.Duration
