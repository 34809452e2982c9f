import TedgeDot.Lib.Rfc3339
import TedgeDot.Opcua.Render

/-!
# Instants

A DateTime counts ticks of 100 ns from 1601. Its text is read back here by the calendar, and its
milliseconds are compared with the same instant.

- `dateTime_rendered`: text and milliseconds of every DateTime.
-/

namespace TedgeDot.Opcua

open Binary64 Calendar Rfc3339

/-! ## Dates -/

/-- A day of a cycle of 400 years, by its century, its four years, its year and its day in this:
a year and a cycle of four years end with the leap day they may have. -/
theorem era_split {doe : Int} (h0 : 0 ≤ doe) (h1 : doe < 146097) :
    ∃ c q j doy : Int, (0 ≤ c ∧ c ≤ 3) ∧ (0 ≤ q ∧ q ≤ 24) ∧ (0 ≤ j ∧ j ≤ 3) ∧
      (0 ≤ doy ∧ doy ≤ 365) ∧ (doy = 365 → j = 3 ∧ (q = 24 → c = 3)) ∧
      doe = 36524 * c + 1461 * q + 365 * j + doy := by
  by_cases hlast : doe = 146096
  · exact ⟨3, 24, 3, 365, by omega⟩
  by_cases hleap : doe % 36524 % 1461 = 1460
  · exact ⟨doe / 36524, doe % 36524 / 1461, 3, 365, by omega⟩
  · exact ⟨doe / 36524, doe % 36524 / 1461, doe % 36524 % 1461 / 365, doe % 36524 % 1461 % 365,
      by omega⟩

theorem yearOfEra_eq {c q j doy doe : Int} (hc : 0 ≤ c ∧ c ≤ 3) (hq : 0 ≤ q ∧ q ≤ 24)
    (hj : 0 ≤ j ∧ j ≤ 3) (hd : 0 ≤ doy ∧ doy ≤ 365) (hl : doy = 365 → j = 3 ∧ (q = 24 → c = 3))
    (h : doe = 36524 * c + 1461 * q + 365 * j + doy) :
    (doe - doe / 1460 + doe / 36524 - doe / 146096) / 365 = 100 * c + 4 * q + j := by
  by_cases hlast : doe = 146096
  · subst hlast
    omega
  have hera : doe / 146096 = 0 := by omega
  have hcentury : doe / 36524 = c := by omega
  -- the days of four years are one more than four times a year's: late days count one too many
  have hfour : doe / 1460 = 25 * c + q ∨ (doe / 1460 = 25 * c + q + 1 ∧ 1000 ≤ 365 * j + doy) := by
    omega
  omega

/-- The date of a day number is a date of the calendar, with that number. -/
theorem civilFromDays_spec {z : Int} (h : -719468 ≤ z) :
    ∃ date : Date, civilFromDays z = ((date.year : Int), (date.month : Int), (date.day : Int)) ∧
      dayNumber date = z := by
  obtain ⟨era, hera, hpos⟩ : ∃ era : Int, (z + 719468) / 146097 = era ∧ 0 ≤ era :=
    ⟨_, rfl, by omega⟩
  obtain ⟨doe, hmod, h0, h1⟩ :
      ∃ doe : Int, (z + 719468) % 146097 = doe ∧ 0 ≤ doe ∧ doe < 146097 :=
    ⟨_, rfl, Int.emod_nonneg _ (by decide), Int.emod_lt_of_pos _ (by decide)⟩
  have hz : z = 146097 * era + doe - 719468 := by omega
  -- the day of the era as centuries, olympiads, years and a day
  obtain ⟨c, q, j, doy, hc, hq, hj, hd, hl, hdoe⟩ := era_split h0 h1
  have hyoe := yearOfEra_eq hc hq hj hd hl hdoe
  have hfour : (100 * c + 4 * q + j) / 4 = 25 * c + q := by
    clear * - hj
    omega
  have hcentury : (100 * c + 4 * q + j) / 100 = c := by
    clear * - hj hq
    omega
  obtain ⟨n, hn⟩ : ∃ n : Nat, (n : Int) = 400 * era + (100 * c + 4 * q + j) :=
    ⟨(400 * era + (100 * c + 4 * q + j)).toNat, Int.toNat_of_nonneg (by omega)⟩
  obtain ⟨k, hk⟩ : ∃ k : Nat, (k : Int) = doy := ⟨doy.toNat, Int.toNat_of_nonneg hd.1⟩
  have hdoy : doe - (365 * (100 * c + 4 * q + j) + (25 * c + q) - c) = k := by
    clear * - hdoe hk
    omega
  have hleap : k = 365 → IsLeap (n + 1) := by
    intro hlast
    obtain ⟨hthree, hcent⟩ := hl (by omega)
    clear * - hn hthree hcent hc hq
    unfold IsLeap
    omega
  obtain ⟨mp, hmp⟩ : ∃ mp, mp = (5 * k + 2) / 153 := ⟨_, rfl⟩
  obtain ⟨date, hy, hm, hday, hnumber⟩ := date_of_march n k (by omega) hleap hmp rfl rfl rfl
  refine ⟨date, ?_, ?_⟩
  · have hmonth : (5 * (k : Int) + 2) / 153 = mp := by
      clear * - hmp
      omega
    have hpart : (153 * mp + 2) / 5 ≤ k := by
      clear * - hmp
      omega
    clear * - hy hm hday hn hk hd hera hmod hyoe hfour hcentury hdoy hmonth hpart
    simp only [civilFromDays, hera, hmod, hyoe, hfour, hcentury, hdoy, hmonth, Prod.mk.injEq]
    by_cases hten : mp < 10
    · have hten' : (mp : Int) < 10 := by exact_mod_cast hten
      rw [if_pos hten, if_neg (show ¬ mp + 3 ≤ 2 by omega)] at hy
      rw [if_pos hten] at hm
      rw [if_pos hten', if_neg (show ¬ (mp : Int) + 3 ≤ 2 by omega)]
      clear hyoe hfour hcentury hdoy hera hmod
      omega
    · have hten' : ¬ (mp : Int) < 10 := by exact_mod_cast hten
      have heleven : mp ≤ 11 := by
        clear * - hmonth hk hd
        omega
      rw [if_neg hten, if_pos (show mp - 9 ≤ 2 by omega)] at hy
      rw [if_neg hten] at hm
      rw [if_neg hten', if_pos (show (mp : Int) - 9 ≤ 2 by omega)]
      clear hyoe hfour hcentury hdoy hera hmod
      omega
  · have h4 : (n : Int) / 4 = 100 * era + 25 * c + q := by
      clear * - hn hj
      omega
    have h100 : (n : Int) / 100 = 4 * era + c := by
      clear * - hn hj hq
      omega
    have h400 : (n : Int) / 400 = era := by
      clear * - hn hj hq hc
      omega
    rw [hnumber, h4, h100, h400]
    clear * - hn hk hz hdoe
    omega

/-! ## Texts -/

/-- `ticks.clamp(0, MAX_TICKS)`. -/
def clampTicks (ticks : Int64) : Int := max 0 (min ticks.toInt MAX_TICKS)

/-- Seconds after 1970-01-01T00:00:00Z. -/
def unixSeconds (t : Int) : ℚ := ((t - UNIX_EPOCH_TICKS : Int) : ℚ) / 10000000

/-- What stands behind the whole seconds of a text. -/
def fractionText (frac : Int) : List Char :=
  if frac ≠ 0 then '.' :: (trimZeros (pad 7 frac.toNat) ++ ['Z']) else ['Z']

/-- A text with a point has no zero at its end. -/
def NoTrailingZero (text : String) : Prop :=
  ∀ before digits, text.toList ≠ before ++ '.' :: (digits ++ ['0', 'Z'])

theorem dayNumber_year_lt {date : Date} (h : dayNumber date < 2932897) : date.year < 10000 := by
  by_contra hyear
  have hvalue := daysBeforeYear_eq date.year
  have hday := date.valid.2.1
  unfold dayNumber at h
  omega

theorem toList_padded (width : Nat) (n : Int) : (padded width n).toList = pad width n.toNat :=
  String.toList_ofList

/-- The text of the ticks is that of their second, and the fraction. -/
theorem datetimeText_spec {t : Int} (h0 : 0 ≤ t) (h1 : t ≤ MAX_TICKS) :
    ∃ s : Stamp, s.seconds = t / 10000000 - 11644473600 ∧
      datetimeText t = String.ofList (s.chars ++ fractionText (t % 10000000)) := by
  unfold MAX_TICKS at h1
  set secs := t / 10000000 - 11644473600 with hsecs
  obtain ⟨date, hcivil, hnumber⟩ := @civilFromDays_spec (secs / 86400) (by omega)
  have hyear : date.year < 10000 := dayNumber_year_lt (by omega)
  let s : Stamp :=
    { date := date
      hour := (secs % 86400 / 3600).toNat
      minute := (secs % 86400 / 60 % 60).toNat
      second := (secs % 86400 % 60).toNat
      year_lt := hyear
      hour_lt := by omega
      minute_lt := by omega
      second_lt := by omega }
  refine ⟨s, ?_, ?_⟩
  · simp only [s, Stamp.seconds, hnumber]
    omega
  · have hepoch : t / 10000000 - UNIX_EPOCH_TICKS / 10000000 = secs := by
      unfold UNIX_EPOCH_TICKS
      omega
    apply String.toList_inj.mp
    simp only [datetimeText, hepoch, hcivil, s, Stamp.chars, fractionText]
    by_cases hfrac : t % 10000000 = 0
    · simp [hfrac, toList_padded]
    · simp [hfrac, toList_padded, trimZeros]

theorem fractionOf_text {frac : Int} (h0 : 0 ≤ frac) (h1 : frac < 10000000) :
    fractionOf (fractionText frac) = some ((frac : ℚ) / 10000000) := by
  by_cases hfrac : frac = 0
  · rw [fractionText, if_neg (not_not.mpr hfrac), hfrac]
    simp [fractionOf]
  · rw [fractionText, if_pos hfrac, fractionOf_trimZeros (by decide) (by omega) (by omega)]
    have hcast : ((frac.toNat : Nat) : ℚ) = (frac : ℚ) := by
      exact_mod_cast Int.toNat_of_nonneg h0
    rw [hcast]
    norm_num

theorem instant_datetimeText {t : Int} (h0 : 0 ≤ t) (h1 : t ≤ MAX_TICKS) :
    instant (datetimeText t) = some (unixSeconds t) := by
  obtain ⟨s, hseconds, htext⟩ := datetimeText_spec h0 h1
  rw [htext, instant_stamp s (fractionOf_text (Int.emod_nonneg t (by decide))
    (Int.emod_lt_of_pos t (by decide))), hseconds]
  have hsplit : t - UNIX_EPOCH_TICKS =
      (t / 10000000 - 11644473600) * 10000000 + t % 10000000 := by
    unfold UNIX_EPOCH_TICKS
    omega
  rw [unixSeconds, hsplit]
  push_cast
  ring_nf

theorem point_not_mem_chars (s : Stamp) : '.' ∉ s.chars := by
  have hpad : ∀ width n, '.' ∉ pad width n := by
    intro width n hmem
    exact absurd (isDigit_of_mem_pad hmem) (by decide)
  simp [Stamp.chars, hpad]

/-- The fraction does not end in zero. -/
theorem noTrailingZero_datetimeText {t : Int} (h0 : 0 ≤ t) (h1 : t ≤ MAX_TICKS) :
    NoTrailingZero (datetimeText t) := by
  obtain ⟨s, -, htext⟩ := datetimeText_spec h0 h1
  intro before ds h
  rw [htext, String.toList_ofList, fractionText] at h
  split at h
  · -- the point of the text is the one behind its stamp
    rename_i hfrac
    have hlast : (s.chars ++ '.' :: trimZeros (pad 7 (t % 10000000).toNat)) ++ ['Z'] =
        ((before ++ '.' :: ds) ++ ['0']) ++ ['Z'] := by simpa using h
    have hzero := List.append_cancel_right hlast
    have hne := @trimZeros_ne_nil 7 (t % 10000000).toNat (by decide) (by omega) (by omega)
    obtain hnil | ⟨init, c, hc⟩ := List.eq_nil_or_concat (trimZeros (pad 7 (t % 10000000).toNat))
    · exact hne hnil
    · rw [List.concat_eq_append] at hc
      rw [hc] at hzero
      have hend : (s.chars ++ '.' :: init) ++ [c] = (before ++ '.' :: ds) ++ ['0'] := by
        simpa using hzero
      obtain ⟨-, hsame⟩ := List.append_inj' hend rfl
      obtain rfl : c = '0' := by simpa using hsame
      exact trimZeros_ne_append_zero _ init hc
  · have hmem : '.' ∈ s.chars ++ ['Z'] := by
      rw [h]
      simp
    rcases List.mem_append.mp hmem with hchars | hz
    · exact point_not_mem_chars s hchars
    · exact absurd hz (by decide)

theorem datetimeText_lt {t u : Int} (ht0 : 0 ≤ t) (ht1 : t ≤ MAX_TICKS) (hu0 : 0 ≤ u)
    (hu1 : u ≤ MAX_TICKS) (ht : 10000000 ∣ t) (hu : 10000000 ∣ u) (h : t < u) :
    datetimeText t < datetimeText u := by
  obtain ⟨s, hseconds, htext⟩ := datetimeText_spec ht0 ht1
  obtain ⟨s', hseconds', htext'⟩ := datetimeText_spec hu0 hu1
  have hfrac : t % 10000000 = 0 := Int.emod_eq_zero_of_dvd ht
  have hfrac' : u % 10000000 = 0 := Int.emod_eq_zero_of_dvd hu
  rw [htext, htext', hfrac, hfrac', String.lt_iff, String.toList_ofList, String.toList_ofList]
  exact stamp_lt (by omega) [] []

/-! ## Rendering -/

theorem clampTicks_bounds (ticks : Int64) : 0 ≤ clampTicks ticks ∧ clampTicks ticks ≤ MAX_TICKS := by
  unfold clampTicks MAX_TICKS
  omega

theorem int64Value_millis {t : Int} (h0 : 0 ≤ t) (h1 : t ≤ MAX_TICKS) :
    ∃ value, int64Value (Int64.ofInt ((t - UNIX_EPOCH_TICKS) / 10000)) = .ok (.number value) ∧
      toRat value = ((t - UNIX_EPOCH_TICKS) / 10000 : Int) := by
  unfold MAX_TICKS at h1
  set ms := (t - UNIX_EPOCH_TICKS) / 10000 with hms
  unfold UNIX_EPOCH_TICKS at hms
  have hback : (Int64.ofInt ms).toInt = ms := Int64.toInt_ofInt_of_le (by omega) (by omega)
  have hne : Int64.ofInt ms ≠ Int64.minValue := by
    intro h
    have hint := congrArg Int64.toInt h
    rw [hback, Int64.toInt_minValue] at hint
    omega
  have hsafe : (ms.natAbs : Int) ≤ MAX_SAFE_INT := by
    unfold MAX_SAFE_INT
    omega
  refine ⟨ofInt ms, ?_, ?_⟩
  · rw [int64Value, if_neg hne, hback, if_pos hsafe]
  · rw [(ofInt_spec (moderate_of_lt (by omega) (by omega))).2,
      roundInt_of_le (by omega) (by omega)]

/-- The text of a DateTime is RFC 3339 and denotes the clamped ticks, so that two instants have two
texts, and the order of texts is the order of time on whole seconds. Its milliseconds are the
same instant's, rounded down. -/
theorem dateTime_rendered (statusName : UInt32 → Option String) (namespaces : List String)
    (ticks ticks' : Int64) :
    (∀ dt, dt ≠ .int64 → render statusName dt namespaces (.dateTime ticks) =
      .ok (.text (datetimeText (clampTicks ticks)),
        Utf8.encode (datetimeText (clampTicks ticks)))) ∧
    instant (datetimeText (clampTicks ticks)) = some (unixSeconds (clampTicks ticks)) ∧
    NoTrailingZero (datetimeText (clampTicks ticks)) ∧
    (datetimeText (clampTicks ticks) = datetimeText (clampTicks ticks') ↔
      clampTicks ticks = clampTicks ticks') ∧
    (10000000 ∣ clampTicks ticks → 10000000 ∣ clampTicks ticks' →
      (datetimeText (clampTicks ticks) < datetimeText (clampTicks ticks') ↔
        clampTicks ticks < clampTicks ticks')) ∧
    ∃ value, render statusName .int64 namespaces (.dateTime ticks) =
        .ok (.number value, toBeBytes 8 (clampTicks ticks).toNat) ∧
      toRat value = (⌊unixSeconds (clampTicks ticks) * 1000⌋ : ℤ) := by
  set t := clampTicks ticks with hclamp
  set t' := clampTicks ticks'
  obtain ⟨h0, h1⟩ := clampTicks_bounds ticks
  obtain ⟨h0', h1'⟩ := clampTicks_bounds ticks'
  have hinstant := instant_datetimeText h0 h1
  refine ⟨?_, hinstant, noTrailingZero_datetimeText h0 h1, ?_, ?_, ?_⟩
  · intro dt hdt
    rw [render, if_neg hdt]
    rfl
  · refine ⟨fun h => ?_, fun h => congrArg datetimeText h⟩
    have hinstant' := instant_datetimeText h0' h1'
    have hsame : unixSeconds t = unixSeconds t' :=
      Option.some.inj (hinstant.symm.trans ((congrArg instant h).trans hinstant'))
    have hticks : ((t - UNIX_EPOCH_TICKS : Int) : ℚ) = ((t' - UNIX_EPOCH_TICKS : Int) : ℚ) :=
      (div_left_inj' (by norm_num)).mp hsame
    -- equal instants mean equal ticks
    have hint : t - UNIX_EPOCH_TICKS = t' - UNIX_EPOCH_TICKS := by exact_mod_cast hticks
    omega
  · intro ht ht'
    refine ⟨fun h => ?_, datetimeText_lt h0 h1 h0' h1' ht ht'⟩
    rcases lt_trichotomy t t' with hlt | heq | hgt
    · exact hlt
    · exact absurd (heq ▸ h) (lt_irrefl _)
    · exact absurd h (datetimeText_lt h0' h1' h0 h1 ht' ht hgt).asymm
  · obtain ⟨value, hvalue, hrat⟩ := int64Value_millis h0 h1
    refine ⟨value, ?_, ?_⟩
    · have hrender : render statusName .int64 namespaces (.dateTime ticks) =
          (int64Value (Int64.ofInt ((t - UNIX_EPOCH_TICKS) / 10000))).bind
            fun value => .ok (value, toBeBytes 8 t.toNat) := rfl
      rw [hrender, hvalue]
      rfl
    · rw [hrat]
      have hms : unixSeconds t * 1000 = ((t - UNIX_EPOCH_TICKS : Int) : ℚ) / ((10000 : ℕ) : ℚ) := by
        unfold unixSeconds
        push_cast
        ring
      rw [hms, Rat.floor_intCast_div_natCast]
      rfl

end TedgeDot.Opcua
