import TedgeDot.Lib.Binary64

/-!
# Division of floats

A quotient is rounded to the nearest float: where dividend, divisor and quotient are of moderate
size, the float lies within half a unit in its last place (`Near`) of the exact quotient.

- `Quotient.shift`, `Quotient.near`: the mantissa of a quotient through its shifts, and what it
  rounds to.
- `div_normal`, `ofInt_div`: the quotient of two normal floats, and of two integers.
-/

namespace TedgeDot.Binary64

open Float.Model Float.Model.UnpackedFloat

/-! ## The mantissa of a quotient -/

/-- The quotient with its rounding digits. -/
theorem quotient_of_fraction (n : Nat) {d : Nat} (hd : 0 < d) :
    Quotient n d (ExtendedMantissa.ofMantissaAndAccuracy (n / d) (accuracyOfFraction (n % d) d)) := by
  have hr := Nat.mod_lt n hd
  unfold accuracyOfFraction
  by_cases hzero : n % d = 0
  · rw [if_pos hzero]
    refine ⟨rfl, ?_, ?_⟩
    · show false = _
      rw [hzero]
      simp
      omega
    · show false = _
      rw [hzero]
      simp
  · rw [if_neg hzero]
    -- the remainder against half of the divisor
    rcases lt_trichotomy (2 * (n % d)) d with hlt | heq | hgt
    · rw [compare_lt_iff_lt.mpr hlt]
      refine ⟨rfl, ?_, ?_⟩
      · show false = _
        simp
        omega
      · show true = _
        rw [Nat.mod_eq_of_lt hlt]
        simp
        omega
    · rw [compare_eq_iff_eq.mpr heq]
      refine ⟨rfl, ?_, ?_⟩
      · show true = _
        rw [heq]
        simp
      · show false = _
        rw [heq]
        simp
    · rw [compare_gt_iff_gt.mpr hgt]
      refine ⟨rfl, ?_, ?_⟩
      · show true = _
        simp
        omega
      · show true = _
        rw [Nat.mod_eq_sub_mod hgt.le, Nat.mod_eq_of_lt (by omega)]
        simp
        omega

variable {em : ExtendedMantissa}

theorem Quotient.shift {n d : Nat} (hd : 0 < d) (h : Quotient n d em) (k : Nat) :
    Quotient n (d * 2 ^ k) (em >>> k) := by
  induction k with
  | zero =>
    rw [Nat.pow_zero, Nat.mul_one]
    exact h
  | succ k ih =>
    rw [Nat.pow_succ, ← Nat.mul_assoc]
    exact ih.step (Nat.mul_pos hd (Nat.two_pow_pos k))

theorem Quotient.near {n d : Nat} (hd : 0 < d) (h : Quotient n d em) :
    2 * (em.roundedMantissa * d) ≤ 2 * n + d ∧ 2 * n ≤ 2 * (em.roundedMantissa * d) + d := by
  have hdiv := Nat.div_add_mod' n d
  have hr := Nat.mod_lt n hd
  have hstep : (n / d + 1) * d = n / d * d + d := Nat.succ_mul _ _
  rw [h.rounded hd]
  split
  · omega
  · split
    · rw [hstep]
      omega
    · rcases Nat.mod_two_eq_zero_or_one (n / d) with heven | hodd
      · rw [heven, Nat.add_zero]
        omega
      · rw [hodd, hstep]
        omega

theorem Quotient.bounds {n d : Nat} (hd : 0 < d) (h : Quotient n d em) :
    n / d ≤ em.roundedMantissa ∧ em.roundedMantissa ≤ n / d + 1 := by
  rw [h.rounded hd]
  split
  · omega
  · split <;> omega

/-! ## Rounding a quotient -/

/-- A mantissa that is rounded stays normal. -/
theorem roundWithAccuracy_normal {s : Sign} {p : Nat} {t : Int} {acc : Accuracy} {e : Int}
    (hshift : shiftToTargetExponent Format.binary64 p t acc = (em, e)) (he : -1074 ≤ e)
    (hlow : 2 ^ 52 ≤ em.roundedMantissa) (hhigh : em.roundedMantissa ≤ 2 ^ 53) :
    ∃ m e' hm, roundWithAccuracy Format.binary64 s p t acc = .finite s m e' hm ∧ 2 ^ 52 ≤ m ∧
      m < 2 ^ 53 ∧ e ≤ e' ∧ e' ≤ e + 1 ∧ (m : ℚ) * 2 ^ e' = em.roundedMantissa * 2 ^ e := by
  have hround {em₂ : ExtendedMantissa} {e₂ : Int}
      (h₂ : shiftToTargetExponent Format.binary64 em.roundedMantissa e .exact = (em₂, e₂))
      (hpos : 0 < em₂.mantissa) :
      roundWithAccuracy Format.binary64 s p t acc = .finite s em₂.mantissa e₂ hpos := by
    unfold roundWithAccuracy
    simp only [hshift, h₂]
    rw [dif_neg hpos.ne']
  rcases Nat.lt_or_eq_of_le hhigh with hlt | heq
  · have hsame := shiftToTargetExponent_of_normal hlow hlt he
    have hpos : 0 < em.roundedMantissa := by omega
    exact ⟨em.roundedMantissa, e, hpos, hround hsame hpos, hlow, hlt, le_rfl, by omega, rfl⟩
  · -- the mantissa rounded up to one bit more
    have hmore : shiftToTargetExponent Format.binary64 em.roundedMantissa e .exact =
        (⟨2 ^ 52, false, false⟩, e + 1) := by
      have htarget : Format.binary64.targetExponent (totalExponent (2 ^ 53) e) = e + 1 := by
        rw [totalExponent, Format.targetExponent, Nat.log2_two_pow]
        simp only [Format.mantissaBits, Format.minExponent]
        omega
      rw [heq]
      unfold shiftToTargetExponent
      simp only [htarget, shiftToExponent]
      rw [show (e + 1 - e).toNat = 1 by omega]
      rfl
    refine ⟨2 ^ 52, e + 1, by decide, hround hmore (by decide), le_rfl, by decide, by omega,
      le_rfl, ?_⟩
    rw [heq, zpow_add_one₀ (by norm_num)]
    push_cast
    ring

/-- A float in normal form, within half a unit in the last place of a number. -/
structure Near (x : ℚ) (m : Nat) (e : Int) : Prop where
  low : 2 ^ 52 ≤ m
  high : m < 2 ^ 53
  error : |(m : ℚ) * 2 ^ e - x| ≤ 2 ^ e / 2

/-- The quotient of two normal doubles is near their ratio. -/
theorem div_normal {m₁ m₂ : Nat} {e₁ e₂ : Int} {h₁ : 0 < m₁} {h₂ : 0 < m₂}
    (hm₁ : 2 ^ 52 ≤ m₁ ∧ m₁ < 2 ^ 53) (hm₂ : 2 ^ 52 ≤ m₂ ∧ m₂ < 2 ^ 53)
    (hlow : -1000 ≤ e₁ - e₂) (hhigh : e₁ - e₂ ≤ 1000) :
    ∃ m e hm, UnpackedFloat.div Format.binary64 (.finite .positive m₁ e₁ h₁)
        (.finite .positive m₂ e₂ h₂) = .finite .positive m e hm ∧ -1074 ≤ e ∧ e ≤ 971 ∧
      Near (m₁ * 2 ^ e₁ / (m₂ * 2 ^ e₂)) m e := by
  have hlog₁ : m₁.log2 = 52 := (Nat.log2_eq_iff h₁.ne').mpr hm₁
  have hlog₂ : m₂.log2 = 52 := (Nat.log2_eq_iff h₂.ne').mpr hm₂
  have htarget : Format.binary64.targetExponent (totalExponent m₁ e₁ - totalExponent m₂ e₂) =
      e₁ - e₂ - 53 := by
    rw [totalExponent, totalExponent, hlog₁, hlog₂, Format.targetExponent]
    simp only [Format.mantissaBits, Format.minExponent]
    omega
  -- the quotient has 53 or 54 bits
  let n := m₁ * 2 ^ 53
  let p := n / m₂
  have hcore : divCore Format.binary64 m₁ e₁ m₂ e₂ =
      (p, e₁ - e₂ - 53, accuracyOfFraction (n % m₂) m₂) := by
    unfold divCore
    simp only [htarget]
    rw [Int.min_eq_right (by omega), show (e₁ - e₂ - (e₁ - e₂ - 53)).toNat = 53 by omega,
      Nat.shiftLeft_eq]
  have hplow : 2 ^ 52 ≤ p := by
    apply (Nat.le_div_iff_mul_le h₂).mpr
    show 2 ^ 52 * m₂ ≤ m₁ * 2 ^ 53
    omega
  have hphigh : p < 2 ^ 54 := by
    apply (Nat.div_lt_iff_lt_mul h₂).mpr
    show m₁ * 2 ^ 53 < 2 ^ 54 * m₂
    omega
  obtain ⟨k, hk, hpk⟩ : ∃ k ≤ 1, p.log2 = 52 + k := by
    have hge : 52 ≤ p.log2 := (Nat.le_log2 (by omega)).mpr hplow
    have hlt : p.log2 < 54 := (Nat.log2_lt (by omega)).mpr hphigh
    exact ⟨p.log2 - 52, by omega, by omega⟩
  let em := ExtendedMantissa.ofMantissaAndAccuracy p (accuracyOfFraction (n % m₂) m₂) >>> k
  have hshift : shiftToTargetExponent Format.binary64 p (e₁ - e₂ - 53)
      (accuracyOfFraction (n % m₂) m₂) = (em, e₁ - e₂ - 53 + k) := by
    have htarget' : Format.binary64.targetExponent (totalExponent p (e₁ - e₂ - 53)) =
        e₁ - e₂ - 53 + k := by
      rw [totalExponent, hpk, Format.targetExponent]
      simp only [Format.mantissaBits, Format.minExponent]
      omega
    unfold shiftToTargetExponent
    simp only [htarget', shiftToExponent]
    rw [show (e₁ - e₂ - 53 + (k : Int) - (e₁ - e₂ - 53)).toNat = k by omega]
  have hquotient : Quotient n (m₂ * 2 ^ k) em := (quotient_of_fraction n h₂).shift h₂ k
  have hd : 0 < m₂ * 2 ^ k := Nat.mul_pos h₂ (Nat.two_pow_pos k)
  -- shifted, it has 53 bits
  have hfloor : n / (m₂ * 2 ^ k) = p / 2 ^ k := (Nat.div_div_eq_div_mul _ _ _).symm
  have hfloorLow : 2 ^ 52 ≤ p / 2 ^ k := by
    apply (Nat.le_div_iff_mul_le (Nat.two_pow_pos k)).mpr
    rw [← pow_add, ← hpk]
    exact Nat.log2_self_le (by omega)
  have hfloorHigh : p / 2 ^ k < 2 ^ 53 := by
    apply (Nat.div_lt_iff_lt_mul (Nat.two_pow_pos k)).mpr
    rw [← pow_add, show 53 + k = p.log2 + 1 by omega]
    exact Nat.lt_log2_self
  have hbounds := hquotient.bounds hd
  rw [hfloor] at hbounds
  obtain ⟨m, e, hm, hround, hmlow, hmhigh, helow, hehigh, hvalue⟩ :=
    roundWithAccuracy_normal (s := .positive / .positive) hshift (by omega)
      (by omega) (by omega)
  refine ⟨m, e, hm, ?_, by omega, by omega, hmlow, hmhigh, ?_⟩
  · unfold UnpackedFloat.div
    simp only [hcore]
    exact hround
  · obtain ⟨hupper, hlower⟩ := hquotient.near hd
    have hk2 : (0 : ℚ) < 2 ^ k := by positivity
    have hm2 : (0 : ℚ) < m₂ := by exact_mod_cast h₂
    have hupper : 2 * ((em.roundedMantissa : ℚ) * (m₂ * 2 ^ k)) ≤ 2 * n + m₂ * 2 ^ k := by
      exact_mod_cast hupper
    have hlower : 2 * (n : ℚ) ≤ 2 * (em.roundedMantissa * (m₂ * 2 ^ k)) + m₂ * 2 ^ k := by
      exact_mod_cast hlower
    -- the exact quotient, in units of the exponent after the shift
    let unit : ℚ := 2 ^ (e₁ - e₂ - 53 + k)
    have hunit : 0 < unit := by positivity
    have hexact : (m₁ : ℚ) * 2 ^ e₁ / (m₂ * 2 ^ e₂) = n / (m₂ * 2 ^ k) * unit := by
      have hz : (2 : ℚ) ≠ 0 := by norm_num
      have hpow : unit = 2 ^ e₁ / 2 ^ e₂ / 2 ^ 53 * 2 ^ k := by
        show (2 : ℚ) ^ (e₁ - e₂ - 53 + (k : Int)) = _
        rw [zpow_add₀ hz, zpow_sub₀ hz, zpow_sub₀ hz, zpow_natCast]
        rfl
      have hn : (n : ℚ) = m₁ * 2 ^ 53 := by
        show ((m₁ * 2 ^ 53 : Nat) : ℚ) = _
        push_cast
        rfl
      rw [hpow, hn]
      field_simp
    have hhalf : |(em.roundedMantissa : ℚ) - n / (m₂ * 2 ^ k)| ≤ 1 / 2 := by
      have hdpos : (0 : ℚ) < m₂ * 2 ^ k := mul_pos hm2 hk2
      rw [abs_le]
      constructor
      · rw [neg_le_sub_iff_le_add, div_le_iff₀ hdpos]
        linarith
      · rw [sub_le_iff_le_add, ← sub_le_iff_le_add', le_div_iff₀ hdpos]
        linarith
    have hle : unit ≤ 2 ^ e := zpow_le_zpow_right₀ (by norm_num) helow
    rw [hvalue, hexact]
    show |(em.roundedMantissa : ℚ) * unit - n / (m₂ * 2 ^ k) * unit| ≤ _
    rw [← sub_mul, abs_mul, abs_of_pos hunit]
    calc |(em.roundedMantissa : ℚ) - n / (m₂ * 2 ^ k)| * unit ≤ 1 / 2 * unit :=
          mul_le_mul_of_nonneg_right hhalf hunit.le
      _ ≤ 2 ^ e / 2 := by linarith

/-! ## Quotients of integers -/

/-- A positive integer is a normal double. -/
theorem ofInt_normal {n : Int} (hn : 0 < n) (hmax : n < 2 ^ 64) :
    ∃ m e hm, (ofInt n).toModel.unpack = .finite .positive m e hm ∧ 2 ^ 52 ≤ m ∧ m < 2 ^ 53 ∧
      -52 ≤ e ∧ e ≤ 12 ∧ (m : ℚ) * 2 ^ e = roundInt n := by
  have hlog : n.toNat.log2 ≤ 1000 := by
    have habs : n.natAbs = n.toNat := by omega
    rw [← habs]
    exact moderate_of_lt (by omega) hmax
  have hround := round_nat (s := .positive) (by omega : 0 < n.toNat) hlog
  obtain ⟨m, e, hm, hf, hlow, hhigh, helow, -, hvalue⟩ := hround.finite
  rw [← roundInt_of_nonneg hn.le] at hvalue
  refine ⟨m, e, hm, (unpack_ofInt_of_pos hn hlog).trans hf, hlow, hhigh, helow, ?_, hvalue⟩
  -- a larger exponent would make more than `2 ^ 64`
  by_contra hlarge
  have hpow : (2 : ℚ) ^ (13 : Int) ≤ 2 ^ e := zpow_le_zpow_right₀ (by norm_num) (by omega)
  have hm52 : (2 : ℚ) ^ 52 ≤ m := by exact_mod_cast hlow
  have hle : roundInt n ≤ roundInt (2 ^ 64) := roundInt_mono hmax.le
  have hle : (roundInt n : ℚ) ≤ 2 ^ 64 := by
    have h64 : roundInt (2 ^ 64) = 2 ^ 64 := by decide
    rw [h64] at hle
    exact_mod_cast hle
  have hmul : (2 : ℚ) ^ 52 * 2 ^ (13 : Int) ≤ m * 2 ^ e :=
    mul_le_mul hm52 hpow (by positivity) (by positivity)
  rw [hvalue] at hmul
  norm_num at hmul hle
  linarith

theorem ofInt_div {a b : Int} (ha : 0 < a) (hamax : a < 2 ^ 64) (hb : 0 < b) (hbmax : b < 2 ^ 64) :
    (ofInt a / ofInt b).isFinite = true ∧
      ∃ (m : Nat) (e : Int), toRat (ofInt a / ofInt b) = m * 2 ^ e ∧
        Near (roundInt a / roundInt b) m e := by
  obtain ⟨m₁, e₁, h₁, hunpack₁, hlow₁, hhigh₁, helow₁, hehigh₁, hvalue₁⟩ := ofInt_normal ha hamax
  obtain ⟨m₂, e₂, h₂, hunpack₂, hlow₂, hhigh₂, helow₂, hehigh₂, hvalue₂⟩ := ofInt_normal hb hbmax
  obtain ⟨m, e, hm, hdiv, helow, hehigh, hnear⟩ :=
    @div_normal m₁ m₂ e₁ e₂ h₁ h₂ ⟨hlow₁, hhigh₁⟩ ⟨hlow₂, hhigh₂⟩ (by omega) (by omega)
  have hunpack : (ofInt a / ofInt b).toModel.unpack = .finite .positive m e hm := by
    show UnpackedFloat.unpack _ (UnpackedFloat.pack _ (UnpackedFloat.div _
      (ofInt a).toModel.unpack (ofInt b).toModel.unpack)) = _
    rw [hunpack₁, hunpack₂, hdiv]
    exact unpack_pack hnear.low hnear.high helow hehigh
  rw [hvalue₁, hvalue₂] at hnear
  constructor
  · show (ofInt a / ofInt b).toModel.unpack.isFinite = true
    rw [hunpack]
    rfl
  · exact ⟨m, e, by rw [toRat, hunpack, rat_positive], hnear⟩

end TedgeDot.Binary64
