import TedgeDot.Lib.Binary64
import TedgeDot.Sdk.Duration

/-!
# Seconds as a double and as a `Duration`

`Duration::try_from_secs_f64` takes a double apart by its bits. It accepts the doubles from 0 up to
`2 ^ 64`, and gives the nanoseconds nearest to what the double stands for (`tryFromSecsF64_spec`).
-/

namespace TedgeDot.Duration

open Binary64

/-! ## The fields of a double -/

section Fields

open Float.Model Float.Model.UnpackedFloat

def mantissaField (x : Float) : Nat := x.toBits.toNat % 2 ^ 52

def exponentField (x : Float) : Nat := x.toBits.toNat / 2 ^ 52 % 2 ^ 11

theorem toNat_unpackMantissa (x : Float) :
    (@unpackMantissa Format.binary64 x.toModel.toBits.toBitVec).toNat = mantissaField x := by
  unfold unpackMantissa mantissaField
  rw [BitVec.toNat_cast, BitVec.extractLsb_toNat]
  rfl

theorem toNat_unpackExponent (x : Float) :
    (@unpackExponent Format.binary64 x.toModel.toBits.toBitVec).toNat = exponentField x := by
  unfold unpackExponent exponentField
  rw [BitVec.toNat_cast, BitVec.extractLsb_toNat, Nat.shiftRight_eq_div_pow]
  rfl

theorem mantissaField_lt (x : Float) : mantissaField x < 2 ^ 52 := Nat.mod_lt _ (by decide)

theorem exponentField_lt (x : Float) : exponentField x < 2 ^ 11 := Nat.mod_lt _ (by decide)

theorem abs_apply (s : Sign) (m : Nat) : |((s.apply (m : Int) : Int) : ℚ)| = m := by
  cases s <;> simp [Sign.apply]

/-- What the bits of a double say of its value. -/
theorem fields (x : Float) :
    (exponentField x = 2047 ∧ x.isFinite = false) ∨
    (exponentField x = 0 ∧ x.isFinite = true ∧ |toRat x| < 2 ^ (-1022 : Int)) ∨
    (0 < exponentField x ∧ exponentField x < 2047 ∧ x.isFinite = true ∧
      |toRat x| = (mantissaField x + 2 ^ 52 : Nat) * 2 ^ ((exponentField x : Int) - 1075)) := by
  have hmantissa := toNat_unpackMantissa x
  have hexponent := toNat_unpackExponent x
  have hlt := exponentField_lt x
  have hones : (-1#11 : BitVec 11).toNat = 2047 := by decide
  -- a normal mantissa has its leading bit in front
  have happ := toNat_leading_append (@unpackMantissa Format.binary64 x.toModel.toBits.toBitVec)
  have hfinite : x.isFinite =
      (UnpackedFloat.unpack Format.binary64 x.toModel.toBits.toBitVec).isFinite := rfl
  have hrat : toRat x = rat (UnpackedFloat.unpack Format.binary64 x.toModel.toBits.toBitVec) := rfl
  rw [hfinite, hrat]
  unfold UnpackedFloat.unpack
  simp only
  split
  · rename_i hall
    rw [hall] at hexponent
    refine .inl ⟨hexponent.symm.trans hones, ?_⟩
    split <;> rfl
  · rename_i hnot
    have hne : exponentField x ≠ 2047 := by
      rw [← hexponent, ← hones]
      exact fun h => hnot (BitVec.eq_of_toNat_eq h)
    split
    · rename_i hzero
      have hfield : exponentField x = 0 := by
        rw [← hexponent, hzero]
        rfl
      refine .inr (.inl ⟨hfield, ?_⟩)
      split
      · exact ⟨rfl, by simp [rat]⟩
      · -- a subnormal number
        refine ⟨rfl, ?_⟩
        have hsmall : (mantissaField x : ℚ) < 2 ^ 52 := by exact_mod_cast mantissaField_lt x
        simp only [rat]
        rw [hzero, abs_mul, abs_apply, hmantissa, abs_of_pos (by positivity)]
        calc (mantissaField x : ℚ) * 2 ^ (-1074 : Int) < 2 ^ 52 * 2 ^ (-1074 : Int) :=
              mul_lt_mul_of_pos_right hsmall (by positivity)
          _ = 2 ^ (-1022 : Int) := by
              rw [← zpow_natCast, ← zpow_add₀ (by norm_num)]
              norm_num
    · rename_i hzero
      have hfield : exponentField x ≠ 0 := by
        rw [← hexponent]
        exact fun h => hzero (BitVec.eq_of_toNat_eq h)
      refine .inr (.inr ⟨by omega, by omega, rfl, ?_⟩)
      simp only [rat]
      rw [abs_mul, abs_apply, happ, hmantissa, abs_of_pos (by positivity), hexponent,
        Nat.add_comm]
      congr 2

end Fields

/-! ## Nanoseconds -/

/-- A number of nanoseconds is the one nearest to a number of seconds. -/
def Nearest (n : Nat) (q : ℚ) : Prop := |(n : ℚ) / 10 ^ 9 - q| ≤ 1 / (2 * 10 ^ 9)

/-- A quotient by an even number, rounded to a whole number, ties to even. -/
def roundHalf (a half : Nat) : Nat :=
  if half < a % (2 * half) ∨ (a % (2 * half) = half ∧ a / (2 * half) % 2 = 1) then
    a / (2 * half) + 1
  else a / (2 * half)

/-- Rounding is off by half at most. -/
theorem roundHalf_near (a : Nat) {half : Nat} (hpos : 0 < half) :
    |(roundHalf a half : ℚ) - a / (2 * half : Nat)| ≤ 1 / 2 := by
  have hdiv : ((2 * half : Nat) : ℚ) * (a / (2 * half) : Nat) + (a % (2 * half) : Nat) = a := by
    exact_mod_cast Nat.div_add_mod a (2 * half)
  have hr := Nat.mod_lt a (by omega : 0 < 2 * half)
  have hd : (0 : ℚ) < (2 * half : Nat) := by exact_mod_cast (by omega : 0 < 2 * half)
  -- the quotient and the rest of the division
  have hquot : (a : ℚ) / (2 * half : Nat) =
      (a / (2 * half) : Nat) + (a % (2 * half) : Nat) / (2 * half : Nat) := by
    rw [← hdiv]
    field_simp
  rw [hquot, roundHalf]
  split
  · rename_i hup
    have hhalf : ((2 * half : Nat) : ℚ) ≤ 2 * (a % (2 * half) : Nat) := by
      exact_mod_cast (by omega : 2 * half ≤ 2 * (a % (2 * half)))
    have hlow : (1 : ℚ) / 2 ≤ (a % (2 * half) : Nat) / (2 * half : Nat) := by
      rw [le_div_iff₀ hd]
      linarith
    have hhigh : ((a % (2 * half) : Nat) : ℚ) / (2 * half : Nat) ≤ 1 := by
      rw [div_le_one hd]
      exact_mod_cast hr.le
    rw [abs_le, Nat.cast_succ]
    constructor <;> linarith
  · rename_i hdown
    have hhalf : 2 * ((a % (2 * half) : Nat) : ℚ) ≤ (2 * half : Nat) := by
      exact_mod_cast (by omega : 2 * (a % (2 * half)) ≤ 2 * half)
    have hlow : (0 : ℚ) ≤ (a % (2 * half) : Nat) / (2 * half : Nat) := by positivity
    have hhigh : ((a % (2 * half) : Nat) : ℚ) / (2 * half : Nat) ≤ 1 / 2 := by
      rw [div_le_iff₀ hd]
      linarith
    rw [abs_le]
    constructor <;> linarith

/-- The conversion, by the exponent. -/
theorem tryFromSecsF64_fields {x : Float} (hx : ¬ x < ofInt 0) :
    tryFromSecsF64 x =
      if exponentField x < 992 then some 0
      else if exponentField x < 1087 then
        some (roundHalf ((mantissaField x + 2 ^ 52) * 10 ^ 9 * 2 ^ (exponentField x - 992)) (2 ^ 82))
      else none := by
  have hx : ¬ x < 0.0 := hx
  unfold tryFromSecsF64
  rw [if_neg hx]
  simp only
  have hfield : x.toBits.toNat / 2 ^ 52 % 2 ^ 11 = exponentField x := rfl
  have hmantissa : x.toBits.toNat % 2 ^ 52 = mantissaField x := rfl
  rw [hfield, hmantissa]
  rcases Nat.lt_or_ge (exponentField x) 992 with hlow | hlow
  · have hexp : (exponentField x : Int) - 1023 < -31 := by omega
    rw [if_pos hexp, if_pos hlow]
  · have hexp : ¬ (exponentField x : Int) - 1023 < -31 := by omega
    rw [if_neg hexp, if_neg (by omega : ¬ exponentField x < 992)]
    rcases Nat.lt_or_ge (exponentField x) 1087 with hhigh | hhigh
    · have hexp : (exponentField x : Int) - 1023 < 64 := by omega
      rw [if_pos hexp, if_pos hhigh,
        show ((exponentField x : Int) - 1023 + 31).toNat = exponentField x - 992 by omega]
      rfl
    · have hexp : ¬ (exponentField x : Int) - 1023 < 64 := by omega
      rw [if_neg hexp, if_neg (by omega : ¬ exponentField x < 1087)]

theorem toRat_limit : (ofInt 18446744073709551616).isFinite = true ∧
    toRat (ofInt 18446744073709551616) = 2 ^ 64 := by
  have hmoderate : Moderate 18446744073709551616 := by
    unfold Moderate
    decide
  have hround : roundInt 18446744073709551616 = 18446744073709551616 := by decide
  obtain ⟨hfinite, hrat⟩ := ofInt_spec hmoderate
  refine ⟨hfinite, ?_⟩
  rw [hrat, hround]
  norm_num

theorem toRat_zero : (ofInt 0).isFinite = true ∧ toRat (ofInt 0) = 0 := ⟨by decide, rfl⟩

theorem not_le_of_not_finite {x : Float} (h : x.isFinite = false) :
    ¬ (ofInt 0 ≤ x ∧ x < ofInt 18446744073709551616) := by
  rintro ⟨hlow, hhigh⟩
  have hfinite : x.toModel.unpack.isFinite = false := h
  cases hunpack : x.toModel.unpack with
  | zero s => rw [hunpack] at hfinite; cases hfinite
  | finite s m e hm => rw [hunpack] at hfinite; cases hfinite
  | infinity s =>
    have hneg := (infinite_lt hunpack toRat_limit.1).mp hhigh
    have hpos := (le_infinite hunpack toRat_zero.1).mp hlow
    rw [hneg] at hpos
    cases hpos
  | notANumber =>
    have hlow : decide ((ofInt 0).toModel.unpack.le x.toModel.unpack = true) = true := hlow
    rw [hunpack, decide_eq_true_eq] at hlow
    revert hlow
    decide

theorem lt_limit_iff {x : Float} (hfinite : x.isFinite = true) (hneg : ¬ x < ofInt 0) :
    (ofInt 0 ≤ x ∧ x < ofInt 18446744073709551616) ↔ toRat x < 2 ^ 64 := by
  rw [lt_iff hfinite toRat_zero.1, toRat_zero.2, not_lt] at hneg
  rw [le_iff toRat_zero.1 hfinite, lt_iff hfinite toRat_limit.1, toRat_zero.2, toRat_limit.2]
  exact ⟨fun h => h.2, fun h => ⟨hneg, h⟩⟩

theorem nearest_zero {q : ℚ} (hlow : 0 ≤ q) (hhigh : q ≤ 2 ^ (-31 : Int)) : Nearest 0 q := by
  have hlimit : (2 : ℚ) ^ (-31 : Int) ≤ 1 / (2 * 10 ^ 9) := by norm_num
  unfold Nearest
  rw [Nat.cast_zero, zero_div, zero_sub, abs_neg, abs_of_nonneg hlow]
  exact hhigh.trans hlimit

theorem normal_bounds {m : Nat} (hm : m < 2 ^ 52) (e : Int) :
    (2 : ℚ) ^ (e + 52) ≤ (m + 2 ^ 52 : Nat) * 2 ^ e ∧
      ((m + 2 ^ 52 : Nat) : ℚ) * 2 ^ e < 2 ^ (e + 53) := by
  have hpos : (0 : ℚ) < 2 ^ e := by positivity
  have hlow : (2 : ℚ) ^ 52 ≤ (m + 2 ^ 52 : Nat) := by
    exact_mod_cast (by omega : 2 ^ 52 ≤ m + 2 ^ 52)
  have hhigh : ((m + 2 ^ 52 : Nat) : ℚ) < 2 ^ 53 := by
    exact_mod_cast (by omega : m + 2 ^ 52 < 2 ^ 53)
  rw [zpow_add₀ (by norm_num), zpow_add₀ (by norm_num), mul_comm (2 ^ e) _, mul_comm (2 ^ e) _]
  exact ⟨mul_le_mul_of_nonneg_right (by exact_mod_cast hlow) hpos.le,
    mul_lt_mul_of_pos_right (by exact_mod_cast hhigh) hpos⟩

theorem nearest_roundHalf {m E : Nat} (hE : 992 ≤ E) :
    Nearest (roundHalf (m * 10 ^ 9 * 2 ^ (E - 992)) (2 ^ 82)) (m * 2 ^ ((E : Int) - 1075)) := by
  have hnear := roundHalf_near (m * 10 ^ 9 * 2 ^ (E - 992)) (by decide : 0 < 2 ^ 82)
  have hexact : ((m * 10 ^ 9 * 2 ^ (E - 992) : Nat) : ℚ) / (2 * 2 ^ 82 : Nat) =
      m * 2 ^ ((E : Int) - 1075) * 10 ^ 9 := by
    have hpow : (2 : ℚ) ^ ((E : Int) - 1075) = 2 ^ (E - 992) / 2 ^ 83 := by
      rw [show (E : Int) - 1075 = ((E - 992 : Nat) : Int) - (83 : Nat) by omega,
        zpow_sub₀ (by norm_num), zpow_natCast, zpow_natCast]
    rw [hpow]
    push_cast
    ring
  rw [hexact] at hnear
  generalize roundHalf (m * 10 ^ 9 * 2 ^ (E - 992)) (2 ^ 82) = n at hnear
  unfold Nearest
  rw [abs_le] at hnear ⊢
  constructor <;> linarith

/-- **Seconds become nanoseconds**: the doubles from 0 up to `2 ^ 64` are accepted, and the result
is the nearest number of nanoseconds. -/
theorem tryFromSecsF64_spec (x : Float) :
    ((tryFromSecsF64 x).isSome = true ↔ ofInt 0 ≤ x ∧ x < ofInt 18446744073709551616) ∧
      ∀ n, tryFromSecsF64 x = some n → Nearest n (toRat x) := by
  -- what is refused is negative, too large, or no number
  have hrefused (hnone : tryFromSecsF64 x = none)
      (hnot : ¬ (ofInt 0 ≤ x ∧ x < ofInt 18446744073709551616)) :
      ((tryFromSecsF64 x).isSome = true ↔ ofInt 0 ≤ x ∧ x < ofInt 18446744073709551616) ∧
        ∀ n, tryFromSecsF64 x = some n → Nearest n (toRat x) := by
    rw [hnone]
    simp [hnot]
  by_cases hneg : x < ofInt 0
  · apply hrefused
    · have hneg : x < 0.0 := hneg
      unfold tryFromSecsF64
      rw [if_pos hneg]
    · rintro ⟨hlow, hhigh⟩
      cases hfinite : x.isFinite with
      | true =>
        rw [le_iff toRat_zero.1 hfinite] at hlow
        rw [lt_iff hfinite toRat_zero.1] at hneg
        linarith
      | false => exact not_le_of_not_finite hfinite ⟨hlow, hhigh⟩
  · have hvalues := tryFromSecsF64_fields hneg
    rcases fields x with ⟨hfield, hfinite⟩ | ⟨hfield, hfinite, hsmall⟩ |
      ⟨hpos, hfield, hfinite, hvalue⟩
    · rw [if_neg (by omega), if_neg (by omega)] at hvalues
      exact hrefused hvalues (not_le_of_not_finite hfinite)
    · have hnonneg : 0 ≤ toRat x := by
        rwa [lt_iff hfinite toRat_zero.1, toRat_zero.2, not_lt] at hneg
      rw [abs_of_nonneg hnonneg] at hsmall
      rw [if_pos (by omega)] at hvalues
      rw [hvalues, lt_limit_iff hfinite hneg]
      have hlimit : (2 : ℚ) ^ (-1022 : Int) ≤ 2 ^ (-31 : Int) :=
        zpow_le_zpow_right₀ (by norm_num) (by omega)
      have hone : (2 : ℚ) ^ (-31 : Int) ≤ 2 ^ 64 := by norm_num
      constructor
      · simp only [Option.isSome_some, true_iff]
        linarith
      · intro n hn
        obtain rfl := Option.some.inj hn
        exact nearest_zero hnonneg (hsmall.le.trans hlimit)
    · have hnonneg : 0 ≤ toRat x := by
        rwa [lt_iff hfinite toRat_zero.1, toRat_zero.2, not_lt] at hneg
      rw [abs_of_nonneg hnonneg] at hvalue
      obtain ⟨hlow, hhigh⟩ := normal_bounds (mantissaField_lt x) ((exponentField x : Int) - 1075)
      rw [← hvalue] at hlow hhigh
      rcases Nat.lt_or_ge (exponentField x) 1087 with hlt | hge
      · have hless : toRat x < 2 ^ 64 := by
          have hpow : (2 : ℚ) ^ ((exponentField x : Int) - 1075 + 53) ≤ 2 ^ (64 : Int) :=
            zpow_le_zpow_right₀ (by norm_num) (by omega)
          exact hhigh.trans_le (by exact_mod_cast hpow)
        have hsome {n : Nat} (hn : tryFromSecsF64 x = some n) (hnearest : Nearest n (toRat x)) :
            ((tryFromSecsF64 x).isSome = true ↔
              ofInt 0 ≤ x ∧ x < ofInt 18446744073709551616) ∧
            ∀ n, tryFromSecsF64 x = some n → Nearest n (toRat x) := by
          rw [hn, lt_limit_iff hfinite hneg]
          refine ⟨by simpa using hless, ?_⟩
          intro n' hn'
          obtain rfl := Option.some.inj hn'
          exact hnearest
        rcases Nat.lt_or_ge (exponentField x) 992 with hfew | hmany
        · -- less than half a nanosecond
          rw [if_pos hfew] at hvalues
          apply hsome hvalues
          apply nearest_zero hnonneg
          have hpow : (2 : ℚ) ^ ((exponentField x : Int) - 1075 + 53) ≤ 2 ^ (-31 : Int) :=
            zpow_le_zpow_right₀ (by norm_num) (by omega)
          exact hhigh.le.trans hpow
        · rw [if_neg (by omega), if_pos hlt] at hvalues
          apply hsome hvalues
          rw [hvalue]
          exact nearest_roundHalf hmany
      · rw [if_neg (by omega), if_neg (by omega)] at hvalues
        apply hrefused hvalues
        rw [lt_limit_iff hfinite hneg, not_lt]
        have hpow : (2 : ℚ) ^ (64 : Int) ≤ 2 ^ ((exponentField x : Int) - 1075 + 52) :=
          zpow_le_zpow_right₀ (by norm_num) (by omega)
        exact le_trans (by exact_mod_cast hpow) hlow

end TedgeDot.Duration
