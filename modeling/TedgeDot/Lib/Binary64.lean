import Mathlib

/-!
# 64-bit floats and integers

What a `Float` stands for, as a rational number, and what the conversion of an integer to a
`Float` keeps of it:

- `le_iff`, `beq_iff`: finite floats compare as the numbers they stand for.
- `ofInt_spec`: an integer converts to the integer rounded to 53 bits, to nearest and ties to even.
- `roundInt_mono`, `roundInt_of_le`: rounding keeps the order, and integers up to `2 ^ 53`.
- `toRat_le_roundInt`, `roundInt_le_toRat`: rounding an integer passes no float.

The operations are those of Lean's model of `Float` (`Float.Model`): a bit pattern is unpacked into
a sign, a mantissa and an exponent, and a result is rounded and packed again.
-/

namespace TedgeDot.Binary64

open Float.Model Float.Model.UnpackedFloat

/-! ## What a float stands for -/

/-- The number an unpacked float stands for. -/
def rat : UnpackedFloat → ℚ
  | .finite s m e _ => (s.apply m : Int) * 2 ^ e
  | _ => 0

/-- A mantissa and an exponent as the bits of a float give them. -/
structure Canonical (m : Nat) (e : Int) : Prop where
  lt : m < 2 ^ 53
  exponent : -1074 ≤ e
  normal : 2 ^ 52 ≤ m ∨ e = -1074

theorem toNat_leading_append (m : BitVec 52) : (1#1 ++ m).toNat = 2 ^ 52 + m.toNat := by
  have hor := Nat.two_pow_add_eq_or_of_lt m.isLt 1
  rw [BitVec.toNat_append, Nat.shiftLeft_eq, BitVec.toNat_one (by decide), Nat.one_mul]
  rw [Nat.mul_one] at hor
  exact hor.symm

variable {s : Sign} {m : Nat} {e : Int} {hm : 0 < m} {e₁ e₂ : Int} {n : Nat} {em : ExtendedMantissa}
  {q : ℚ} {f : Float} {a b : Float}

/-- What a double unpacks to is canonical. -/
theorem canonical_of_unpack {b : BitVec Format.binary64.numBits}
    (h : UnpackedFloat.unpack Format.binary64 b = .finite s m e hm) : Canonical m e := by
  have hlt := (unpackMantissa b).isLt
  unfold UnpackedFloat.unpack at h
  simp only at h
  split at h
  · split at h <;> cases h
  · split at h
    · -- subnormal: the exponent bits are zero
      rename_i h0
      split at h
      · cases h
      · cases h
        refine ⟨Nat.lt_trans hlt (by decide), ?_, .inr ?_⟩
        · rw [h0]; decide
        · rw [h0]; decide
    · rename_i h1 h0
      have hpos : 0 < (unpackExponent b).toNat :=
        Nat.pos_of_ne_zero fun hz => h0 (BitVec.eq_of_toNat_eq hz)
      cases h
      have happ := toNat_leading_append (unpackMantissa b)
      refine ⟨?_, ?_, .inl ?_⟩
      · omega
      · simp only [Format.exponentBias]
        omega
      · omega

/-! ## Order -/

theorem mul_zpow_pos (hm : 0 < m) (e : Int) : (0 : ℚ) < m * 2 ^ e :=
  mul_pos (by exact_mod_cast hm) (by positivity)

theorem lt_of_exponent_lt {m₁ m₂ : Nat} (h₁ : Canonical m₁ e₁) (h₂ : Canonical m₂ e₂) (he : e₁ < e₂) :
    (m₁ : ℚ) * 2 ^ e₁ < m₂ * 2 ^ e₂ := by
  have hm₁ : (m₁ : ℚ) < 2 ^ 53 := by exact_mod_cast h₁.lt
  have hm₂ : (2 : ℚ) ^ 52 ≤ m₂ := by
    have := h₂.normal.resolve_right (by have := h₁.exponent; omega)
    exact_mod_cast this
  have hpow : (2 : ℚ) ^ (e₁ + 1) ≤ 2 ^ e₂ := zpow_le_zpow_right₀ (by norm_num) he
  calc (m₁ : ℚ) * 2 ^ e₁
      < 2 ^ 53 * 2 ^ e₁ := by
        apply mul_lt_mul_of_pos_right hm₁
        positivity
    _ = 2 ^ 52 * 2 ^ (e₁ + 1) := by
        rw [zpow_add_one₀ (by norm_num)]
        ring
    _ ≤ m₂ * 2 ^ e₂ := by
        apply mul_le_mul hm₂ hpow <;> positivity

theorem compare_canonical {m₁ m₂ : Nat} (h₁ : Canonical m₁ e₁) (h₂ : Canonical m₂ e₂) :
    (compare e₁ e₂).then (compare m₁ m₂) = compare ((m₁ : ℚ) * 2 ^ e₁) (m₂ * 2 ^ e₂) := by
  rcases lt_trichotomy e₁ e₂ with he | rfl | he
  · rw [compare_lt_iff_lt.mpr he, compare_lt_iff_lt.mpr (lt_of_exponent_lt h₁ h₂ he)]
    rfl
  · rw [compare_eq_iff_eq.mpr rfl]
    have hpos : (0 : ℚ) < 2 ^ e₁ := by positivity
    rcases lt_trichotomy m₁ m₂ with hm | rfl | hm
    · have hm' : (m₁ : ℚ) < m₂ := by exact_mod_cast hm
      rw [compare_lt_iff_lt.mpr hm, compare_lt_iff_lt.mpr (mul_lt_mul_of_pos_right hm' hpos)]
      rfl
    · rw [compare_eq_iff_eq.mpr rfl, compare_eq_iff_eq.mpr rfl]
      rfl
    · have hm' : (m₂ : ℚ) < m₁ := by exact_mod_cast hm
      rw [compare_gt_iff_gt.mpr hm, compare_gt_iff_gt.mpr (mul_lt_mul_of_pos_right hm' hpos)]
      rfl
  · rw [compare_gt_iff_gt.mpr he, compare_gt_iff_gt.mpr (lt_of_exponent_lt h₂ h₁ he)]
    rfl

theorem swap_compare (a b : ℚ) : (compare a b).swap = compare (-a) (-b) := by
  rcases lt_trichotomy a b with h | rfl | h
  · rw [compare_lt_iff_lt.mpr h, compare_gt_iff_gt.mpr (neg_lt_neg h)]
    rfl
  · rw [compare_eq_iff_eq.mpr rfl, compare_eq_iff_eq.mpr rfl]
    rfl
  · rw [compare_gt_iff_gt.mpr h, compare_lt_iff_lt.mpr (neg_lt_neg h)]
    rfl

/-- A float that is a number, in canonical form. -/
def Proper : UnpackedFloat → Prop
  | .finite _ m e _ => Canonical m e
  | .zero _ => True
  | _ => False

theorem rat_positive : rat (.finite .positive m e hm) = m * 2 ^ e := by
  simp [rat, Sign.apply]

theorem rat_negative : rat (.finite .negative m e hm) = -(m * 2 ^ e) := by
  simp [rat, Sign.apply]

/-- Doubles compare like the numbers they stand for. -/
theorem compare_rat {a b : UnpackedFloat} (ha : Proper a) (hb : Proper b) :
    a.compare b = some (compare (rat a) (rat b)) := by
  -- a finite double is not zero, so the signs decide unless they are the same
  have hpos {m : Nat} (hm : 0 < m) (e : Int) := mul_zpow_pos hm e
  cases a with
  | infinity => exact ha.elim
  | notANumber => exact ha.elim
  | zero s₁ =>
    cases b with
    | infinity => exact hb.elim
    | notANumber => exact hb.elim
    | zero s₂ =>
      show some Ordering.eq = some (compare (0 : ℚ) 0)
      rw [compare_eq_iff_eq.mpr rfl]
    | finite s₂ m₂ e₂ hm₂ =>
      cases s₂ with
      | positive =>
        rw [rat_positive]
        show some Ordering.lt = some (compare (0 : ℚ) _)
        rw [compare_lt_iff_lt.mpr (hpos hm₂ e₂)]
      | negative =>
        rw [rat_negative]
        show some Ordering.gt = some (compare (0 : ℚ) _)
        rw [compare_gt_iff_gt.mpr (neg_neg_of_pos (hpos hm₂ e₂))]
  | finite s₁ m₁ e₁ hm₁ =>
    cases b with
    | infinity => exact hb.elim
    | notANumber => exact hb.elim
    | zero s₂ =>
      cases s₁ with
      | positive =>
        rw [rat_positive]
        show some Ordering.gt = some (compare _ (0 : ℚ))
        rw [compare_gt_iff_gt.mpr (hpos hm₁ e₁)]
      | negative =>
        rw [rat_negative]
        show some Ordering.lt = some (compare _ (0 : ℚ))
        rw [compare_lt_iff_lt.mpr (neg_neg_of_pos (hpos hm₁ e₁))]
    | finite s₂ m₂ e₂ hm₂ =>
      have h₁ : Canonical m₁ e₁ := ha
      have h₂ : Canonical m₂ e₂ := hb
      cases s₁ with
      | positive =>
        cases s₂ with
        | positive =>
          rw [rat_positive, rat_positive, ← compare_canonical h₁ h₂]
          rfl
        | negative =>
          rw [rat_positive, rat_negative]
          show some Ordering.gt = _
          rw [compare_gt_iff_gt.mpr ((neg_neg_of_pos (hpos hm₂ e₂)).trans (hpos hm₁ e₁))]
      | negative =>
        cases s₂ with
        | positive =>
          rw [rat_positive, rat_negative]
          show some Ordering.lt = _
          rw [compare_lt_iff_lt.mpr ((neg_neg_of_pos (hpos hm₁ e₁)).trans (hpos hm₂ e₂))]
        | negative =>
          rw [rat_negative, rat_negative, ← swap_compare, ← compare_canonical h₁ h₂]
          rfl

theorem le_rat {a b : UnpackedFloat} (ha : Proper a) (hb : Proper b) :
    a.le b = true ↔ rat a ≤ rat b := by
  rw [UnpackedFloat.le, compare_rat ha hb]
  rcases lt_trichotomy (rat a) (rat b) with h | h | h
  · simp [compare_lt_iff_lt.mpr h, h.le]
  · simp [h]
  · simp [compare_gt_iff_gt.mpr h, h]

theorem lt_rat {a b : UnpackedFloat} (ha : Proper a) (hb : Proper b) :
    a.lt b = true ↔ rat a < rat b := by
  rw [UnpackedFloat.lt, compare_rat ha hb]
  rcases lt_trichotomy (rat a) (rat b) with h | h | h
  · simp [compare_lt_iff_lt.mpr h, h]
  · simp [h]
  · simp [compare_gt_iff_gt.mpr h, h.le]

theorem beq_rat {a b : UnpackedFloat} (ha : Proper a) (hb : Proper b) :
    a.beq b = true ↔ rat a = rat b := by
  rw [UnpackedFloat.beq, compare_rat ha hb]
  simp

/-! ## Packing -/

/-- A normal double survives packing. -/
theorem unpack_pack (hnormal : 2 ^ 52 ≤ m) (hlt : m < 2 ^ 53) (hlow : -1074 ≤ e) (hhigh : e ≤ 971) :
    UnpackedFloat.unpack Format.binary64 (UnpackedFloat.pack Format.binary64 (.finite s m e hm)) =
      .finite s m e hm := by
  have hlog : m.log2 = 52 := (Nat.log2_eq_iff hm.ne').mpr ⟨hnormal, hlt⟩
  have hbiased : (e + (1023 : Nat) + (52 : Nat)).toNat = (e + 1075).toNat := by
    congr 1
    omega
  have hexp : (BitVec.ofNat 11 (e + 1075).toNat).toNat = (e + 1075).toNat := by
    rw [BitVec.toNat_ofNat, Nat.mod_eq_of_lt (by omega)]
  have hmantissa : (1#1 ++ BitVec.ofNat 52 m).toNat = m := by
    rw [toNat_leading_append, BitVec.toNat_ofNat]
    omega
  -- neither all zeros nor all ones: a normal number
  have hne0 : BitVec.ofNat 11 (e + 1075).toNat ≠ 0#11 := by
    intro h
    have := congrArg BitVec.toNat h
    rw [hexp] at this
    simp only [BitVec.toNat_ofNat, Nat.zero_mod] at this
    omega
  have hne1 : BitVec.ofNat 11 (e + 1075).toNat ≠ -1#11 := by
    intro h
    have := congrArg BitVec.toNat h
    rw [hexp] at this
    have hones : (-1#11 : BitVec 11).toNat = 2047 := by decide
    rw [hones] at this
    omega
  have hpack : UnpackedFloat.pack Format.binary64 (.finite s m e hm) =
      packComponents Format.binary64 s (BitVec.ofNat 11 (e + 1075).toNat) (BitVec.ofNat 52 m) := by
    unfold UnpackedFloat.pack
    simp only [Format.exponentBias, Format.mantissaBits]
    show (if 2 ^ 11 ≤ (e + (1023 : Nat) + (52 : Nat)).toNat + 1 then _ else
      if m.log2 + 1 = 53 then _ else _) = _
    rw [hbiased, hlog, if_neg (by omega), if_pos rfl]
  rw [hpack]
  unfold UnpackedFloat.unpack
  simp only [unpackMantissa_packComponents, unpackExponent_packComponents,
    unpackSign_packComponents, Sign.ofBitVec_toBitVec, hne0, hne1, if_false, hmantissa, hexp]
  congr 1
  simp only [Format.exponentBias]
  omega

/-! ## Rounding natural numbers -/

/-- What the last bit of a 53-bit mantissa of a natural number counts. -/
def ulp (n : Nat) : Nat := 2 ^ (n.log2 + 1 - 53)

/-- The mantissa of a natural number, rounded to nearest and ties to even. -/
def roundedMantissa (n : Nat) : Nat :=
  if 2 * (n % ulp n) < ulp n then n / ulp n
  else if ulp n < 2 * (n % ulp n) then n / ulp n + 1
  else n / ulp n + n / ulp n % 2

/-- A natural number rounded to 53 bits. -/
def roundNat (n : Nat) : Nat := roundedMantissa n * ulp n

theorem ulp_pos (n : Nat) : 0 < ulp n := Nat.two_pow_pos _

theorem ulp_of_lt (hn : n < 2 ^ 53) : ulp n = 1 := by
  have hlog : n.log2 ≤ 52 := by
    rcases Nat.eq_zero_or_pos n with rfl | hpos
    · decide
    · have := (Nat.log2_lt hpos.ne').mpr hn
      omega
  rw [ulp, show n.log2 + 1 - 53 = 0 by omega, pow_zero]

theorem roundNat_of_lt (hn : n < 2 ^ 53) : roundNat n = n := by
  simp [roundNat, roundedMantissa, ulp_of_lt hn, Nat.mod_one]

/-- The mantissa of a quotient, with what it has lost. -/
structure Quotient (n d : Nat) (em : ExtendedMantissa) : Prop where
  mantissa : em.mantissa = n / d
  round : em.roundBit = decide (d ≤ 2 * (n % d))
  sticky : em.stickyBit = decide (2 * (n % d) % d ≠ 0)

/-- Shifting the mantissa right halves the quotient. -/
theorem Quotient.step {n d : Nat} (hd : 0 < d) (h : Quotient n d em) :
    Quotient n (d * 2) em.shiftRightOne := by
  have hr := Nat.mod_lt n hd
  have hb := Nat.mod_lt (n / d) (by decide : 0 < 2)
  have hmod : n % (d * 2) = n % d + d * (n / d % 2) := Nat.mod_mul
  refine ⟨?_, ?_, ?_⟩
  · show em.mantissa / 2 = _
    rw [h.mantissa, Nat.div_div_eq_div_mul]
  · show (em.mantissa % 2 != 0) = _
    rw [h.mantissa, hmod]
    rcases Nat.lt_or_ge (n / d % 2) 1 with hb0 | hb1
    · have : n / d % 2 = 0 := by omega
      simp [this]
      omega
    · have : n / d % 2 = 1 := by omega
      simp [this]
      omega
  · show (em.roundBit || em.stickyBit) = _
    have htwice : 2 * (n % (d * 2)) % (d * 2) = 2 * (n % d) := by
      rw [Nat.mul_comm d 2, Nat.mul_mod_mul_left, Nat.mod_mul_left_mod]
    rw [h.round, h.sticky, htwice]
    rcases Nat.lt_or_ge (2 * (n % d)) d with hlt | hge
    · rw [Nat.mod_eq_of_lt hlt]
      simp
      omega
    · have hne : 2 * (n % d) ≠ 0 := by omega
      simp [hge]
      omega

/-- Rounding to nearest, ties to even. -/
theorem Quotient.rounded {n d : Nat} (hd : 0 < d) (h : Quotient n d em) :
    em.roundedMantissa =
      if 2 * (n % d) < d then n / d
      else if d < 2 * (n % d) then n / d + 1
      else n / d + n / d % 2 := by
  have hr := Nat.mod_lt n hd
  obtain ⟨mantissa, round, sticky⟩ := em
  obtain ⟨rfl, hround, hsticky⟩ := h
  simp only at hround hsticky
  unfold ExtendedMantissa.roundedMantissa
  rcases lt_trichotomy (2 * (n % d)) d with hlt | heq | hgt
  · rw [if_pos hlt, hround, decide_eq_false (by omega)]
    cases sticky with
    | false => rfl
    | true => rfl
  · rw [if_neg (by omega), if_neg (by omega), hround, decide_eq_true (by omega), hsticky, heq]
    simp [ExtendedMantissa.accuracy, Accuracy.roundToNearestEven]
  · have hne : 2 * (n % d) % d ≠ 0 := by
      rw [Nat.mod_eq_sub_mod hgt.le, Nat.mod_eq_of_lt (by omega)]
      omega
    rw [if_neg (by omega), if_pos hgt, hround, decide_eq_true (by omega), hsticky,
      decide_eq_true hne]
    rfl

/-- A mantissa after `k` shifts, with what it has lost. -/
structure Shifted (n k : Nat) (em : ExtendedMantissa) : Prop where
  mantissa : em.mantissa = n / 2 ^ k
  round : em.roundBit = decide (2 ^ k ≤ 2 * (n % 2 ^ k))
  sticky : em.stickyBit = decide (2 * (n % 2 ^ k) % 2 ^ k ≠ 0)

theorem Shifted.quotient {n k : Nat} (h : Shifted n k em) :
    Quotient n (2 ^ k) em := ⟨h.mantissa, h.round, h.sticky⟩

theorem Shifted.step {n k : Nat} (h : Shifted n k em) : Shifted n (k + 1) em.shiftRightOne := by
  have hstep := h.quotient.step (Nat.two_pow_pos k)
  rw [← Nat.pow_succ] at hstep
  exact ⟨hstep.mantissa, hstep.round, hstep.sticky⟩

theorem shifted (n k : Nat) :
    Shifted n k (ExtendedMantissa.ofMantissaAndAccuracy n .exact >>> k) := by
  induction k with
  | zero =>
    refine ⟨?_, ?_, ?_⟩
    · show n = _
      simp
    · show false = _
      simp [Nat.mod_one]
    · show false = _
      simp [Nat.mod_one]
  | succ k ih => exact ih.step

theorem Shifted.rounded {n k : Nat} (h : Shifted n k em) :
    em.roundedMantissa =
      if 2 * (n % 2 ^ k) < 2 ^ k then n / 2 ^ k
      else if 2 ^ k < 2 * (n % 2 ^ k) then n / 2 ^ k + 1
      else n / 2 ^ k + n / 2 ^ k % 2 :=
  h.quotient.rounded (Nat.two_pow_pos k)

theorem shiftToTargetExponent_of_normal (hnormal : 2 ^ 52 ≤ m) (hlt : m < 2 ^ 53) (he : -1074 ≤ e) :
    shiftToTargetExponent Format.binary64 m e .exact =
      (ExtendedMantissa.ofMantissaAndAccuracy m .exact, e) := by
  have hlog : m.log2 = 52 := (Nat.log2_eq_iff (by omega)).mpr ⟨hnormal, hlt⟩
  have htarget : Format.binary64.targetExponent (totalExponent m e) = e := by
    rw [totalExponent, hlog, Format.targetExponent]
    simp only [Format.mantissaBits, Format.minExponent]
    omega
  unfold shiftToTargetExponent
  simp only [htarget, shiftToExponent, Int.sub_self]
  refine Prod.ext rfl ?_
  show e + ((0 : Int).toNat : Int) = e
  simp

theorem roundWithAccuracy_of {em₁ em₂ : ExtendedMantissa}
    (h₁ : shiftToTargetExponent Format.binary64 m e .exact = (em₁, e₁))
    (h₂ : shiftToTargetExponent Format.binary64 em₁.roundedMantissa e₁ .exact = (em₂, e₂))
    (hpos : 0 < em₂.mantissa) :
    roundWithAccuracy Format.binary64 s m e .exact = .finite s em₂.mantissa e₂ hpos := by
  unfold roundWithAccuracy
  simp only [h₁, h₂]
  rw [dif_neg hpos.ne']

theorem shiftToTargetExponent_of_large (hn : 2 ^ 52 ≤ n) :
    shiftToTargetExponent Format.binary64 n 0 .exact =
      (ExtendedMantissa.ofMantissaAndAccuracy n .exact >>> (n.log2 - 52),
        ((n.log2 - 52 : Nat) : Int)) := by
  have hlog : 52 ≤ n.log2 := (Nat.le_log2 (by omega)).mpr hn
  have htarget : Format.binary64.targetExponent (totalExponent n 0) = ((n.log2 - 52 : Nat) : Int) := by
    rw [totalExponent, Format.targetExponent]
    simp only [Format.mantissaBits, Format.minExponent]
    omega
  unfold shiftToTargetExponent
  simp only [htarget, shiftToExponent, Int.sub_zero, Int.toNat_natCast, Int.zero_add]

/-- A float in normal form whose exponent is small. -/
structure Normal (s : Sign) (q : ℚ) (f : UnpackedFloat) : Prop where
  finite : ∃ m e hm, f = .finite s m e hm ∧ 2 ^ 52 ≤ m ∧ m < 2 ^ 53 ∧ -52 ≤ e ∧ e ≤ 971 ∧
    (m : ℚ) * 2 ^ e = q

/-- Below 2^53 nothing is rounded. -/
theorem round_of_small (hpos : 0 < n) (hn : n < 2 ^ 53) :
    Normal s n (UnpackedFloat.round Format.binary64 s n 0) := by
  have hlog : n.log2 < 53 := (Nat.log2_lt hpos.ne').mpr hn
  have hpow : 2 ^ 52 = 2 ^ n.log2 * 2 ^ (52 - n.log2) := by
    rw [← pow_add]
    congr 1
    omega
  have hlow : 2 ^ 52 ≤ n * 2 ^ (52 - n.log2) := by
    rw [hpow]
    exact Nat.mul_le_mul_right _ (Nat.log2_self_le hpos.ne')
  have hhigh : n * 2 ^ (52 - n.log2) < 2 ^ 53 := by
    have hlt : n < 2 ^ n.log2 * 2 := by
      rw [← pow_succ]
      exact Nat.lt_log2_self
    have := Nat.mul_lt_mul_of_pos_right hlt (Nat.two_pow_pos (52 - n.log2))
    have : 2 ^ n.log2 * 2 * 2 ^ (52 - n.log2) = 2 ^ 53 := by
      rw [Nat.mul_right_comm, ← hpow]
      decide
    omega
  -- shifted up to 53 bits, nothing is lost
  have htarget : Format.binary64.targetExponent (totalExponent n 0) =
      -((52 - n.log2 : Nat) : Int) := by
    rw [totalExponent, Format.targetExponent]
    simp only [Format.mantissaBits, Format.minExponent]
    omega
  have hround : UnpackedFloat.round Format.binary64 s n 0 =
      roundWithAccuracy Format.binary64 s (n * 2 ^ (52 - n.log2)) (-((52 - n.log2 : Nat) : Int))
        .exact := by
    unfold UnpackedFloat.round
    simp only [htarget, decreaseExponent]
    rw [show (0 - -((52 - n.log2 : Nat) : Int)).toNat = 52 - n.log2 by omega, Nat.shiftLeft_eq,
      Int.zero_sub]
  have hshift := shiftToTargetExponent_of_normal hlow hhigh
    (e := -((52 - n.log2 : Nat) : Int)) (by omega)
  refine ⟨_, _, ?_, hround.trans (roundWithAccuracy_of hshift hshift ?_), hlow, hhigh,
    by omega, by omega, ?_⟩
  · exact Nat.lt_of_lt_of_le (by decide) hlow
  · exact Nat.lt_of_lt_of_le (by decide) hlow
  show ((n * 2 ^ (52 - n.log2) : Nat) : ℚ) * 2 ^ (-((52 - n.log2 : Nat) : Int)) = n
  rw [zpow_neg, zpow_natCast]
  push_cast
  rw [mul_assoc, mul_inv_cancel₀ (by positivity), mul_one]

theorem ulp_of_large (hn : 2 ^ 52 ≤ n) : ulp n = 2 ^ (n.log2 - 52) := by
  have hlog : 52 ≤ n.log2 := (Nat.le_log2 (by omega)).mpr hn
  rw [ulp]
  congr 1

theorem div_ulp (hn : 2 ^ 52 ≤ n) : 2 ^ 52 ≤ n / ulp n ∧ n / ulp n < 2 ^ 53 := by
  have hlog : 52 ≤ n.log2 := (Nat.le_log2 (by omega)).mpr hn
  have hpow : 2 ^ n.log2 = 2 ^ 52 * ulp n := by
    rw [ulp_of_large hn, ← pow_add]
    congr 1
    omega
  constructor
  · rw [Nat.le_div_iff_mul_le (ulp_pos n), ← hpow]
    exact Nat.log2_self_le (by omega)
  · have hlt : n < 2 ^ n.log2 * 2 := by
      rw [← pow_succ]
      exact Nat.lt_log2_self
    rw [Nat.div_lt_iff_lt_mul (ulp_pos n)]
    calc n < 2 ^ 52 * ulp n * 2 := by rwa [← hpow]
      _ = 2 ^ 53 * ulp n := by ring

theorem roundedMantissa_bounds (n : Nat) :
    n / ulp n ≤ roundedMantissa n ∧ roundedMantissa n ≤ n / ulp n + 1 := by
  unfold roundedMantissa
  split
  · omega
  · split <;> omega

/-- Above it the result is the rounded integer. -/
theorem round_of_large_form (hn : 2 ^ 52 ≤ n) :
    ∃ m e hm, UnpackedFloat.round Format.binary64 s n 0 = .finite s m e hm ∧ 2 ^ 52 ≤ m ∧
      m < 2 ^ 53 ∧ -52 ≤ e ∧ e ≤ (n.log2 : Int) - 51 ∧ (m : ℚ) * 2 ^ e = roundNat n := by
  have hlog : 52 ≤ n.log2 := (Nat.le_log2 (by omega)).mpr hn
  have hmantissa : (ExtendedMantissa.ofMantissaAndAccuracy n .exact >>> (n.log2 - 52)).roundedMantissa
      = roundedMantissa n := by
    rw [(shifted n (n.log2 - 52)).rounded, ← ulp_of_large hn]
    rfl
  have htarget : Format.binary64.targetExponent (totalExponent n 0) =
      ((n.log2 - 52 : Nat) : Int) := by
    rw [totalExponent, Format.targetExponent]
    simp only [Format.mantissaBits, Format.minExponent]
    omega
  have hround : UnpackedFloat.round Format.binary64 s n 0 =
      roundWithAccuracy Format.binary64 s n 0 .exact := by
    unfold UnpackedFloat.round
    simp only [htarget, decreaseExponent]
    rw [show (0 - ((n.log2 - 52 : Nat) : Int)).toNat = 0 by omega]
    rfl
  have hulp : (ulp n : ℚ) = 2 ^ ((n.log2 - 52 : Nat) : Int) := by
    rw [ulp_of_large hn, zpow_natCast]
    push_cast
    rfl
  have hbounds := roundedMantissa_bounds n
  have hdiv := div_ulp hn
  -- the mantissa may round up to one bit more
  rcases Nat.lt_or_ge (roundedMantissa n) (2 ^ 53) with hlt | hge
  · have hnormal : 2 ^ 52 ≤ roundedMantissa n := by omega
    have hshift := shiftToTargetExponent_of_normal hnormal hlt
      (e := ((n.log2 - 52 : Nat) : Int)) (by omega)
    rw [← hmantissa] at hshift
    refine ⟨_, _, ?_, hround.trans (roundWithAccuracy_of (shiftToTargetExponent_of_large hn) hshift
      ?_),
      ?_, ?_, by omega, by omega, ?_⟩
    · rw [hmantissa]; show 0 < roundedMantissa n; omega
    · rw [hmantissa]; show 0 < roundedMantissa n; omega
    · rw [hmantissa]; exact hnormal
    · rw [hmantissa]; exact hlt
    · rw [hmantissa, roundNat]
      push_cast
      rw [hulp]
      rfl
  · -- the mantissa rounded up to one bit more
    have heq : roundedMantissa n = 2 ^ 53 := by omega
    have hshift : shiftToTargetExponent Format.binary64
        (ExtendedMantissa.ofMantissaAndAccuracy n .exact >>> (n.log2 - 52)).roundedMantissa
        ((n.log2 - 52 : Nat) : Int) .exact =
          (⟨2 ^ 52, false, false⟩, ((n.log2 - 52 : Nat) : Int) + 1) := by
      have htarget : Format.binary64.targetExponent
          (totalExponent (2 ^ 53) ((n.log2 - 52 : Nat) : Int)) = ((n.log2 - 52 : Nat) : Int) + 1 := by
        rw [totalExponent, Format.targetExponent, Nat.log2_two_pow]
        simp only [Format.mantissaBits, Format.minExponent]
        omega
      rw [hmantissa, heq]
      unfold shiftToTargetExponent
      simp only [htarget, shiftToExponent]
      rw [show (((n.log2 - 52 : Nat) : Int) + 1 - ((n.log2 - 52 : Nat) : Int)).toNat = 1 by omega]
      rfl
    refine ⟨_, _, ?_, hround.trans (roundWithAccuracy_of (shiftToTargetExponent_of_large hn) hshift
      ?_),
      ?_, ?_, by omega, by omega, ?_⟩
    · decide
    · decide
    · exact Nat.le_refl _
    · decide
    · rw [roundNat, heq]
      push_cast
      rw [hulp, zpow_add_one₀ (by norm_num)]
      ring

theorem round_of_large (hn : 2 ^ 52 ≤ n) (hmax : n.log2 ≤ 1000) :
    Normal s (roundNat n) (UnpackedFloat.round Format.binary64 s n 0) := by
  obtain ⟨m, e, hm, hround, hnormal, hlt, hlow, hhigh, hvalue⟩ := round_of_large_form (s := s) hn
  exact ⟨m, e, hm, hround, hnormal, hlt, hlow, by omega, hvalue⟩

theorem round_nat (hpos : 0 < n) (hmax : n.log2 ≤ 1000) :
    Normal s (roundNat n) (UnpackedFloat.round Format.binary64 s n 0) := by
  rcases Nat.lt_or_ge n (2 ^ 53) with hlt | hge
  · rw [roundNat_of_lt hlt]
    exact round_of_small hpos hlt
  · exact round_of_large (by omega) hmax

/-! ## What rounding keeps -/

/-- A number of 53 bits and an exponent. -/
def Fits (q : ℚ) : Prop := ∃ m : Nat, ∃ e : Int, m < 2 ^ 53 ∧ q = m * 2 ^ e

theorem mul_ulp_le (n : Nat) : n / ulp n * ulp n ≤ roundNat n := by
  rw [roundNat]
  exact Nat.mul_le_mul_right _ (roundedMantissa_bounds n).1

/-- A 53-bit number is a multiple of a larger number's last bit, or below all of its bits. -/
theorem Fits.multiple (h : Fits q) (hn : 2 ^ 52 ≤ n) :
    (∃ k : Nat, q = (k * ulp n : Nat)) ∨ q < (n / ulp n * ulp n : Nat) := by
  obtain ⟨m, e, hm, rfl⟩ := h
  have hulp : (ulp n : ℚ) = 2 ^ ((n.log2 - 52 : Nat) : Int) := by
    rw [ulp_of_large hn, zpow_natCast]
    push_cast
    rfl
  -- a double of a smaller exponent lies below the last multiple
  rcases lt_or_ge e ((n.log2 - 52 : Nat) : Int) with hlt | hge
  · right
    have hm' : (m : ℚ) < 2 ^ 53 := by exact_mod_cast hm
    have hdiv : (2 : ℚ) ^ 52 ≤ (n / ulp n : Nat) := by exact_mod_cast (div_ulp hn).1
    calc (m : ℚ) * 2 ^ e
        < 2 ^ 53 * 2 ^ e := by
          apply mul_lt_mul_of_pos_right hm'
          positivity
      _ = 2 ^ 52 * 2 ^ (e + 1) := by
          rw [zpow_add_one₀ (by norm_num)]
          ring
      _ ≤ 2 ^ 52 * ulp n := by
          rw [hulp]
          apply mul_le_mul_of_nonneg_left (zpow_le_zpow_right₀ (by norm_num) hlt)
          positivity
      _ ≤ ((n / ulp n * ulp n : Nat) : ℚ) := by
          push_cast
          apply mul_le_mul_of_nonneg_right hdiv
          positivity
  · left
    obtain ⟨k, rfl⟩ : ∃ k : Nat, e = ((n.log2 - 52 : Nat) : Int) + k :=
      ⟨(e - ((n.log2 - 52 : Nat) : Int)).toNat, by omega⟩
    refine ⟨m * 2 ^ k, ?_⟩
    rw [zpow_add₀ (by norm_num), zpow_natCast _ k]
    push_cast
    rw [hulp]
    ring

theorem Fits.le_roundNat (h : Fits q) (hle : q ≤ n) : q ≤ roundNat n := by
  rcases Nat.lt_or_ge n (2 ^ 53) with hlt | hge
  · rwa [roundNat_of_lt hlt]
  · have hfloor : ((n / ulp n * ulp n : Nat) : ℚ) ≤ roundNat n := by exact_mod_cast mul_ulp_le n
    rcases h.multiple (by omega : 2 ^ 52 ≤ n) with ⟨k, rfl⟩ | hlt
    · have hk : k * ulp n ≤ n := by exact_mod_cast hle
      have := (Nat.le_div_iff_mul_le (ulp_pos n)).mpr hk
      have : k * ulp n ≤ n / ulp n * ulp n := Nat.mul_le_mul_right _ this
      exact le_trans (by exact_mod_cast this) hfloor
    · exact hlt.le.trans hfloor

/-- Rounding does not pass a double above. -/
theorem Fits.roundNat_le (h : Fits q) (hle : (n : ℚ) ≤ q) : (roundNat n : ℚ) ≤ q := by
  rcases Nat.lt_or_ge n (2 ^ 53) with hlt | hge
  · rwa [roundNat_of_lt hlt]
  · have hdm := Nat.div_add_mod n (ulp n)
    rw [Nat.mul_comm] at hdm
    rcases h.multiple (by omega : 2 ^ 52 ≤ n) with ⟨k, rfl⟩ | hlt
    · have hk : n ≤ k * ulp n := by exact_mod_cast hle
      suffices roundNat n ≤ k * ulp n by exact_mod_cast this
      rcases Nat.lt_or_ge (n / ulp n) k with hlt | hge
      · rw [roundNat]
        exact Nat.mul_le_mul_right _ ((roundedMantissa_bounds n).2.trans hlt)
      · -- nothing was lost
        have hkn := Nat.mul_le_mul_right (ulp n) hge
        have hmod : n % ulp n = 0 := by omega
        have hround : roundNat n = n / ulp n * ulp n := by
          rw [roundNat, roundedMantissa, if_pos (by rw [hmod]; exact ulp_pos n)]
        omega
    · have : ((n / ulp n * ulp n : Nat) : ℚ) ≤ n := by
        have : n / ulp n * ulp n ≤ n := by omega
        exact_mod_cast this
      exact absurd (hle.trans_lt (hlt.trans_le this)) (lt_irrefl _)

/-- A rounded integer is a double. -/
theorem fits_roundNat (n : Nat) : Fits (roundNat n) := by
  rcases Nat.lt_or_ge n (2 ^ 53) with hlt | hge
  · exact ⟨n, 0, hlt, by rw [roundNat_of_lt hlt]; simp⟩
  · have hn : 2 ^ 52 ≤ n := by omega
    have hulp : (ulp n : ℚ) = 2 ^ ((n.log2 - 52 : Nat) : Int) := by
      rw [ulp_of_large hn, zpow_natCast]
      push_cast
      rfl
    have hbounds := roundedMantissa_bounds n
    have hdiv := div_ulp hn
    rcases Nat.lt_or_ge (roundedMantissa n) (2 ^ 53) with hlt | hge
    · refine ⟨roundedMantissa n, ((n.log2 - 52 : Nat) : Int), hlt, ?_⟩
      rw [roundNat]
      push_cast
      rw [hulp]
    · refine ⟨2 ^ 52, ((n.log2 - 52 : Nat) : Int) + 1, by decide, ?_⟩
      rw [roundNat, show roundedMantissa n = 2 ^ 53 by omega]
      push_cast
      rw [hulp, zpow_add_one₀ (by norm_num)]
      ring

/-- Rounding keeps the order. -/
theorem roundNat_mono {a b : Nat} (h : a ≤ b) : roundNat a ≤ roundNat b := by
  rcases Nat.lt_or_ge b (roundNat a) with hlt | hge
  · rcases Nat.lt_or_ge a (2 ^ 53) with ha | ha
    · rw [roundNat_of_lt ha] at hlt
      omega
    -- `a` rounds up past `b`, which has the same leading bits and is nearer
    have ha : 2 ^ 52 ≤ a := by omega
    have hbounds := roundedMantissa_bounds a
    have hdiv := div_ulp ha
    have hdm := Nat.div_add_mod a (ulp a)
    rw [Nat.mul_comm] at hdm
    have hup : roundedMantissa a = a / ulp a + 1 := by
      by_contra hne
      have : roundNat a = a / ulp a * ulp a := by
        rw [roundNat]
        congr 1
        omega
      omega
    rw [roundNat, hup] at hlt
    have hpow : 2 ^ 53 * ulp a = 2 ^ (a.log2 + 1) := by
      have hlog : 52 ≤ a.log2 := (Nat.le_log2 (by omega)).mpr ha
      rw [ulp_of_large ha, ← pow_add]
      congr 1
      omega
    have hlog : b.log2 = a.log2 := by
      apply (Nat.log2_eq_iff (by omega)).mpr
      refine ⟨(Nat.log2_self_le (by omega)).trans h, ?_⟩
      rw [← hpow]
      exact hlt.trans_le (Nat.mul_le_mul_right _ hdiv.2)
    have hulp : ulp b = ulp a := by rw [ulp, hlog, ulp]
    have hquot : b / ulp a = a / ulp a := by
      apply Nat.div_eq_of_lt_le
      · omega
      · exact hlt
    have hdm' := Nat.div_add_mod b (ulp a)
    rw [Nat.mul_comm, hquot] at hdm'
    have hrem : a % ulp a ≤ b % ulp a := by omega
    have hmantissa : roundedMantissa a ≤ roundedMantissa b := by
      rw [hup]
      unfold roundedMantissa at hup ⊢
      rw [hulp, hquot]
      split at hup
      · omega
      · rw [if_neg (by omega)]
        split at hup
        · rw [if_pos (by omega)]
        · split <;> omega
    rw [roundNat, roundNat, hulp]
    exact Nat.mul_le_mul_right _ hmantissa
  · have := (fits_roundNat a).le_roundNat (n := b) (by exact_mod_cast hge)
    exact_mod_cast this

/-! ## Integers -/

theorem roundNat_of_le (hn : n ≤ 2 ^ 53) : roundNat n = n := by
  rcases Nat.lt_or_ge n (2 ^ 53) with hlt | hge
  · exact roundNat_of_lt hlt
  · obtain rfl : n = 2 ^ 53 := by omega
    decide

def roundInt (n : Int) : Int :=
  if 0 ≤ n then roundNat n.toNat else -roundNat (-n).toNat

theorem roundInt_of_le {n : Int} (hlow : -2 ^ 53 ≤ n) (hhigh : n ≤ 2 ^ 53) : roundInt n = n := by
  unfold roundInt
  split
  · rw [roundNat_of_le (by omega)]
    omega
  · rw [roundNat_of_le (by omega)]
    omega

theorem roundInt_mono {a b : Int} (h : a ≤ b) : roundInt a ≤ roundInt b := by
  unfold roundInt
  split
  · rw [if_pos (by omega)]
    exact_mod_cast roundNat_mono (by omega)
  · split
    · omega
    · have := roundNat_mono (show (-b).toNat ≤ (-a).toNat by omega)
      omega

/-- An integer that 53 bits hold with room to spare is what no other integer rounds to. -/
theorem eq_of_roundInt_eq {a v : Int} (hlow : -2 ^ 53 < v) (hhigh : v < 2 ^ 53)
    (h : roundInt a = v) : a = v := by
  rcases lt_trichotomy a v with hlt | heq | hgt
  · have := roundInt_mono (show a ≤ v - 1 by omega)
    rw [roundInt_of_le (n := v - 1) (by omega) (by omega)] at this
    omega
  · exact heq
  · have := roundInt_mono (show v + 1 ≤ a by omega)
    rw [roundInt_of_le (n := v + 1) (by omega) (by omega)] at this
    omega

def ofInt (n : Int) : Float := .ofModel (.ofInt n)

def toRat (f : Float) : ℚ := rat f.toModel.unpack

theorem proper_of_isFinite (h : f.isFinite = true) : Proper f.toModel.unpack := by
  have h : f.toModel.unpack.isFinite = true := h
  cases hf : f.toModel.unpack with
  | infinity s => rw [hf] at h; cases h
  | notANumber => rw [hf] at h; cases h
  | zero s => trivial
  | finite s m e hm => exact canonical_of_unpack hf

theorem le_iff (ha : a.isFinite = true) (hb : b.isFinite = true) : a ≤ b ↔ toRat a ≤ toRat b := by
  rw [toRat, toRat, ← le_rat (proper_of_isFinite ha) (proper_of_isFinite hb)]
  show decide (a.toModel.unpack.le b.toModel.unpack = true) = true ↔ _
  rw [decide_eq_true_eq]

theorem lt_iff (ha : a.isFinite = true) (hb : b.isFinite = true) : a < b ↔ toRat a < toRat b := by
  rw [toRat, toRat, ← lt_rat (proper_of_isFinite ha) (proper_of_isFinite hb)]
  show decide (a.toModel.unpack.lt b.toModel.unpack = true) = true ↔ _
  rw [decide_eq_true_eq]

theorem beq_iff (ha : a.isFinite = true) (hb : b.isFinite = true) :
    (a == b) = true ↔ toRat a = toRat b :=
  beq_rat (proper_of_isFinite ha) (proper_of_isFinite hb)

theorem infinite_lt (ha : a.toModel.unpack = .infinity s) (hb : b.isFinite = true) :
    a < b ↔ s = .negative := by
  have hb := proper_of_isFinite hb
  show decide (a.toModel.unpack.lt b.toModel.unpack = true) = true ↔ _
  rw [ha, decide_eq_true_eq]
  cases hunpack : b.toModel.unpack with
  | infinity s' => rw [hunpack] at hb; exact hb.elim
  | notANumber => rw [hunpack] at hb; exact hb.elim
  | zero s' => cases s <;> simp [UnpackedFloat.lt, UnpackedFloat.compare]
  | finite s' m e hm => cases s <;> simp [UnpackedFloat.lt, UnpackedFloat.compare]

theorem le_infinite (ha : a.toModel.unpack = .infinity s) (hb : b.isFinite = true) :
    b ≤ a ↔ s = .positive := by
  have hb := proper_of_isFinite hb
  show decide (b.toModel.unpack.le a.toModel.unpack = true) = true ↔ _
  rw [ha, decide_eq_true_eq]
  cases hunpack : b.toModel.unpack with
  | infinity s' => rw [hunpack] at hb; exact hb.elim
  | notANumber => rw [hunpack] at hb; exact hb.elim
  | zero s' => cases s <;> simp [UnpackedFloat.le, UnpackedFloat.compare]
  | finite s' m e hm => cases s <;> simp [UnpackedFloat.le, UnpackedFloat.compare]

theorem beq_of_not_finite (ha : a.isFinite = false) (hb : b.isFinite = true) :
    (a == b) = false := by
  have ha : a.toModel.unpack.isFinite = false := ha
  have hb := proper_of_isFinite hb
  show a.toModel.unpack.beq b.toModel.unpack = false
  cases hunpack : a.toModel.unpack with
  | notANumber => rfl
  | infinity s =>
    cases hunpack' : b.toModel.unpack with
    | infinity s' => rw [hunpack'] at hb; exact hb.elim
    | notANumber => rfl
    | zero s' => cases s <;> rfl
    | finite s' m e hm => cases s <;> rfl
  | zero s => rw [hunpack] at ha; cases ha
  | finite s m e hm => rw [hunpack] at ha; cases ha

theorem Normal.unpack {f : UnpackedFloat} (h : Normal s q f) :
    UnpackedFloat.unpack Format.binary64 (UnpackedFloat.pack Format.binary64 f) = f := by
  obtain ⟨m, e, hm, rfl, hnormal, hlt, hlow, hhigh, -⟩ := h.finite
  exact unpack_pack hnormal hlt (by omega) hhigh

theorem Normal.isFinite {f : UnpackedFloat} (h : Normal s q f) : f.isFinite = true := by
  obtain ⟨m, e, hm, rfl, -⟩ := h.finite
  rfl

theorem unpack_ofInt_of_pos {n : Int} (hn : 0 < n) (hmax : n.toNat.log2 ≤ 1000) :
    (ofInt n).toModel.unpack = UnpackedFloat.round Format.binary64 .positive n.toNat 0 := by
  have hofInt : UnpackedFloat.ofInt Format.binary64 n =
      UnpackedFloat.round Format.binary64 .positive n.toNat 0 := by
    rw [UnpackedFloat.ofInt, UnpackedFloat.normalize, compare_gt_iff_gt.mpr hn]
  show UnpackedFloat.unpack _ (UnpackedFloat.pack _ (UnpackedFloat.ofInt _ n)) = _
  rw [hofInt]
  exact (round_nat (by omega) hmax).unpack

theorem unpack_ofInt_of_neg {n : Int} (hn : n < 0) (hmax : (-n).toNat.log2 ≤ 1000) :
    (ofInt n).toModel.unpack = UnpackedFloat.round Format.binary64 .negative (-n).toNat 0 := by
  have hofInt : UnpackedFloat.ofInt Format.binary64 n =
      UnpackedFloat.round Format.binary64 .negative (-n).toNat 0 := by
    rw [UnpackedFloat.ofInt, UnpackedFloat.normalize, compare_lt_iff_lt.mpr hn]
  show UnpackedFloat.unpack _ (UnpackedFloat.pack _ (UnpackedFloat.ofInt _ n)) = _
  rw [hofInt]
  exact (round_nat (by omega) hmax).unpack

/-- An integer of moderate size: no conversion overflows. -/
def Moderate (n : Int) : Prop := n.natAbs.log2 ≤ 1000

theorem moderate_of_lt {n : Int} (hlow : -2 ^ 64 < n) (hhigh : n < 2 ^ 64) : Moderate n := by
  unfold Moderate
  rcases Nat.eq_zero_or_pos n.natAbs with h0 | hpos
  · rw [h0]
    decide
  · have := (Nat.log2_lt hpos.ne').mpr (show n.natAbs < 2 ^ 64 by omega)
    omega

/-- The double of an integer is that integer rounded. -/
theorem ofInt_spec {n : Int} (hmax : Moderate n) :
    (ofInt n).isFinite = true ∧ toRat (ofInt n) = roundInt n := by
  unfold Moderate at hmax
  rcases lt_trichotomy n 0 with hn | rfl | hn
  · have habs : (-n).toNat = n.natAbs := by omega
    have hunpack := unpack_ofInt_of_neg hn (habs ▸ hmax)
    have hround := round_nat (s := .negative) (by omega : 0 < (-n).toNat) (habs ▸ hmax)
    constructor
    · show (ofInt n).toModel.unpack.isFinite = true
      rw [hunpack, hround.isFinite]
    · obtain ⟨m, e, hm, hfinite, -, -, -, -, hvalue⟩ := hround.finite
      rw [toRat, hunpack, hfinite, rat_negative, hvalue, roundInt, if_neg (by omega)]
      push_cast
      rfl
  · exact ⟨by decide, by rfl⟩
  · have habs : n.toNat = n.natAbs := by omega
    have hunpack := unpack_ofInt_of_pos hn (habs ▸ hmax)
    have hround := round_nat (s := .positive) (by omega : 0 < n.toNat) (habs ▸ hmax)
    constructor
    · show (ofInt n).toModel.unpack.isFinite = true
      rw [hunpack, hround.isFinite]
    · obtain ⟨m, e, hm, hfinite, -, -, -, -, hvalue⟩ := hround.finite
      rw [toRat, hunpack, hfinite, rat_positive, hvalue, roundInt, if_pos (by omega)]
      push_cast
      rfl

/-- Every finite double has a mantissa of 53 bits. -/
theorem fits_of_isFinite (h : f.isFinite = true) :
    (0 ≤ toRat f ∧ Fits (toRat f)) ∨ (toRat f ≤ 0 ∧ Fits (-toRat f)) := by
  have hproper := proper_of_isFinite h
  unfold toRat
  cases hf : f.toModel.unpack with
  | infinity s => rw [hf] at hproper; exact hproper.elim
  | notANumber => rw [hf] at hproper; exact hproper.elim
  | zero s => exact .inl ⟨le_refl _, 0, 0, by decide, by simp [rat]⟩
  | finite s m e hm =>
    rw [hf] at hproper
    have hcanonical : Canonical m e := hproper
    have hpos := mul_zpow_pos hm e
    cases s with
    | positive =>
      rw [rat_positive]
      exact .inl ⟨hpos.le, m, e, hcanonical.lt, rfl⟩
    | negative =>
      rw [rat_negative]
      exact .inr ⟨by linarith, m, e, hcanonical.lt, neg_neg _⟩

theorem roundInt_of_nonneg {n : Int} (hn : 0 ≤ n) : (roundInt n : ℚ) = roundNat n.toNat := by
  rw [roundInt, if_pos hn]
  push_cast
  rfl

theorem roundInt_of_neg {n : Int} (hn : n < 0) : (roundInt n : ℚ) = -roundNat (-n).toNat := by
  rw [roundInt, if_neg (by omega)]
  push_cast
  rfl

theorem cast_toNat {n : Int} (hn : 0 ≤ n) : ((n.toNat : Nat) : ℚ) = n := by
  have : ((n.toNat : Nat) : Int) = n := Int.toNat_of_nonneg hn
  exact_mod_cast this

theorem toRat_le_roundInt (hf : f.isFinite = true) {n : Int} (h : toRat f ≤ n) :
    toRat f ≤ roundInt n := by
  rcases le_or_gt 0 n with hn | hn
  · rw [roundInt_of_nonneg hn]
    rcases fits_of_isFinite hf with ⟨-, hfits⟩ | ⟨hneg, -⟩
    · exact hfits.le_roundNat (by rwa [cast_toNat hn])
    · exact hneg.trans (by positivity)
  · rw [roundInt_of_neg hn]
    have hn' : (n : ℚ) < 0 := by exact_mod_cast hn
    rcases fits_of_isFinite hf with ⟨hpos, -⟩ | ⟨-, hfits⟩
    · linarith
    · have := hfits.roundNat_le (n := (-n).toNat) (by
        rw [cast_toNat (by omega)]
        push_cast
        linarith)
      linarith

/-- An integer below a double is rounded to one below it. -/
theorem roundInt_le_toRat (hf : f.isFinite = true) {n : Int} (h : n ≤ toRat f) :
    roundInt n ≤ toRat f := by
  rcases le_or_gt 0 n with hn | hn
  · rw [roundInt_of_nonneg hn]
    have hn' : (0 : ℚ) ≤ n := by exact_mod_cast hn
    rcases fits_of_isFinite hf with ⟨-, hfits⟩ | ⟨hneg, hfits⟩
    · exact hfits.roundNat_le (by rwa [cast_toNat hn])
    · -- both are zero
      have hzero : toRat f = 0 := le_antisymm hneg (hn'.trans h)
      have : n = 0 := by
        have : (n : ℚ) ≤ 0 := by rwa [hzero] at h
        have : n ≤ 0 := by exact_mod_cast this
        omega
      subst this
      rw [hzero]
      decide
  · rw [roundInt_of_neg hn]
    rcases fits_of_isFinite hf with ⟨hpos, -⟩ | ⟨-, hfits⟩
    · have : (0 : ℚ) ≤ roundNat (-n).toNat := by positivity
      linarith
    · have := hfits.le_roundNat (n := (-n).toNat) (by
        rw [cast_toNat (by omega)]
        push_cast
        linarith)
      linarith

/-! ## Signs -/

theorem round_neg (s : Sign) (m : Nat) (e : Int) :
    (UnpackedFloat.round Format.binary64 s m e).neg = UnpackedFloat.round Format.binary64 (-s) m
      e := by
  unfold UnpackedFloat.round roundWithAccuracy
  simp only
  split <;> rfl

theorem neg_ofInt {n : Int} (hn : 0 < n) (hmax : Moderate n) : -ofInt n = ofInt (-n) := by
  have hunpack := unpack_ofInt_of_pos hn (show n.toNat.log2 ≤ 1000 by
    rwa [show n.toNat = n.natAbs by omega])
  have hofInt : UnpackedFloat.ofInt Format.binary64 (-n) =
      UnpackedFloat.round Format.binary64 .negative n.toNat 0 := by
    rw [UnpackedFloat.ofInt, UnpackedFloat.normalize, compare_lt_iff_lt.mpr (by omega), Int.neg_neg]
  show Float.ofModel (Float.Model.pack (ofInt n).toModel.unpack.neg) =
    Float.ofModel (Float.Model.pack (UnpackedFloat.ofInt Format.binary64 (-n)))
  rw [hunpack, hofInt, round_neg]
  rfl

end TedgeDot.Binary64
