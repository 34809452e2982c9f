import TedgeDot.Lib.Binary64

/-!
# Conversions of floats

Between the bits of a float and the float, between the two widths, to an integer, and from a
rational number:

- `toBits_ofBits`: the bits of a float that is not a NaN come back from it.
- `narrow_widen`: a 32-bit float survives the way through 64 bits.
- `trunc_of_integral`: a float that is an integer is truncated to that integer.
- `nearest_int`: the float nearest a rational number is, for an integer, its conversion.
-/

namespace TedgeDot.Binary64

open Float.Model Float.Model.UnpackedFloat

/-! ## Bits -/

theorem toNat_one_append {k : Nat} (m : BitVec k) : (1#1 ++ m).toNat = 2 ^ k + m.toNat := by
  have hor := Nat.two_pow_add_eq_or_of_lt m.isLt 1
  rw [BitVec.toNat_append, Nat.shiftLeft_eq, BitVec.toNat_one (by decide), Nat.one_mul]
  rw [Nat.mul_one] at hor
  exact hor.symm

/-! ## Exact shifts -/

theorem repeat_shiftRightOne (m k : Nat) :
    (ExtendedMantissa.mk (m * 2 ^ k) false false) >>> k = ExtendedMantissa.mk m false false := by
  show k.repeat ExtendedMantissa.shiftRightOne _ = _
  induction k generalizing m with
  | zero => simp [Nat.repeat]
  | succ k ih =>
    have htwice : m * 2 ^ (k + 1) = m * 2 * 2 ^ k := by rw [Nat.pow_succ]; ring
    show ExtendedMantissa.shiftRightOne (k.repeat ExtendedMantissa.shiftRightOne _) = _
    rw [htwice, ih]
    simp [ExtendedMantissa.shiftRightOne]

theorem shiftRight_add (em : ExtendedMantissa) (k j : Nat) : em >>> (k + j) = em >>> k >>> j := by
  show (k + j).repeat ExtendedMantissa.shiftRightOne em =
    j.repeat ExtendedMantissa.shiftRightOne (k.repeat ExtendedMantissa.shiftRightOne em)
  induction j with
  | zero => rfl
  | succ j ih =>
    rw [Nat.add_succ, Nat.repeat, ih]
    rfl

section Scaled

variable {spec : Format} {m k : Nat} {e : Int}

theorem log2_mul_two_pow (hm : 0 < m) (k : Nat) : (m * 2 ^ k).log2 = m.log2 + k := by
  have hpos : 0 < m * 2 ^ k := Nat.mul_pos hm (Nat.two_pow_pos k)
  apply (Nat.log2_eq_iff hpos.ne').mpr
  have hlow := Nat.log2_self_le hm.ne'
  have hhigh : m < 2 ^ (m.log2 + 1) := Nat.lt_log2_self
  constructor
  · rw [Nat.pow_add]
    exact Nat.mul_le_mul_right _ hlow
  · rw [Nat.add_right_comm, Nat.pow_add]
    exact Nat.mul_lt_mul_of_pos_right hhigh (Nat.two_pow_pos k)

theorem totalExponent_scaled (hm : 0 < m) (k : Nat) :
    totalExponent (m * 2 ^ k) (e - k) = totalExponent m e := by
  unfold totalExponent
  rw [log2_mul_two_pow hm]
  omega

theorem shiftToTargetExponent_scaled (hm : 0 < m) (k : Nat)
    (htarget : e ≤ spec.targetExponent (totalExponent m e)) :
    shiftToTargetExponent spec (m * 2 ^ k) (e - k) .exact =
      shiftToTargetExponent spec m e .exact := by
  unfold shiftToTargetExponent shiftToExponent
  simp only [totalExponent_scaled hm]
  generalize spec.targetExponent (totalExponent m e) = t at htarget
  have hshift : (t - (e - k)).toNat = k + (t - e).toNat := by omega
  rw [hshift]
  refine Prod.ext ?_ ?_
  · show (ExtendedMantissa.mk (m * 2 ^ k) false false) >>> (k + (t - e).toNat) = _
    rw [shiftRight_add, repeat_shiftRightOne]
    rfl
  · show e - k + ((k + (t - e).toNat : Nat) : Int) = e + ((t - e).toNat : Nat)
    push_cast
    omega

theorem roundWithAccuracy_congr {s : Sign} {m m' : Nat} {e e' : Int}
    (h : shiftToTargetExponent spec m e .exact = shiftToTargetExponent spec m' e' .exact) :
    roundWithAccuracy spec s m e .exact = roundWithAccuracy spec s m' e' .exact := by
  unfold roundWithAccuracy
  rw [h]

theorem round_of_target_ge {s : Sign}
    (h : e ≤ spec.targetExponent (totalExponent m e)) :
    UnpackedFloat.round spec s m e = roundWithAccuracy spec s m e .exact := by
  unfold UnpackedFloat.round decreaseExponent
  simp only
  have hshift : (e - spec.targetExponent (totalExponent m e)).toNat = 0 := by omega
  rw [hshift, Nat.shiftLeft_zero]
  congr 1
  simp

theorem round_of_target_le {s : Sign} (j : Nat)
    (h : e - j = spec.targetExponent (totalExponent m e)) :
    UnpackedFloat.round spec s m e = roundWithAccuracy spec s (m * 2 ^ j) (e - j) .exact := by
  unfold UnpackedFloat.round decreaseExponent
  simp only
  have hshift : (e - spec.targetExponent (totalExponent m e)).toNat = j := by omega
  rw [hshift, Nat.shiftLeft_eq]

/-- Rounding depends on the number only, not on how much of it the mantissa writes out. -/
theorem round_scaled {s : Sign} (hm : 0 < m) (k : Nat) :
    UnpackedFloat.round spec s (m * 2 ^ k) (e - k) = UnpackedFloat.round spec s m e := by
  have htotal : totalExponent (m * 2 ^ k) (e - k) = totalExponent m e := totalExponent_scaled hm k
  rcases le_or_gt e (spec.targetExponent (totalExponent m e)) with hge | hlt
  · rw [round_of_target_ge hge, round_of_target_ge (by rw [htotal]; omega)]
    exact roundWithAccuracy_congr (shiftToTargetExponent_scaled hm k hge)
  · obtain ⟨j, hj⟩ : ∃ j : Nat, e - j = spec.targetExponent (totalExponent m e) :=
      ⟨(e - spec.targetExponent (totalExponent m e)).toNat, by omega⟩
    rw [round_of_target_le j hj]
    rcases Nat.le_total k j with hkj | hjk
    · have hrest : e - k - (j - k : Nat) =
        spec.targetExponent (totalExponent (m * 2 ^ k) (e - k)) := by
        rw [htotal]
        omega
      rw [round_of_target_le (j - k) hrest, Nat.mul_assoc, ← Nat.pow_add,
        show k + (j - k) = j by omega, show e - k - (j - k : Nat) = e - j by omega]
    · -- the mantissa is longer than the format needs
      have htarget : e - k ≤ spec.targetExponent (totalExponent (m * 2 ^ k) (e - k)) := by
        rw [htotal]
        omega
      rw [round_of_target_ge htarget]
      apply roundWithAccuracy_congr
      have hpos : 0 < m * 2 ^ j := Nat.mul_pos hm (Nat.two_pow_pos j)
      have hsplit := @shiftToTargetExponent_scaled spec (m * 2 ^ j) (e - j) hpos (k - j)
        (by rw [totalExponent_scaled hm]; omega)
      rw [Nat.mul_assoc, ← Nat.pow_add, show j + (k - j) = k by omega,
        show e - j - (k - j : Nat) = e - k by omega] at hsplit
      exact hsplit

theorem round_canonical {s : Sign} {hm : 0 < m}
    (h : spec.targetExponent (totalExponent m e) = e) :
    UnpackedFloat.round spec s m e = .finite s m e hm := by
  have hshift : shiftToTargetExponent spec m e .exact = (⟨m, false, false⟩, e) := by
    unfold shiftToTargetExponent shiftToExponent
    simp only [h, Int.sub_self]
    refine Prod.ext rfl ?_
    show e + ((0 : Int).toNat : Int) = e
    simp
  rw [round_of_target_ge h.ge]
  have hagain : shiftToTargetExponent spec (ExtendedMantissa.mk m false false).roundedMantissa e
      .exact = (⟨m, false, false⟩, e) := hshift
  unfold roundWithAccuracy
  simp only [hshift, hagain]
  rw [dif_neg hm.ne']

end Scaled

/-! ## The two widths -/

def widen (f : Float32) : Float :=
  match f.toModel.unpack with
  | .finite s m e _ => .ofModel (.pack (UnpackedFloat.round Format.binary64 s m e))
  | u => .ofModel (.pack u)

/-- The 32-bit float nearest a 64-bit one. -/
def narrow (f : Float) : Float32 :=
  match f.toModel.unpack with
  | .finite s m e _ => .ofModel (.pack (UnpackedFloat.round Format.binary32 s m e))
  | u => .ofModel (.pack u)

/-- A mantissa and an exponent as the bits of a 32-bit float give them. -/
structure Canonical32 (m : Nat) (e : Int) : Prop where
  lt : m < 2 ^ 24
  low : -149 ≤ e
  high : e ≤ 104
  target : Format.binary32.targetExponent (totalExponent m e) = e

variable {s : Sign} {f : Float} {n : Int}

/-- What a single unpacks to is canonical. -/
theorem canonical32_of_unpack {b : BitVec Format.binary32.numBits} {m : Nat} {e : Int} {hm : 0 < m}
    (h : UnpackedFloat.unpack Format.binary32 b = .finite s m e hm) : Canonical32 m e := by
  have hlt : (unpackMantissa b).toNat < 2 ^ 23 := (unpackMantissa b).isLt
  have hexp : (unpackExponent b).toNat < 2 ^ 8 := (unpackExponent b).isLt
  have hbias : Format.binary32.exponentBias = 127 := by decide
  unfold UnpackedFloat.unpack at h
  simp only at h
  split at h
  · split at h <;> cases h
  -- neither an infinity nor a NaN
  · rename_i hones
    split at h
    · -- subnormal: the exponent bits are zero
      rename_i h0
      split at h
      · cases h
      · cases h
        have hlog : (unpackMantissa b).toNat.log2 < 23 := (Nat.log2_lt hm.ne').mpr hlt
        have hlow : ((unpackExponent b).toNat : Int) -
            (Format.binary32.exponentBias + Format.binary32.mantissaBitsWithoutImplicit) + 1 =
            -149 := by
          rw [h0]
          decide
        rw [hlow]
        refine ⟨Nat.lt_trans hlt (by decide), by omega, by omega, ?_⟩
        unfold totalExponent Format.targetExponent
        simp only [Format.mantissaBits, Format.minExponent]
        omega
    · rename_i h0
      have hpos : 0 < (unpackExponent b).toNat :=
        Nat.pos_of_ne_zero fun hz => h0 (BitVec.eq_of_toNat_eq hz)
      have hlast : (unpackExponent b).toNat ≠ 255 := by
        intro hz
        apply hones
        apply BitVec.eq_of_toNat_eq
        rw [hz]
        decide
      cases h
      have happ : (1#1 ++ unpackMantissa b).toNat = 2 ^ 23 + (unpackMantissa b).toNat :=
        toNat_one_append (unpackMantissa b)
      have hlog : (1#1 ++ unpackMantissa b).toNat.log2 = 23 := by
        rw [happ]
        apply (Nat.log2_eq_iff (by omega)).mpr
        omega
      rw [hbias]
      refine ⟨by omega, by omega, by omega, ?_⟩
      unfold totalExponent Format.targetExponent
      rw [hlog]
      simp only [Format.mantissaBits, Format.minExponent]
      omega

/-- A single that is widened is narrowed to itself. -/
theorem narrow_widen (f : Float32) : narrow (widen f) = f := by
  obtain ⟨model⟩ := f
  have hmodel : Float32.Model.pack model.unpack = model := by
    obtain ⟨bits, hvalid⟩ := model
    have := UnpackedFloat.pack_unpack_of_valid hvalid
    unfold Float32.Model.pack Float32.Model.unpack
    simp only [Float32.Model.mk.injEq]
    rw [this]
  unfold widen
  cases hf : model.unpack with
  | finite s m e hm =>
    have hcanonical : Canonical32 m e := canonical32_of_unpack hf
    have hlog : m.log2 < 24 := (Nat.log2_lt hm.ne').mpr hcanonical.lt
    -- widening shifts the mantissa up to 53 bits; narrowing shifts it back
    obtain ⟨k, hk⟩ : ∃ k : Nat, m.log2 + k = 52 := ⟨52 - m.log2, by omega⟩
    have hpos : 0 < m * 2 ^ k := Nat.mul_pos hm (Nat.two_pow_pos k)
    have hlog52 : (m * 2 ^ k).log2 = 52 := by rw [log2_mul_two_pow hm, hk]
    have hbounds := (Nat.log2_eq_iff hpos.ne').mp hlog52
    have hlow := hcanonical.low
    have hhigh := hcanonical.high
    have htarget : Format.binary64.targetExponent (totalExponent (m * 2 ^ k) (e - k)) = e - k := by
      unfold totalExponent Format.targetExponent
      rw [hlog52]
      simp only [Format.mantissaBits, Format.minExponent]
      omega
    have hround : UnpackedFloat.round Format.binary64 s m e = .finite s (m * 2 ^ k) (e - k) hpos := by
      rw [← round_scaled hm k]
      exact round_canonical htarget
    have hwide : (Float.Model.pack (UnpackedFloat.round Format.binary64 s m e)).unpack =
        .finite s (m * 2 ^ k) (e - k) hpos := by
      rw [hround]
      exact unpack_pack hbounds.1 hbounds.2 (by omega) (by omega)
    unfold narrow
    simp only [hwide]
    rw [round_scaled hm k, @round_canonical _ _ _ s hm hcanonical.target, ← hf, hmodel]
  | infinity s =>
    rw [← hmodel, hf]
    cases s <;> decide
  | notANumber =>
    rw [← hmodel, hf]
    decide
  | zero s =>
    rw [← hmodel, hf]
    cases s <;> decide

/-! ## Bits and floats -/

theorem toBits_ofBits {u : UInt64} (h : (Float.ofBits u).isNaN = false) :
    (Float.ofBits u).toBits = u := by
  have hbits := @UnpackedFloat.pack_unpack Format.binary64 u.toBitVec (by decide)
  split at hbits
  · have hnan := (isNaN_unpack_iff_of_valid (Float.ofBits u).toModel.valid).mpr hbits
    rw [show (unpack Format.binary64 _).isNaN = false from h] at hnan
    cases hnan
  · exact UInt64.toBitVec_inj.mp hbits

theorem toBits_ofBits32 {u : UInt32} (h : (widen (Float32.ofBits u)).isNaN = false) :
    (Float32.ofBits u).toBits = u := by
  have hbits := @UnpackedFloat.pack_unpack Format.binary32 u.toBitVec (by decide)
  split at hbits
  · have hnan : Float32.ofBits u = .ofModel (.pack .notANumber) :=
      Float32.toBits_inj.mp (UInt32.toBitVec_inj.mp hbits)
    rw [hnan] at h
    exact absurd h (by decide)
  · exact UInt32.toBitVec_inj.mp hbits

/-! ## Whole numbers -/

/-- Whether a float is a whole number. Infinities and NaNs are not. -/
def integral (f : Float) : Bool :=
  match f.toModel.unpack with
  | .zero _ => true
  | .finite _ m e _ => 0 ≤ e || m % 2 ^ (-e).toNat == 0
  | _ => false

/-- A float as an `i64`: truncated and saturated. -/
def toI64 (f : Float) : Int64 := f.toModel.unpack.toInt64

/-- A float as a `u64`: truncated and saturated. -/
def toU64 (f : Float) : UInt64 := f.toModel.unpack.toUInt64

theorem rat_finite {m : Nat} {e : Int} {hm : 0 < m} :
    rat (.finite s m e hm) = (s.apply m : Int) * 2 ^ e := rfl

theorem apply_mul (s : Sign) (a b : Int) : s.apply (a * b) = s.apply a * b := by
  cases s
  · exact (neg_mul a b).symm
  · rfl

theorem rat_of_nonneg {m : Nat} {e : Int} {hm : 0 < m} (he : 0 ≤ e) :
    rat (.finite s m e hm) = (s.apply (m * 2 ^ e.toNat : Nat) : Int) := by
  obtain ⟨k, rfl⟩ := Int.eq_ofNat_of_zero_le he
  rw [rat_finite]
  push_cast
  rw [apply_mul, zpow_natCast]
  push_cast
  rfl

theorem rat_of_divides {m k q : Nat} {hm : 0 < m} (h : m = q * 2 ^ k) :
    rat (.finite s m (-(k : Int)) hm) = (s.apply q : Int) := by
  subst h
  rw [rat_finite, zpow_neg, zpow_natCast]
  push_cast
  rw [apply_mul]
  push_cast
  rw [mul_assoc, mul_inv_cancel₀ (by positivity), mul_one]

/-- Which doubles are integers. -/
theorem integral_iff : integral f = true ↔ f.isFinite = true ∧ ∃ n : Int, toRat f = n := by
  unfold integral toRat
  show _ ↔ f.toModel.unpack.isFinite = true ∧ _
  cases f.toModel.unpack with
  | infinity s => simp [UnpackedFloat.isFinite]
  | notANumber => simp [UnpackedFloat.isFinite]
  | zero s =>
    simp only [UnpackedFloat.isFinite, true_and, true_iff]
    exact ⟨0, by simp [rat]⟩
  | finite s m e hm =>
    simp only [UnpackedFloat.isFinite, true_and, Bool.or_eq_true, decide_eq_true_eq, beq_iff_eq]
    constructor
    · rintro (he | hmod)
      · exact ⟨_, rat_of_nonneg he⟩
      · rcases le_or_gt 0 e with he | he
        · exact ⟨_, rat_of_nonneg he⟩
        · obtain ⟨k, rfl⟩ : ∃ k : Nat, e = -(k : Int) := ⟨(-e).toNat, by omega⟩
          have hk : (-(-(k : Int))).toNat = k := by omega
          rw [hk] at hmod
          have hdiv := Nat.div_mul_cancel (Nat.dvd_of_mod_eq_zero hmod)
          exact ⟨_, rat_of_divides hdiv.symm⟩
    · rintro ⟨n, hn⟩
      rcases le_or_gt 0 e with he | he
      · exact .inl he
      · right
        obtain ⟨k, rfl⟩ : ∃ k : Nat, e = -(k : Int) := ⟨(-e).toNat, by omega⟩
        have hk : (-(-(k : Int))).toNat = k := by omega
        rw [hk]
        -- the mantissa is the integer times the power of two
        have hmul : ((s.apply m : Int) : ℚ) = ((n * 2 ^ k : Int) : ℚ) := by
          rw [rat_finite, zpow_neg, zpow_natCast] at hn
          push_cast
          rw [← hn, mul_assoc, inv_mul_cancel₀ (by positivity), mul_one]
        have hint : s.apply (m : Int) = n * 2 ^ k := by exact_mod_cast hmul
        have hdvd : ((2 ^ k : Nat) : Int) ∣ (m : Int) := by
          cases s with
          | positive => exact ⟨n, by rw [mul_comm]; push_cast; exact hint⟩
          | negative =>
            refine ⟨-n, ?_⟩
            have : -(m : Int) = n * 2 ^ k := hint
            push_cast
            linarith
        exact Nat.mod_eq_zero_of_dvd (Int.natCast_dvd_natCast.mp hdvd)

/-- Truncation keeps them. -/
theorem trunc_of_integral (h : integral f = true) (hn : toRat f = n) (lo hi : Int) :
    f.toModel.unpack.toInt lo hi = n := by
  unfold integral at h
  unfold toRat at hn
  cases hf : f.toModel.unpack with
  | infinity s => rw [hf] at h; cases h
  | notANumber => rw [hf] at h; cases h
  | zero s =>
    rw [hf] at hn
    have hn : (0 : ℚ) = n := hn
    exact_mod_cast hn
  | finite s m e hm =>
    rw [hf] at h hn
    simp only [Bool.or_eq_true, decide_eq_true_eq, beq_iff_eq] at h
    unfold UnpackedFloat.toInt roundToInt decreaseExponent shiftToExponent
    simp only
    -- a negative exponent divides the mantissa without a remainder
    rcases le_or_gt 0 e with he | he
    · have hzero : (0 - (e - ((e - 0).toNat : Int))).toNat = 0 := by omega
      rw [hzero, Nat.shiftLeft_eq, Int.sub_zero]
      show s.apply (m * 2 ^ e.toNat : Nat) = n
      rw [rat_of_nonneg he] at hn
      exact_mod_cast hn
    · have hmod : m % 2 ^ (-e).toNat = 0 := h.resolve_left (by omega)
      obtain ⟨k, rfl⟩ : ∃ k : Nat, e = -(k : Int) := ⟨(-e).toNat, by omega⟩
      have hk : (-(-(k : Int))).toNat = k := by omega
      rw [hk] at hmod
      have hdiv := Nat.div_mul_cancel (Nat.dvd_of_mod_eq_zero hmod)
      have hup : (-(k : Int) - 0).toNat = 0 := by omega
      rw [hup]
      have hdown : (0 - (-(k : Int) - ((0 : Nat) : Int))).toNat = k := by omega
      rw [hdown, Nat.shiftLeft_zero, (shifted m k).mantissa]
      rw [rat_of_divides hdiv.symm] at hn
      exact_mod_cast hn

theorem toI64_of_integral (h : integral f = true) (hn : toRat f = n) (hlow : -2 ^ 63 ≤ n)
    (hhigh : n < 2 ^ 63) : (toI64 f).toInt = n := by
  unfold toI64 UnpackedFloat.toInt64
  rw [trunc_of_integral h hn]
  unfold Int64.ofIntClamp
  have hmin : Int64.minValue.toInt = -2 ^ 63 := by decide
  have hmax : Int64.maxValue.toInt = 2 ^ 63 - 1 := by decide
  rw [dif_pos (by omega), dif_pos (by omega)]
  exact Int64.toInt_ofInt_of_le (by omega) (by omega)

theorem toU64_of_integral (h : integral f = true) (hn : toRat f = n) (hlow : 0 ≤ n)
    (hhigh : n < 2 ^ 64) : ((toU64 f).toNat : Int) = n := by
  unfold toU64 UnpackedFloat.toUInt64
  rw [trunc_of_integral h hn]
  unfold UInt64.ofNatClamp
  have hsize : UInt64.size = 2 ^ 64 := by decide
  rw [dif_pos (by omega)]
  show ((n.toNat : Nat) : Int) = n
  omega

/-! ## The nearest float -/

/-- The float nearest a rational number that is not negative, under a sign; ties go to the even
mantissa. The number is cut at `2 ^ -1200`, below every bit of a float, and what is cut off decides
the rounding. -/
def nearest (s : Sign) (q : ℚ) : Float :=
  let scaled := q * (2 ^ 1200 : Nat)
  let m := scaled.floor.toNat
  let rest := scaled - m
  let accuracy : Accuracy := if rest = 0 then .exact else .inexact (compare rest (1 / 2))
  .ofModel (.pack (roundWithAccuracy Format.binary64 s m (-1200) accuracy))

theorem nearest_nat (s : Sign) (n : Nat) : nearest s n =
    .ofModel (.pack (roundWithAccuracy Format.binary64 s (n * 2 ^ 1200) (-1200) .exact)) := by
  have hscaled : (n : ℚ) * (2 ^ 1200 : Nat) = ((n * 2 ^ 1200 : Nat) : Int) := by
    rw [Int.cast_natCast, Nat.cast_mul]
  unfold nearest
  simp only
  rw [hscaled, Rat.floor_intCast, Int.toNat_natCast, Int.cast_natCast, sub_self, if_pos rfl]

theorem nearest_zero (s : Sign) : nearest s 0 = .ofModel (.pack (.zero s)) := by
  have := nearest_nat s 0
  rw [Nat.cast_zero] at this
  rw [this]
  cases s <;> decide +kernel

theorem nearest_of_pos {n : Nat} (hn : 0 < n) :
    nearest s n = .ofModel (.pack (UnpackedFloat.round Format.binary64 s n 0)) := by
  have htarget : (-1200 : Int) ≤
      Format.binary64.targetExponent (totalExponent (n * 2 ^ 1200) (0 - (1200 : Nat))) := by
    unfold Format.targetExponent
    simp only [Format.minExponent, Format.mantissaBits]
    omega
  rw [nearest_nat, ← round_scaled hn 1200, round_of_target_ge (by exact htarget)]
  rfl

theorem nearest_int (hn : 0 ≤ n) : nearest .positive n = ofInt n := by
  obtain ⟨k, rfl⟩ := Int.eq_ofNat_of_zero_le hn
  rcases Nat.eq_zero_or_pos k with rfl | hk
  · rw [Int.ofNat_zero, Int.cast_zero, nearest_zero]
    decide
  · have hofInt : UnpackedFloat.ofInt Format.binary64 k =
        UnpackedFloat.round Format.binary64 .positive k 0 := by
      rw [UnpackedFloat.ofInt, UnpackedFloat.normalize, compare_gt_iff_gt.mpr (by omega)]
      rfl
    rw [Int.cast_natCast, nearest_of_pos hk, ← hofInt]
    rfl

theorem nearest_neg (hn : n < 0) : nearest .negative ((-n : Int) : ℚ) = ofInt n := by
  obtain ⟨k, hk⟩ := Int.eq_ofNat_of_zero_le (show 0 ≤ -n by omega)
  have hofInt : UnpackedFloat.ofInt Format.binary64 n =
      UnpackedFloat.round Format.binary64 .negative k 0 := by
    rw [UnpackedFloat.ofInt, UnpackedFloat.normalize, compare_lt_iff_lt.mpr hn]
    simp only
    congr 1
    omega
  rw [hk, Int.cast_natCast, nearest_of_pos (by omega), ← hofInt]
  rfl

/-- The nearest double of a natural number is its rounding. -/
theorem toRat_nearest_nat {n : Nat} (h : (nearest s n).isFinite = true) :
    toRat (nearest s n) = (s.apply (roundNat n) : Int) := by
  rcases Nat.eq_zero_or_pos n with rfl | hn
  · rw [Nat.cast_zero, nearest_zero]
    cases s <;> rfl
  have hform : ∃ m e hm, UnpackedFloat.round Format.binary64 s n 0 = .finite s m e hm ∧
      2 ^ 52 ≤ m ∧ m < 2 ^ 53 ∧ -52 ≤ e ∧ (m : ℚ) * 2 ^ e = roundNat n := by
    rcases Nat.lt_or_ge n (2 ^ 53) with hlt | hge
    · obtain ⟨m, e, hm, hround, h1, h2, h3, -, hvalue⟩ := (round_of_small (s := s) hn hlt).finite
      exact ⟨m, e, hm, hround, h1, h2, h3, by rw [hvalue, roundNat_of_lt hlt]⟩
    · obtain ⟨m, e, hm, hround, h1, h2, h3, -, hvalue⟩ :=
        round_of_large_form (s := s) (n := n) (by omega)
      exact ⟨m, e, hm, hround, h1, h2, h3, hvalue⟩
  obtain ⟨m, e, hm, hround, hnormal, hlt, hlow, hvalue⟩ := hform
  rw [nearest_of_pos hn, hround] at h ⊢
  rcases le_or_gt e 971 with he | he
  · have hunpack := @unpack_pack s m e hm hnormal hlt (by omega) he
    show rat (UnpackedFloat.unpack _ (UnpackedFloat.pack _ _)) = _
    rw [hunpack]
    cases s with
    | positive =>
      rw [rat_positive, hvalue]
      rfl
    | negative =>
      rw [rat_negative, hvalue]
      exact (Int.cast_neg _).symm
  · -- an exponent that does not fit packs to an infinity
    have hpack : UnpackedFloat.pack Format.binary64 (.finite s m e hm) =
        packedInfinity Format.binary64 s := by
      have hbias : Format.binary64.exponentBias = 1023 := by decide
      unfold UnpackedFloat.pack
      simp only [hbias]
      rw [if_pos (by show 2 ^ 11 ≤ _; omega)]
    have hinf : (UnpackedFloat.unpack Format.binary64
        (UnpackedFloat.pack Format.binary64 (.finite s m e hm))).isFinite = false := by
      rw [hpack]
      cases s <;> decide
    exact absurd (hinf.symm.trans h) (by decide)

end TedgeDot.Binary64
