import TedgeDot.Sdk.Codec

/-!
# Encoding and decoding

Every encoder of an integer datatype takes a value for one integer, within the range of the
datatype, and writes its bytes (`encodeFixed_integer`); every decoder reads the integer back
(`ofBytes_intBytes`).

- `encode_decode`: the bytes of a value that was decoded are the bytes it was decoded from.
- `decode_encode_iff`: a value that was encoded is decoded to the same number, if it is an integer.
-/

namespace TedgeDot

open Binary64

/-- The number that a value stands for, exactly: the decimal digits of a text are not rounded. -/
def Value.exact : Value → Option ℚ
  | .bool b => some (if b then 1 else 0)
  | .number n => if n.isFinite then some (toRat n) else none
  | .text t => Decimal.exact t

def Value.isNaN : Value → Bool
  | .number n => n.isNaN
  | _ => false

namespace Codec

/-! ## Integer datatypes -/

/-- The bytes of a value of the datatype. -/
def width (datatype : DataType) : Nat := datatype.byteLen.getD 0

def isSigned : DataType → Bool
  | .int8 | .int16 | .int32 | .int64 => true
  | _ => false

def least (datatype : DataType) : Int :=
  if isSigned datatype then -2 ^ (8 * width datatype - 1) else 0

def greatest (datatype : DataType) : Int :=
  if isSigned datatype then 2 ^ (8 * width datatype - 1) - 1 else 2 ^ (8 * width datatype) - 1

def InRange (datatype : DataType) (n : Int) : Prop := least datatype ≤ n ∧ n ≤ greatest datatype

def ofBytes (datatype : DataType) (be : List UInt8) : Int :=
  if isSigned datatype then toSigned (8 * width datatype) (fromBeBytes be) else fromBeBytes be

/-- The integer that the encoder of an integer datatype takes a value for. -/
def integerOf (value : Value) (datatype : DataType) : Except DecodeError Int :=
  match datatype with
  | .int64 => intFromValue value
  | .uint64 => uintFromValue value
  | _ => smallInt value datatype (least datatype) (greatest datatype)

section Ranges

variable {datatype : DataType} {n : Int}

theorem encodeFixed_integer (h : datatype.isInteger = true) (value : Value) :
    encodeFixed value datatype = (integerOf value datatype).map (intBytes (width datatype)) := by
  cases datatype <;> first | rfl | cases h

theorem whole_of_integer (h : datatype.isInteger = true) {be : List UInt8}
    (hlen : be.length = width datatype) : Whole be := by
  unfold Whole
  rw [hlen]
  cases datatype <;> first | decide | cases h

theorem InRange.bounds (hrange : InRange datatype n) : -2 ^ 63 ≤ n ∧ n < 2 ^ 64 := by
  have hall : -2 ^ 63 ≤ least datatype ∧ greatest datatype < 2 ^ 64 := by
    cases datatype <;> decide
  unfold InRange at hrange
  omega

theorem InRange.small (hrange : InRange datatype n) (h : datatype.isInteger = true)
    (h64 : datatype ≠ .int64) (hu64 : datatype ≠ .uint64) : -2 ^ 32 < n ∧ n < 2 ^ 32 := by
  have hall : -2 ^ 32 < least datatype ∧ greatest datatype < 2 ^ 32 := by
    cases datatype <;> first | contradiction | decide
  unfold InRange at hrange
  omega

theorem inRange_ofBytes {be : List UInt8}
    (hlen : be.length = width datatype) : InRange datatype (ofBytes datatype be) := by
  have hlt := fromBeBytes_lt be
  have hpow : (256 : Nat) ^ be.length = 2 ^ (8 * width datatype) := by
    rw [hlen, Nat.pow_mul]
  rw [hpow] at hlt
  unfold InRange least greatest ofBytes
  split
  · unfold toSigned
    have hlow := BitVec.le_toInt (BitVec.ofNat (8 * width datatype) (fromBeBytes be))
    have hhigh := BitVec.toInt_lt (x := BitVec.ofNat (8 * width datatype) (fromBeBytes be))
    omega
  · have : ((fromBeBytes be : Nat) : Int) < 2 ^ (8 * width datatype) := by exact_mod_cast hlt
    omega

theorem intBytes_ofBytes {be : List UInt8} (hlen : be.length = width datatype) :
    intBytes (width datatype) (ofBytes datatype be) = be := by
  have hlt := fromBeBytes_lt be
  have hpow : (256 : Nat) ^ be.length = 2 ^ (8 * width datatype) := by
    rw [hlen, Nat.pow_mul]
  rw [hpow] at hlt
  have hnat : (BitVec.ofInt (8 * width datatype) (ofBytes datatype be)).toNat = fromBeBytes be := by
    unfold ofBytes
    split
    · unfold toSigned
      rw [BitVec.ofInt_toInt, BitVec.toNat_ofNat, Nat.mod_eq_of_lt hlt]
    · rw [BitVec.ofInt_natCast, BitVec.toNat_ofNat, Nat.mod_eq_of_lt hlt]
  rw [intBytes, hnat, ← hlen, toBeBytes_fromBeBytes]

/-- An integer in range is read back from its bytes. -/
theorem ofBytes_intBytes (h : datatype.isInteger = true) (hrange : InRange datatype n) :
    ofBytes datatype (intBytes (width datatype) n) = n := by
  have hpow : (256 : Nat) ^ width datatype = 2 ^ (8 * width datatype) := by
    rw [Nat.pow_mul]
  have hpos : 0 < 8 * width datatype := by
    cases datatype <;> first | decide | cases h
  unfold intBytes ofBytes
  rw [fromBeBytes_toBeBytes, hpow, Nat.mod_eq_of_lt (BitVec.isLt _)]
  unfold InRange least greatest at hrange
  cases hsigned : isSigned datatype with
  | true =>
    rw [hsigned, if_pos rfl] at hrange
    rw [if_pos rfl, toSigned, BitVec.ofNat_toNat, BitVec.setWidth_eq]
    apply BitVec.toInt_ofInt_eq_self hpos
    · exact hrange.1
    · have := hrange.2
      rw [if_pos rfl] at this
      omega
  | false =>
    rw [hsigned, if_neg Bool.false_ne_true, if_neg Bool.false_ne_true] at hrange
    rw [if_neg Bool.false_ne_true, BitVec.toNat_ofInt]
    have hmod : n % ((2 ^ (8 * width datatype) : Nat) : Int) = n := by
      apply Int.emod_eq_of_lt hrange.1
      push_cast
      omega
    rw [hmod]
    omega

theorem decodeFixed_integer (h : datatype.isInteger = true) {be : List UInt8}
    (hlen : be.length = width datatype) :
    decodeFixed be datatype = intValue (ofBytes datatype be) := by
  have hrange := inRange_ofBytes hlen
  by_cases h64 : datatype = .int64
  · subst h64
    rfl
  · by_cases hu64 : datatype = .uint64
    · subst hu64
      rfl
    · have hsmall := hrange.small h h64 hu64
      have hnumber : intValue (ofBytes datatype be) = .number (ofInt (ofBytes datatype be)) := by
        unfold intValue SAFE_INT_MIN SAFE_INT_MAX
        rw [if_pos (by omega)]
      rw [hnumber]
      cases datatype <;> first | contradiction | rfl

end Ranges

/-! ## The integer of a value -/

def Stands (f : Float) (n : Int) : Prop := f.isFinite = true ∧ toRat f = n

variable {n : Int} {f : Float}

theorem stands_ofInt (hlow : -2 ^ 53 ≤ n) (hhigh : n ≤ 2 ^ 53) : Stands (ofInt n) n := by
  have hspec := ofInt_spec (moderate_of_lt (n := n) (by omega) (by omega))
  rw [roundInt_of_le hlow hhigh] at hspec
  exact hspec

theorem Stands.integral (h : Stands f n) : integral f = true :=
  integral_iff.mpr ⟨h.1, n, h.2⟩

theorem stands_of_integral (h : integral f = true) : ∃ n, Stands f n := by
  obtain ⟨hfinite, n, hn⟩ := integral_iff.mp h
  exact ⟨n, hfinite, hn⟩

theorem Stands.eq {n m : Int} (h : Stands f n) (h' : Stands f m) : n = m := by
  have hcast : (n : ℚ) = m := h.2.symm.trans h'.2
  exact_mod_cast hcast

theorem Stands.le_iff {f g : Float} {n m : Int} (hf : Stands f n) (hg : Stands g m) :
    f ≤ g ↔ n ≤ m := by
  rw [Binary64.le_iff hf.1 hg.1, hf.2, hg.2]
  exact Int.cast_le

theorem Stands.lt_iff {f g : Float} {n m : Int} (hf : Stands f n) (hg : Stands g m) :
    f < g ↔ n < m := by
  rw [Binary64.lt_iff hf.1 hg.1, hf.2, hg.2]
  exact Int.cast_lt

theorem stands_bounds : Stands (ofInt (-2 ^ 63)) (-2 ^ 63) ∧ Stands (ofInt (2 ^ 63)) (2 ^ 63) ∧
    Stands (ofInt (2 ^ 64)) (2 ^ 64) := by
  refine ⟨⟨?_, ?_⟩, ⟨?_, ?_⟩, ⟨?_, ?_⟩⟩ <;> decide +kernel

theorem guard_iff {a b : Bool} {e₁ e₂ : DecodeError} {r n : Int} :
    (if !a then Except.error e₁ else if !b then .error e₂ else .ok r) = .ok n ↔
      a = true ∧ b = true ∧ r = n := by
  cases a <;> cases b <;> simp

theorem integral_cast_iff {inside : Bool} {cast : Int} {P : Int → Prop}
    (hinside : ∀ k, Stands f k → (inside = true ↔ P k)) (hcast : ∀ k, Stands f k → P k → cast = k) :
    (integral f = true ∧ inside = true ∧ cast = n) ↔ Stands f n ∧ P n := by
  constructor
  · rintro ⟨hint, hin, rfl⟩
    obtain ⟨k, hk⟩ := stands_of_integral hint
    have hP := (hinside k hk).mp hin
    rw [hcast k hk hP]
    exact ⟨hk, hP⟩
  · rintro ⟨hn, hP⟩
    exact ⟨hn.integral, (hinside n hn).mpr hP, hcast n hn hP⟩

theorem smallInt_iff {value : Value} {datatype : DataType} {min max n : Int}
    (hmin : -2 ^ 53 ≤ min ∧ min ≤ 2 ^ 53) (hmax : -2 ^ 53 ≤ max ∧ max ≤ 2 ^ 53) :
    smallInt value datatype min max = .ok n ↔
      ∃ f, number value datatype = .ok f ∧ Stands f n ∧ min ≤ n ∧ n ≤ max := by
  have hlow := stands_ofInt hmin.1 hmin.2
  have hhigh := stands_ofInt hmax.1 hmax.2
  unfold smallInt
  cases number value datatype with
  | error e => simp
  | ok f =>
    have haccepted : (integral f = true ∧ (decide (ofInt min ≤ f) && decide (f ≤ ofInt max)) = true ∧
        (toI64 f).toInt = n) ↔ Stands f n ∧ min ≤ n ∧ n ≤ max := by
      apply integral_cast_iff
      · intro k hk
        rw [Bool.and_eq_true, decide_eq_true_eq, decide_eq_true_eq, hlow.le_iff hk, hk.le_iff hhigh]
      · intro k hk hbounds
        exact toI64_of_integral hk.integral hk.2 (by omega) (by omega)
    simp only [guard_iff, haccepted, Except.ok.injEq, exists_eq_left']

theorem intFromValue_number :
    intFromValue (.number f) = .ok n ↔ Stands f n ∧ -2 ^ 63 ≤ n ∧ n < 2 ^ 63 := by
  unfold intFromValue
  simp only [guard_iff]
  apply integral_cast_iff
  · intro k hk
    rw [Bool.and_eq_true, decide_eq_true_eq, decide_eq_true_eq, stands_bounds.1.le_iff hk,
      hk.lt_iff stands_bounds.2.1]
  · intro k hk hbounds
    exact toI64_of_integral hk.integral hk.2 hbounds.1 hbounds.2

theorem uintFromValue_number :
    uintFromValue (.number f) = .ok n ↔ Stands f n ∧ 0 ≤ n ∧ n < 2 ^ 64 := by
  have hzero : Stands (ofInt 0) 0 := stands_ofInt (by omega) (by omega)
  unfold uintFromValue
  simp only [guard_iff]
  apply integral_cast_iff
  · intro k hk
    rw [Bool.and_eq_true, decide_eq_true_eq, decide_eq_true_eq, hzero.le_iff hk,
      hk.lt_iff stands_bounds.2.2]
  · intro k hk hbounds
    exact toU64_of_integral hk.integral hk.2 hbounds.1 hbounds.2

section Integers

variable {datatype : DataType} {value : Value} {n : Int}

theorem integerOf_small (h64 : datatype ≠ .int64) (hu64 : datatype ≠ .uint64) :
    integerOf value datatype = smallInt value datatype (least datatype) (greatest datatype) := by
  cases datatype <;> first | contradiction | rfl

theorem small_bounds (h : datatype.isInteger = true) (h64 : datatype ≠ .int64)
    (hu64 : datatype ≠ .uint64) : (-2 ^ 53 ≤ least datatype ∧ least datatype ≤ 2 ^ 53) ∧
      -2 ^ 53 ≤ greatest datatype ∧ greatest datatype ≤ 2 ^ 53 := by
  cases datatype <;> first | contradiction | decide

/-- The value an integer decodes to is taken for that integer. -/
theorem integerOf_intValue (h : datatype.isInteger = true) (hrange : InRange datatype n) :
    integerOf (intValue n) datatype = .ok n := by
  by_cases h64 : datatype = .int64
  · subst h64
    have hbounds : -2 ^ 63 ≤ n ∧ n ≤ 2 ^ 63 - 1 := hrange
    rcases intValue_cases n with ⟨hn, hlow, hhigh⟩ | hn
    · unfold SAFE_INT_MIN at hlow
      unfold SAFE_INT_MAX at hhigh
      rw [hn]
      exact intFromValue_number.mpr ⟨stands_ofInt (by omega) (by omega), by omega, by omega⟩
    · rw [hn]
      simp only [integerOf, intFromValue, Decimal.parseI64_toString hbounds.1 (by omega)]
  · by_cases hu64 : datatype = .uint64
    · subst hu64
      have hbounds : 0 ≤ n ∧ n ≤ 2 ^ 64 - 1 := hrange
      rcases intValue_cases n with ⟨hn, hlow, hhigh⟩ | hn
      · unfold SAFE_INT_MAX at hhigh
        rw [hn]
        exact uintFromValue_number.mpr ⟨stands_ofInt (by omega) (by omega), by omega, by omega⟩
      · rw [hn]
        simp only [integerOf, uintFromValue, Decimal.parseU64_toString hbounds.1 (by omega)]
    · have hsmall := hrange.small h h64 hu64
      have hnumber : intValue n = .number (ofInt n) := by
        unfold intValue SAFE_INT_MIN SAFE_INT_MAX
        rw [if_pos (by omega)]
      rw [integerOf_small h64 hu64, hnumber, smallInt_iff (small_bounds h h64 hu64).1
        (small_bounds h h64 hu64).2]
      exact ⟨ofInt n, rfl, stands_ofInt (by omega) (by omega), hrange.1, hrange.2⟩

theorem exact_number {f : Float} (h : Stands f n) : (Value.number f).exact = some (n : ℚ) := by
  show (if f.isFinite then some (toRat f) else none) = _
  rw [h.1, if_pos rfl, h.2]

theorem exact_of_parseF64 {text : String} {f : Float} (hparse : Decimal.parseF64 text = some f)
    (h : Stands f n) (hlow : -2 ^ 32 < n) (hhigh : n < 2 ^ 32) {k : Int}
    (hk : Decimal.exact text = some (k : ℚ)) : k = n := by
  have hround := Decimal.toRat_parseF64 hparse h.1 hk
  rw [h.2] at hround
  apply eq_of_roundInt_eq (by omega) (by omega)
  exact_mod_cast hround.symm

theorem exact_iff_of_eq (h : value.exact = some (n : ℚ)) :
    value.exact = some (n : ℚ) ↔ ∃ k : Int, value.exact = some (k : ℚ) :=
  ⟨fun hn => ⟨n, hn⟩, fun _ => h⟩

theorem exact_bool (b : Bool) : (Value.bool b).exact = some (((if b then 1 else 0 : Int)) : ℚ) := by
  cases b <;> rfl

/-- **Acceptance**: an encoder of an integer datatype takes a value for an integer in the range, and
it is the number that the value stands for when that is an integer. -/
theorem integerOf_spec (h : datatype.isInteger = true) (hok : integerOf value datatype = .ok n) :
    InRange datatype n ∧
      (value.exact = some (n : ℚ) ↔ ∃ k : Int, value.exact = some (k : ℚ)) := by
  -- the 64-bit types take the value itself, the others the double nearest to it
  by_cases h64 : datatype = .int64
  · subst h64
    cases value with
    | bool b =>
      cases hok
      exact ⟨by cases b <;> exact ⟨by decide, by decide⟩, exact_iff_of_eq (exact_bool b)⟩
    | number f =>
      obtain ⟨hstands, hlow, hhigh⟩ := intFromValue_number.mp hok
      refine ⟨⟨hlow, ?_⟩, exact_iff_of_eq (exact_number hstands)⟩
      show n ≤ 2 ^ 63 - 1
      omega
    | text t =>
      cases hparse : Decimal.parseI64 t with
      | none => simp [integerOf, intFromValue, hparse] at hok
      | some m =>
        simp only [integerOf, intFromValue, hparse, Except.ok.injEq] at hok
        subst hok
        obtain ⟨hint, hrange⟩ := Option.filter_eq_some_iff.mp hparse
        simp only [decide_eq_true_eq] at hrange
        refine ⟨⟨hrange.1, ?_⟩, exact_iff_of_eq (Decimal.exact_of_parseInt hint)⟩
        show m ≤ 2 ^ 63 - 1
        omega
  · by_cases hu64 : datatype = .uint64
    · subst hu64
      cases value with
      | bool b =>
        cases hok
        exact ⟨by cases b <;> exact ⟨by decide, by decide⟩, exact_iff_of_eq (exact_bool b)⟩
      | number f =>
        obtain ⟨hstands, hlow, hhigh⟩ := uintFromValue_number.mp hok
        refine ⟨⟨hlow, ?_⟩, exact_iff_of_eq (exact_number hstands)⟩
        show n ≤ 2 ^ 64 - 1
        omega
      | text t =>
        cases hparse : Decimal.parseU64 t with
        | none => simp [integerOf, uintFromValue, hparse] at hok
        | some m =>
          simp only [integerOf, uintFromValue, hparse, Except.ok.injEq] at hok
          subst hok
          obtain ⟨hint, hlow, hhigh⟩ := Decimal.parseU64_spec hparse
          refine ⟨⟨hlow, ?_⟩, exact_iff_of_eq (Decimal.exact_of_parseInt hint)⟩
          show m ≤ 2 ^ 64 - 1
          omega
    · have hbounds := small_bounds h h64 hu64
      rw [integerOf_small h64 hu64, smallInt_iff hbounds.1 hbounds.2] at hok
      obtain ⟨f, hf, hstands, hlow, hhigh⟩ := hok
      have hrange : InRange datatype n := ⟨hlow, hhigh⟩
      refine ⟨hrange, ?_⟩
      cases value with
      | bool b =>
        cases hf
        have hone : Stands (ofInt (if b then 1 else 0)) (if b then 1 else 0) := by
          apply stands_ofInt <;> cases b <;> decide
        rw [hstands.eq hone]
        exact exact_iff_of_eq (exact_bool b)
      | number g =>
        cases hf
        exact exact_iff_of_eq (exact_number hstands)
      | text t =>
        cases hparse : Decimal.parseF64 t with
        | none => simp [number, hparse] at hf
        | some g =>
          simp only [number, hparse, Except.ok.injEq] at hf
          subst hf
          have hsmall := hrange.small h h64 hu64
          constructor
          · intro hn
            exact ⟨n, hn⟩
          · rintro ⟨k, hk⟩
            rw [← exact_of_parseF64 hparse hstands hsmall.1 hsmall.2 hk]
            exact hk

end Integers

/-! ## Round trips -/

section RoundTrips

variable {datatype : DataType} {bytes : List UInt8} {e : Endianness} {w : WordOrder}

theorem decodePrimitive_fixed (hbool : datatype ≠ .bool)
    (hlen : datatype.byteLen = some bytes.length) :
    decodePrimitive bytes datatype e w = .ok (decodeFixed (reorder bytes e w) datatype) := by
  have hbytes : datatype ≠ .bytes := by
    rintro rfl
    cases hlen
  have hstring : datatype ≠ .string := by
    rintro rfl
    cases hlen
  unfold decodePrimitive
  rw [if_neg hbytes, if_neg hbool, if_neg hstring]
  simp [hlen]

theorem encodePrimitive_fixed (hbool : datatype ≠ .bool) (hfixed : datatype.byteLen.isSome = true)
    (value : Value) : encodePrimitive value datatype e w =
      (encodeFixed value datatype).map fun be => reorder be e w := by
  cases datatype <;> first | rfl | contradiction

theorem whole_of_byteLen (hlen : datatype.byteLen = some bytes.length) : Whole bytes := by
  unfold Whole
  cases datatype <;> simp only [DataType.byteLen, Option.some.injEq, reduceCtorEq] at hlen <;> omega

/-- What was decoded is encoded to the same bytes, unless it is not a number. -/
theorem encodeFixed_decodeFixed (hbool : datatype ≠ .bool)
    (hlen : datatype.byteLen = some bytes.length)
    (hnan : (decodeFixed bytes datatype).isNaN = false) :
    encodeFixed (decodeFixed bytes datatype) datatype = .ok bytes := by
  have hwidth : bytes.length = width datatype := by
    rw [width, hlen, Option.getD_some]
  have hlt := fromBeBytes_lt bytes
  by_cases hint : datatype.isInteger = true
  · rw [decodeFixed_integer hint hwidth, encodeFixed_integer hint,
      integerOf_intValue hint (inRange_ofBytes hwidth)]
    show Except.ok (intBytes (width datatype) (ofBytes datatype bytes)) = _
    rw [intBytes_ofBytes hwidth]
  · have hbits : ∀ count, bytes.length = count → ∀ u : Nat, u = fromBeBytes bytes →
        toBeBytes count u = bytes := by
      rintro count rfl u rfl
      exact toBeBytes_fromBeBytes bytes
    cases datatype with
    | float32 =>
      have hcast : (UInt32.ofNat (fromBeBytes bytes)).toNat = fromBeBytes bytes := by
        rw [hwidth] at hlt
        exact UInt32.toNat_ofNat_of_lt' hlt
      show Except.ok (toBeBytes 4 (narrow (widen _)).toBits.toNat) = _
      rw [narrow_widen, toBits_ofBits32 hnan, hcast, hbits 4 hwidth _ rfl]
    | float64 =>
      have hcast : (UInt64.ofNat (fromBeBytes bytes)).toNat = fromBeBytes bytes := by
        rw [hwidth] at hlt
        exact UInt64.toNat_ofNat_of_lt' hlt
      show Except.ok (toBeBytes 8 (Float.ofBits _).toBits.toNat) = _
      rw [toBits_ofBits hnan, hcast, hbits 8 hwidth _ rfl]
    | bool => contradiction
    | string => cases hlen
    | bytes => cases hlen
    | _ => exact absurd rfl hint

theorem encode_decode (hbool : datatype ≠ .bool) (hlen : datatype.byteLen = some bytes.length)
    (hnan : (decodeFixed (reorder bytes e w) datatype).isNaN = false) :
    encodePrimitive (decodeFixed (reorder bytes e w) datatype) datatype e w = .ok bytes := by
  have hordered : datatype.byteLen = some (reorder bytes e w).length := by
    rw [length_reorder, hlen]
  rw [encodePrimitive_fixed hbool (by rw [hlen]; rfl), encodeFixed_decodeFixed hbool hordered hnan]
  show Except.ok (reorder (reorder bytes e w) e w) = _
  rw [reorder_reorder (whole_of_byteLen hlen)]

/-- An encoded integer is decoded to itself. -/
theorem decode_encode {value : Value} (h : datatype.isInteger = true)
    (hok : encodePrimitive value datatype e w = .ok bytes) :
    ∃ n, integerOf value datatype = .ok n ∧
      decodePrimitive bytes datatype e w = .ok (intValue n) := by
  have hbool : datatype ≠ .bool := by
    rintro rfl
    cases h
  have hfixed : datatype.byteLen = some (width datatype) := by
    cases datatype <;> first | rfl | cases h
  rw [encodePrimitive_fixed hbool (by rw [hfixed]; rfl), encodeFixed_integer h] at hok
  cases hn : integerOf value datatype with
  | error err =>
    rw [hn] at hok
    cases hok
  | ok n =>
    rw [hn] at hok
    cases hok
    have hlen : (intBytes (width datatype) n).length = width datatype := length_toBeBytes _ _
    have hordered : datatype.byteLen =
        some (reorder (intBytes (width datatype) n) e w).length := by
      rw [length_reorder, hlen, hfixed]
    refine ⟨n, rfl, ?_⟩
    rw [decodePrimitive_fixed hbool hordered, reorder_reorder (whole_of_integer h hlen),
      decodeFixed_integer h hlen, ofBytes_intBytes h (integerOf_spec h hn).1]

end RoundTrips

theorem exact_intValue {n : Int} (hlow : -2 ^ 63 ≤ n) (hhigh : n < 2 ^ 64) :
    (intValue n).exact = some (n : ℚ) := by
  rcases intValue_cases n with ⟨hn, hmin, hmax⟩ | hn
  · unfold SAFE_INT_MIN at hmin
    unfold SAFE_INT_MAX at hmax
    rw [hn]
    exact exact_number (stands_ofInt (by omega) (by omega))
  · rw [hn]
    exact Decimal.exact_toString n

/-- **Round trips**: the bytes of what was decoded come back, and the number that was encoded comes
back exactly when it is an integer as it was written. -/
theorem decode_encode_iff (datatype : DataType) (e : Endianness) (w : WordOrder)
    (bytes : List UInt8) :
    (datatype ≠ .bool → datatype.byteLen = some bytes.length →
      ∃ value, decodePrimitive bytes datatype e w = .ok value ∧
        (value.isNaN = false → encodePrimitive value datatype e w = .ok bytes)) ∧
    ∀ value, datatype.isInteger = true → encodePrimitive value datatype e w = .ok bytes →
      ((∃ read, decodePrimitive bytes datatype e w = .ok read ∧ read.exact = value.exact) ↔
        ∃ n : Int, value.exact = some (n : ℚ)) := by
  constructor
  · intro hbool hlen
    exact ⟨_, decodePrimitive_fixed hbool hlen, encode_decode hbool hlen⟩
  · intro value h hok
    obtain ⟨n, hn, hread⟩ := decode_encode h hok
    obtain ⟨hrange, hexact⟩ := integerOf_spec h hn
    have hbounds := hrange.bounds
    have hvalue := exact_intValue hbounds.1 hbounds.2
    rw [← hexact]
    constructor
    · rintro ⟨read, hread', heq⟩
      rw [hread] at hread'
      cases hread'
      rw [← heq, hvalue]
    · intro heq
      exact ⟨_, hread, by rw [hvalue, heq]⟩

/-- A value that fits its type. -/
theorem decode_encode_iff_fits :
    (∃ value, decodePrimitive [0x3F, 0x80, 0, 0] .float32 .big .big = .ok value ∧
      (value.isNaN = false →
        encodePrimitive value .float32 .big .big = .ok [0x3F, 0x80, 0, 0])) ∧
    ((∃ read, decodePrimitive [0xFF, 0xFF] .int16 .little .big = .ok read ∧
      read.exact = (Value.text "-1").exact) ↔
        ∃ n : Int, (Value.text "-1").exact = some (n : ℚ)) :=
  ⟨(decode_encode_iff .float32 .big .big _).1 (by decide) rfl,
    (decode_encode_iff .int16 .little .big _).2 _ rfl (by decide +kernel)⟩

/-- A fraction of `uint8`, close to an integer, is encoded as that integer. -/
theorem fraction_rounded :
    encodePrimitive (.text "254.99999999999999999999") .uint8 .big .big = .ok [255] ∧
      decodePrimitive [255] .uint8 .big .big = .ok (.number (ofInt 255)) ∧
      (Value.number (ofInt 255)).exact ≠ (Value.text "254.99999999999999999999").exact := by
  refine ⟨?_, ?_, ?_⟩ <;> decide +kernel

end Codec

end TedgeDot
