import TedgeDot.Lib.Except
import TedgeDot.Sdk.DecodeAgreement

/-!
# The encoders of the two SDKs

Both encoders of an integer datatype take a value for an integer and write its bytes
(`encodeInteger_toOption`), so they agree where they take it for the same one. `encode_agree_iff`
says for which values they do, and encode no other number than the value.
-/

namespace TedgeDot.TdotCodec

open Binary64 Codec

instance (dt : DataType) (n : Int) : Decidable (InRange dt n) :=
  inferInstanceAs (Decidable (_ ∧ _))

/-! ## Storing -/

theorem byte_of_shift (v : UInt64) {i : Nat} (h : i < 8) :
    (v >>> UInt64.ofNat (8 * i)).toUInt8 = UInt8.ofNat (v.toNat / 256 ^ i) := by
  apply UInt8.toNat_inj.mp
  have hpow : (256 : Nat) ^ i = 2 ^ (8 * i) := by rw [Nat.pow_mul]
  have hcount : (UInt64.ofNat (8 * i)).toNat = 8 * i := by
    apply UInt64.toNat_ofNat_of_lt'
    show 8 * i < 2 ^ 64
    omega
  rw [UInt64.toNat_toUInt8, UInt64.toNat_shiftRight, hcount, UInt8.toNat_ofNat', hpow,
    Nat.mod_eq_of_lt (show 8 * i < 64 by omega), Nat.shiftRight_eq_div_pow]

theorem beWrite_eq (v : UInt64) {len : Nat} (h : len = 1 ∨ len = 2 ∨ len = 4 ∨ len = 8) :
    (beWrite (List.replicate 8 0) len v).take len = toBeBytes len v.toNat := by
  have h0 := byte_of_shift v (i := 0) (by decide)
  have h1 := byte_of_shift v (i := 1) (by decide)
  have h2 := byte_of_shift v (i := 2) (by decide)
  have h3 := byte_of_shift v (i := 3) (by decide)
  have h4 := byte_of_shift v (i := 4) (by decide)
  have h5 := byte_of_shift v (i := 5) (by decide)
  have h6 := byte_of_shift v (i := 6) (by decide)
  have h7 := byte_of_shift v (i := 7) (by decide)
  rcases h with rfl | rfl | rfl | rfl <;>
    simp_all [beWrite, List.range, List.range.loop, List.replicate, toBeBytes, Nat.div_div_eq_div_mul]

section Storing

variable {dt : DataType}

theorem width_cases (h : dt.isInteger = true) :
    width dt = 1 ∨ width dt = 2 ∨ width dt = 4 ∨ width dt = 8 := by
  cases dt <;> first | contradiction | decide

theorem datatypeLen_eq (h : dt.isInteger = true) : datatypeLen dt = width dt := by
  cases dt <;> first | contradiction | rfl

theorem isSigned_eq (dt : DataType) : isSigned dt = Codec.isSigned dt := by
  cases dt <;> rfl

theorem toBeBytes_ofInt {len : Nat} (h : len ≤ 8) (n : Int) :
    toBeBytes len (BitVec.ofInt 64 n).toNat = intBytes len n := by
  have hpow : (256 : Nat) ^ len = 2 ^ (8 * len) := by rw [Nat.pow_mul]
  have hdvd : ((2 ^ (8 * len) : Nat) : Int) ∣ ((2 ^ 64 : Nat) : Int) :=
    Int.natCast_dvd_natCast.mpr (Nat.pow_dvd_pow 2 (by omega))
  have hcast : (BitVec.ofInt 64 n).toNat % 2 ^ (8 * len) = (BitVec.ofInt (8 * len) n).toNat := by
    rw [BitVec.toNat_ofInt, BitVec.toNat_ofInt]
    have hlow := Int.emod_nonneg n (show ((2 ^ 64 : Nat) : Int) ≠ 0 by decide)
    have hnonneg := Int.emod_nonneg n (show ((2 ^ (8 * len) : Nat) : Int) ≠ 0 by positivity)
    apply Int.ofNat.inj
    show (((n % ((2 ^ 64 : Nat) : Int)).toNat % 2 ^ (8 * len) : Nat) : Int) =
      ((n % ((2 ^ (8 * len) : Nat) : Int)).toNat : Int)
    rw [Int.natCast_mod, Int.toNat_of_nonneg hlow, Int.toNat_of_nonneg hnonneg]
    exact Int.emod_emod_of_dvd n hdvd
  rw [intBytes, ← hcast, ← hpow, toBeBytes_mod]

/-- A signed value is stored if it is in range. -/
theorem storeSigned_toOption (h : dt.isInteger = true) (hsigned : isSigned dt = true) (s : Int64) :
    (storeSigned dt s).toOption =
      if InRange dt s.toInt then some (intBytes (width dt) s.toInt) else none := by
  have hbytes : (beWrite (List.replicate 8 0) (width dt) s.toUInt64).take (width dt) =
      intBytes (width dt) s.toInt := by
    have hcast : s.toUInt64.toNat = (BitVec.ofInt 64 s.toInt).toNat := by
      show s.toBitVec.toNat = _
      rw [Int64.toInt, BitVec.ofInt_toInt]
    have hlen : width dt ≤ 8 := by cases dt <;> decide
    rw [beWrite_eq _ (width_cases h), hcast, toBeBytes_ofInt hlen]
  have hlow := s.le_toInt
  have hhigh := s.toInt_lt
  have hrange : InRange dt s.toInt ↔ ¬ (width dt < 8 ∧ (s.toInt < -2 ^ (width dt * 8 - 1) ∨
      s.toInt > 2 ^ (width dt * 8 - 1) - 1)) := by
    unfold InRange least greatest
    rw [← isSigned_eq, hsigned, if_pos rfl, if_pos rfl, Nat.mul_comm 8 (width dt)]
    constructor
    · omega
    · intro hnot
      have h8 : width dt = 8 ∨ width dt < 8 := by
        rcases width_cases h with hw | hw | hw | hw <;> omega
      rcases h8 with h8 | h8
      · rw [h8]
        omega
      · omega
  unfold storeSigned
  rw [datatypeLen_eq h]
  by_cases hin : InRange dt s.toInt
  · rw [if_pos hin]
    simp only [if_neg (hrange.mp hin), hbytes]
    rfl
  · rw [if_neg hin]
    simp only [if_pos (not_not.mp (mt hrange.mpr hin))]
    rfl

/-- An unsigned value is stored if it is in range. -/
theorem storeUnsigned_toOption (h : dt.isInteger = true) (hsigned : isSigned dt = false)
    (u : UInt64) : (storeUnsigned dt u).toOption =
      if InRange dt u.toNat then some (intBytes (width dt) u.toNat) else none := by
  have hbytes : (beWrite (List.replicate 8 0) (width dt) u).take (width dt) =
      intBytes (width dt) u.toNat := by
    have hcast : u.toNat = (BitVec.ofInt 64 u.toNat).toNat := by
      rw [BitVec.ofInt_natCast, BitVec.toNat_ofNat]
      exact (Nat.mod_eq_of_lt u.toNat_lt).symm
    have hlen : width dt ≤ 8 := by cases dt <;> decide
    rw [beWrite_eq _ (width_cases h), ← toBeBytes_ofInt hlen, ← hcast]
  have hlt := u.toNat_lt
  have hrange : InRange dt u.toNat ↔ ¬ (width dt < 8 ∧ u.toNat > 2 ^ (width dt * 8) - 1) := by
    have hcast : ((2 ^ (width dt * 8) : Nat) : Int) = 2 ^ (width dt * 8) := by push_cast; rfl
    unfold InRange least greatest
    rw [← isSigned_eq, hsigned, if_neg Bool.false_ne_true, if_neg Bool.false_ne_true,
      Nat.mul_comm 8 (width dt), ← hcast]
    have hpos := Nat.two_pow_pos (width dt * 8)
    constructor
    · omega
    · intro hnot
      have h8 : width dt = 8 ∨ width dt < 8 := by
        rcases width_cases h with hw | hw | hw | hw <;> omega
      rcases h8 with h8 | h8
      · rw [h8]
        omega
      · omega
  unfold storeUnsigned
  rw [datatypeLen_eq h]
  by_cases hin : InRange dt u.toNat
  · rw [if_pos hin]
    simp only [if_neg (hrange.mp hin), hbytes]
    rfl
  · rw [if_neg hin]
    simp only [if_pos (not_not.mp (mt hrange.mpr hin))]
    rfl

/-! ## The integer of a value -/

/-- The integer that the C SDK takes a value of an integer datatype for. -/
def taken (undefined : Undefined) (dt : DataType) : TdotValue → Option Int
  | .num num =>
    if !isFloor num then none
    else if isSigned dt then some (castI64 undefined num).toInt
    else if num < ofInt 0 then none
    else some (castU64 undefined num).toNat
  | .str str =>
    if isSigned dt then some (strtoll (cString str)).toInt else some (strtoull (cString str)).toNat
  | .bool _ => none

/-- The C encoder stores the integer it takes, if it is in range. -/
theorem encodeInteger_toOption (h : dt.isInteger = true) (undefined : Undefined)
    (value : TdotValue) : (encodeInteger undefined dt value).toOption =
      ((taken undefined dt value).filter (InRange dt ·)).map (intBytes (width dt)) := by
  have hstore : ∀ n : Int, (if InRange dt n then some (intBytes (width dt) n) else none) =
      ((some n).filter (InRange dt ·)).map (intBytes (width dt)) := by
    intro n
    rw [Option.filter_some]
    by_cases hin : InRange dt n
    · rw [if_pos hin, if_pos (decide_eq_true hin), Option.map_some]
    · rw [if_neg hin, if_neg (by rw [decide_eq_false hin]; exact Bool.false_ne_true)]
      rfl
  cases value with
  | bool b => rfl
  | num n =>
    cases hfloor : isFloor n with
    | false =>
      simp only [encodeInteger, taken, hfloor, Bool.not_false, if_true]
      rfl
    | true =>
      cases hsigned : isSigned dt with
      | true =>
        simp only [encodeInteger, taken, hfloor, hsigned, Bool.not_true, Bool.false_eq_true, if_false,
          if_true]
        exact (storeSigned_toOption h hsigned _).trans (hstore _)
      | false =>
        simp only [encodeInteger, taken, hfloor, hsigned, Bool.not_true, Bool.false_eq_true, if_false]
        by_cases hneg : n < ofInt 0
        · simp only [hneg, if_true]
          rfl
        · simp only [hneg, if_false]
          exact (storeUnsigned_toOption h hsigned _).trans (hstore _)
  | str s =>
    cases hsigned : isSigned dt with
    | true =>
      simp only [encodeInteger, taken, hsigned, if_true]
      exact (storeSigned_toOption h hsigned _).trans (hstore _)
    | false =>
      simp only [encodeInteger, taken, hsigned, Bool.false_eq_true, if_false]
      exact (storeUnsigned_toOption h hsigned _).trans (hstore _)

end Storing

/-! ## Agreement -/

/-- Both encoders accept a value or both reject it, they write the same bytes, and the bytes of an
integer datatype are those of the number that the value stands for. -/
def Agree (undefined : Undefined) (value : Value) (tdot : TdotValue) (dt : DataType)
    (e : Endianness) (w : WordOrder) (capacity : Nat) : Prop :=
  (encodePrimitive value dt e w).toOption = (encode undefined dt tdot e w capacity).toOption ∧
    (dt.isInteger = true → ∀ bytes, encodePrimitive value dt e w = .ok bytes →
      value.exact = some (ofBytes dt (Codec.reorder bytes e w) : ℚ))

/-- A double that is not whole, or that the 64-bit integer it is converted to holds. -/
def Castable (dt : DataType) (n : Float) : Prop :=
  isFloor n = false ∨
    if isSigned dt then ofInt (-2 ^ 63) ≤ n ∧ n < ofInt (2 ^ 63) else n < ofInt (2 ^ 64)

/-- The integer at the start of a text, as the C library reads it into 64 bits. -/
def textInteger (dt : DataType) (t : String) : Int :=
  if isSigned dt then (strtoll (Utf8.encode t)).toInt else (strtoull (Utf8.encode t)).toNat

/-- A text that the double nearest it takes for the integer. -/
def ReadsAs (t : String) (n : Int) : Prop := ∃ f, Decimal.parseF64 t = some f ∧ Stands f n

/-- A text of a datatype of up to 32 bits: the integer it starts with is the number that it is, if
the datatype holds that integer, and else it reads as no integer that the datatype holds. -/
def TextFits (dt : DataType) (t : String) : Prop :=
  if InRange dt (textInteger dt t) then Decimal.exact t = some (textInteger dt t : ℚ)
  else ∀ n, InRange dt n → ¬ ReadsAs t n

/-- The values on which the encoders agree. -/
def EncodesAlike (capacity : Nat) (dt : DataType) : Value → Prop
  | .bool _ => dt = .bool ∨ dt = .string ∨ dt = .bytes
  | .number n => dt.isInteger = true → Castable dt n
  | .text t =>
    match dt with
    | .bool => False
    | .float32 | .float64 => Decimal.parseF64 t = none
    | .int64 => (Decimal.parseI64 t).isSome
    | .uint64 => (Decimal.parseU64 t).isSome
    | .string => (Utf8.encode t).length ≤ capacity
    | .bytes => True
    | _ => TextFits dt t

section Integers

variable {dt : DataType} {undefined : Undefined} {value : Value} {tdot : TdotValue}
  {e : Endianness} {w : WordOrder} {capacity : Nat}

theorem toOption_map {ε α β : Type} (f : α → β) (x : Except ε α) :
    (x.map f).toOption = x.toOption.map f := by
  cases x <;> rfl

/-- The bytes of an integer on the wire. -/
def wire (dt : DataType) (e : Endianness) (w : WordOrder) (n : Int) : List UInt8 :=
  Codec.reorder (intBytes (width dt) n) e w

variable {n : Int} {f : Float} {t : String} {s : List UInt8}

theorem ofBytes_wire (h : dt.isInteger = true) (hrange : InRange dt n) :
    ofBytes dt (Codec.reorder (wire dt e w n) e w) = n := by
  have hlen : (intBytes (width dt) n).length = width dt := length_toBeBytes _ _
  rw [wire, reorder_reorder (whole_of_integer h hlen), ofBytes_intBytes h hrange]

theorem encodePrimitive_toOption (h : dt.isInteger = true) :
    (encodePrimitive value dt e w).toOption = (integerOf value dt).toOption.map (wire dt e w) := by
  have hbool : dt ≠ .bool := by
    rintro rfl
    cases h
  have hfixed : dt.byteLen.isSome = true := by
    cases dt <;> first | rfl | cases h
  rw [encodePrimitive_fixed hbool hfixed, encodeFixed_integer h, toOption_map, toOption_map,
    Option.map_map]
  rfl

theorem encode_fixed (hstring : dt ≠ .string) (hbytes : dt ≠ .bytes) (hcapacity : 8 ≤ capacity) :
    encode undefined dt tdot e w capacity =
      (encodeFixed undefined dt tdot).map fun canon => reorder canon e w := by
  have hroom : ¬ capacity < datatypeLen dt := by
    have : datatypeLen dt ≤ 8 := by cases dt <;> decide
    omega
  unfold encode
  rw [if_neg hstring, if_neg hbytes, if_neg hroom]

theorem encode_toOption (h : dt.isInteger = true) (hcapacity : 8 ≤ capacity) :
    (encode undefined dt tdot e w capacity).toOption =
      ((taken undefined dt tdot).filter (InRange dt ·)).map (wire dt e w) := by
  have hstring : dt ≠ .string := by
    rintro rfl
    cases h
  have hbytes : dt ≠ .bytes := by
    rintro rfl
    cases h
  have hinteger : encodeFixed undefined dt tdot = encodeInteger undefined dt tdot := by
    cases dt <;> first | contradiction | rfl
  have horder : ∀ n, reorder (intBytes (width dt) n) e w = wire dt e w n := by
    intro n
    exact reorder_eq (whole_of_integer h (length_toBeBytes _ _)) e w
  rw [encode_fixed hstring hbytes hcapacity, hinteger, toOption_map, encodeInteger_toOption h,
    Option.map_map]
  congr 1
  funext n
  exact horder n

/-- For integers the encoders agree where they take the same one, and Rust takes the value itself.
-/
theorem agree_integer (h : dt.isInteger = true) (hcapacity : 8 ≤ capacity) :
    Agree undefined value tdot dt e w capacity ↔
      (integerOf value dt).toOption = (taken undefined dt tdot).filter (InRange dt ·) ∧
        ∀ n, integerOf value dt = .ok n → value.exact = some (n : ℚ) := by
  -- both keep to the range of the type
  have hrust : ∀ n, (integerOf value dt).toOption = some n → InRange dt n := by
    intro n hn
    exact (integerOf_spec h (toOption_eq_some_iff.mp hn)).1
  have htdot : ∀ n, (taken undefined dt tdot).filter (InRange dt ·) = some n → InRange dt n := by
    intro n hn
    exact of_decide_eq_true (Option.filter_eq_some_iff.mp hn).2
  unfold Agree
  rw [encodePrimitive_toOption h, encode_toOption h hcapacity]
  apply and_congr
  · constructor
    · intro heq
      generalize (integerOf value dt).toOption = x at heq hrust
      generalize (taken undefined dt tdot).filter (InRange dt ·) = y at heq htdot
      cases x with
      | none =>
        cases y with
        | none => rfl
        | some m => cases heq
      | some n =>
        cases y with
        | none => cases heq
        | some m =>
          have hwire := congrArg (fun bytes => ofBytes dt (Codec.reorder bytes e w))
            (Option.some.inj heq)
          simp only [ofBytes_wire h (hrust n rfl), ofBytes_wire h (htdot m rfl)] at hwire
          rw [hwire]
    · intro heq
      rw [heq]
  · constructor
    · intro hexact n hn
      have hok : encodePrimitive value dt e w = .ok (wire dt e w n) := by
        apply toOption_eq_some_iff.mp
        rw [encodePrimitive_toOption h, hn]
        rfl
      rw [hexact h _ hok, ofBytes_wire h (integerOf_spec h hn).1]
    · intro hexact _ bytes hbytes
      have hsome := toOption_eq_some_iff.mpr hbytes
      rw [encodePrimitive_toOption h] at hsome
      obtain ⟨n, hn, rfl⟩ := Option.map_eq_some_iff.mp hsome
      have hn := toOption_eq_some_iff.mp hn
      rw [ofBytes_wire h (integerOf_spec h hn).1]
      exact hexact n hn

/-! ## Numbers -/

/-- Rust takes a number for an integer where it stands for one in range. -/
theorem integerOf_number (h : dt.isInteger = true) :
    integerOf (.number f) dt = .ok n ↔ Stands f n ∧ InRange dt n := by
  by_cases h64 : dt = .int64
  · subst h64
    have hrange : InRange .int64 n ↔ -2 ^ 63 ≤ n ∧ n ≤ 2 ^ 63 - 1 := Iff.rfl
    rw [show integerOf (.number f) .int64 = intFromValue (.number f) from rfl, intFromValue_number,
      hrange]
    exact and_congr_right fun _ => by omega
  · by_cases hu64 : dt = .uint64
    · subst hu64
      have hrange : InRange .uint64 n ↔ 0 ≤ n ∧ n ≤ 2 ^ 64 - 1 := Iff.rfl
      rw [show integerOf (.number f) .uint64 = uintFromValue (.number f) from rfl,
        uintFromValue_number, hrange]
      exact and_congr_right fun _ => by omega
    · have hbounds := small_bounds h h64 hu64
      rw [integerOf_small h64 hu64, smallInt_iff hbounds.1 hbounds.2]
      constructor
      · rintro ⟨g, hg, hstands, hlow, hhigh⟩
        cases hg
        exact ⟨hstands, hlow, hhigh⟩
      · rintro ⟨hstands, hlow, hhigh⟩
        exact ⟨f, rfl, hstands, hlow, hhigh⟩

theorem isFloor_cases (h : isFloor f = true) :
    (∃ n, Stands f n) ∨ ∃ s, f.toModel.unpack = .infinity s := by
  unfold isFloor at h
  rcases Bool.or_eq_true_iff.mp h with h | h
  · exact .inl (stands_of_integral h)
  · right
    have h : f.toModel.unpack.isInf = true := h
    cases hunpack : f.toModel.unpack with
    | infinity s => exact ⟨s, rfl⟩
    | _ => rw [hunpack] at h; cases h

theorem isFloor_of_stands (h : Stands f n) : isFloor f = true := by
  unfold isFloor
  rw [h.integral]
  rfl

theorem not_stands_of_infinite {s : Float.Model.UnpackedFloat.Sign}
    (h : f.toModel.unpack = .infinity s) (n : Int) : ¬ Stands f n := by
  intro hn
  have hfinite : f.toModel.unpack.isFinite = true := hn.1
  rw [h] at hfinite
  cases hfinite

theorem integerOf_none (h : dt.isInteger = true) (hnot : ∀ n, Stands f n → ¬ InRange dt n) :
    (integerOf (.number f) dt).toOption = none := by
  cases hok : integerOf (.number f) dt with
  | error err => rfl
  | ok n =>
    obtain ⟨hstands, hrange⟩ := (integerOf_number h).mp hok
    exact absurd hrange (hnot n hstands)

/-- Where conversions that are left open give zero. -/
def zeros : Undefined := ⟨fun _ => 0, fun _ => 0⟩

theorem filter_zero : (some (0 : Int)).filter (InRange dt ·) = some 0 := by
  cases dt <;> rfl

theorem taken_signed (hsigned : isSigned dt = true) (hfloor : isFloor f = true) :
    taken undefined dt (.num f) = some (castI64 undefined f).toInt := by
  simp only [taken, hfloor, hsigned, Bool.not_true, Bool.false_eq_true, if_false, if_true]

theorem taken_unsigned (hsigned : isSigned dt = false) (hfloor : isFloor f = true) :
    taken undefined dt (.num f) =
      if f < ofInt 0 then none else some ((castU64 undefined f).toNat : Int) := by
  simp only [taken, hfloor, hsigned, Bool.not_true, Bool.false_eq_true, if_false]

theorem filter_stands (h : dt.isInteger = true) (hn : Stands f n) :
    (integerOf (.number f) dt).toOption = (some n).filter (InRange dt ·) := by
  rw [Option.filter_some]
  by_cases hin : InRange dt n
  · rw [if_pos (decide_eq_true hin)]
    exact toOption_eq_some_iff.mpr ((integerOf_number h).mpr ⟨hn, hin⟩)
  · rw [if_neg (by rw [decide_eq_false hin]; exact Bool.false_ne_true)]
    apply integerOf_none h
    intro m hm
    rw [hm.eq hn]
    exact hin

/-- Signed types: C casts what lies within 64 bits. -/
theorem agree_signed (h : dt.isInteger = true) (hsigned : isSigned dt = true)
    (hfloor : isFloor f = true) :
    (∀ undefined, (integerOf (.number f) dt).toOption =
      (taken undefined dt (.num f)).filter (InRange dt ·)) ↔
      ofInt (-2 ^ 63) ≤ f ∧ f < ofInt (2 ^ 63) := by
  constructor
  · intro hagree
    by_contra hout
    have hzero := hagree zeros
    rw [taken_signed hsigned hfloor, castI64, if_neg hout,
      show ((zeros.toInt64 f).toInt) = 0 from rfl, filter_zero] at hzero
    obtain ⟨hstands, hrange⟩ := (integerOf_number h).mp (toOption_eq_some_iff.mp hzero)
    apply hout
    rw [stands_bounds.1.le_iff hstands, hstands.lt_iff stands_bounds.2.1]
    omega
  · rintro hin undefined
    rw [taken_signed hsigned hfloor, castI64, if_pos hin]
    rcases isFloor_cases hfloor with ⟨n, hn⟩ | ⟨s, hs⟩
    · rw [stands_bounds.1.le_iff hn, hn.lt_iff stands_bounds.2.1] at hin
      rw [toI64_of_integral hn.integral hn.2 hin.1 hin.2, filter_stands h hn]
    · rw [le_infinite hs stands_bounds.1.1, infinite_lt hs stands_bounds.2.1.1] at hin
      cases hin.1.symm.trans hin.2

/-- Unsigned types: below zero both refuse. -/
theorem agree_unsigned (h : dt.isInteger = true) (hsigned : isSigned dt = false)
    (hfloor : isFloor f = true) :
    (∀ undefined, (integerOf (.number f) dt).toOption =
      (taken undefined dt (.num f)).filter (InRange dt ·)) ↔ f < ofInt (2 ^ 64) := by
  have hzero : Stands (ofInt 0) 0 := stands_ofInt (by omega) (by omega)
  -- the range begins at zero
  have hleast : least dt = 0 := by
    rw [least, ← isSigned_eq, hsigned, if_neg Bool.false_ne_true]
  rcases isFloor_cases hfloor with ⟨n, hn⟩ | ⟨s, hs⟩
  · have hneg : f < ofInt 0 ↔ n < 0 := hn.lt_iff hzero
    have hlow : ofInt 0 ≤ f ↔ 0 ≤ n := hzero.le_iff hn
    have hhigh : f < ofInt (2 ^ 64) ↔ n < 2 ^ 64 := hn.lt_iff stands_bounds.2.2
    constructor
    · intro hagree
      by_contra hout
      have hout' := mt hhigh.mpr hout
      have heq := hagree zeros
      rw [taken_unsigned hsigned hfloor, if_neg (by rw [hneg]; omega), castU64,
        if_neg (fun hin => hout hin.2),
        show ((zeros.toUInt64 f).toNat : Int) = 0 from rfl, filter_zero] at heq
      obtain ⟨hstands, hrange⟩ := (integerOf_number h).mp (toOption_eq_some_iff.mp heq)
      have := hstands.eq hn
      omega
    · rintro hin undefined
      rw [taken_unsigned hsigned hfloor]
      by_cases hn0 : n < 0
      · rw [if_pos (hneg.mpr hn0)]
        apply integerOf_none h
        intro m hm hrange
        have := hm.eq hn
        unfold InRange at hrange
        omega
      · rw [if_neg (mt hneg.mp hn0), castU64, if_pos ⟨hlow.mpr (by omega), hin⟩,
          toU64_of_integral hn.integral hn.2 (by omega) (hhigh.mp hin), filter_stands h hn]
  · have hnone : (integerOf (.number f) dt).toOption = none :=
      integerOf_none h fun m hm => absurd hm (not_stands_of_infinite hs m)
    rw [infinite_lt hs stands_bounds.2.2.1]
    constructor
    · intro hagree
      by_contra hout
      have heq := hagree zeros
      rw [hnone, taken_unsigned hsigned hfloor, if_neg (by rw [infinite_lt hs hzero.1]; exact hout),
        castU64, if_neg (by rw [infinite_lt hs stands_bounds.2.2.1]; exact fun hin => hout hin.2),
        show ((zeros.toUInt64 f).toNat : Int) = 0 from rfl, filter_zero] at heq
      cases heq
    · rintro hneg undefined
      rw [hnone, taken_unsigned hsigned hfloor, if_pos ((infinite_lt hs hzero.1).mpr hneg)]
      rfl

/-- So a number must be one that C can cast. -/
theorem agree_number (h : dt.isInteger = true) :
    (∀ undefined, (integerOf (.number f) dt).toOption =
      (taken undefined dt (.num f)).filter (InRange dt ·)) ↔ Castable dt f := by
  unfold Castable
  cases hfloor : isFloor f with
  | false =>
    have hnone : (integerOf (.number f) dt).toOption = none := by
      apply integerOf_none h
      intro n hn
      exact absurd (hfloor.symm.trans (isFloor_of_stands hn)) Bool.false_ne_true
    apply iff_of_true
    · intro undefined
      simp only [hnone, taken, hfloor, Bool.not_false, if_true]
      rfl
    · exact .inl rfl
  | true =>
    cases hsigned : isSigned dt with
    | true =>
      rw [agree_signed h hsigned hfloor, if_pos rfl]
      simp
    | false =>
      rw [agree_unsigned h hsigned hfloor, if_neg Bool.false_ne_true]
      simp

/-! ## Texts -/

theorem isdigit_asciiByte {c : Char} (h : c.isDigit = true) : isdigit (Utf8.asciiByte c) = true := by
  have hrange := Char.isDigit_iff_toNat.mp h
  have hlow : '0'.toNat = 48 := rfl
  have hhigh : '9'.toNat = 57 := rfl
  have hbyte : (Utf8.asciiByte c).toNat = c.toNat := Utf8.toNat_asciiByte (by omega)
  unfold isdigit
  rw [Bool.and_eq_true, decide_eq_true_eq, decide_eq_true_eq, UInt8.le_iff_toNat_le,
    UInt8.le_iff_toNat_le, hbyte]
  constructor
  · show 48 ≤ c.toNat
    omega
  · show c.toNat ≤ 57
    omega

theorem foldl_digits {chars : List Char} (h : chars.all Char.isDigit = true) (init : Nat) :
    (chars.map Utf8.asciiByte).foldl (fun v b => v * 10 + (b.toNat - 48)) init =
      Nat.ofDigitChars 10 chars init := by
  induction chars generalizing init with
  | nil => rfl
  | cons c chars ih =>
    rw [List.all_cons, Bool.and_eq_true] at h
    have hrange := Char.isDigit_iff_toNat.mp h.1
    have hhigh : '9'.toNat = 57 := rfl
    have hbyte : (Utf8.asciiByte c).toNat = c.toNat := Utf8.toNat_asciiByte (by omega)
    rw [List.map_cons, List.foldl_cons, ih h.2, Nat.ofDigitChars_cons, hbyte, Nat.mul_comm]
    rfl

theorem takeWhile_digits {chars : List Char} (h : chars.all Char.isDigit = true) :
    (chars.map Utf8.asciiByte).takeWhile isdigit = chars.map Utf8.asciiByte := by
  apply List.takeWhile_eq_self_iff.mpr
  intro b hb
  obtain ⟨c, hc, rfl⟩ := List.mem_map.mp hb
  exact isdigit_asciiByte (List.all_eq_true.mp h c hc)

theorem not_isspace_of_isdigit {b : UInt8} (h : isdigit b = true) : isspace b = false := by
  unfold isdigit at h
  rw [Bool.and_eq_true, decide_eq_true_eq, decide_eq_true_eq, UInt8.le_iff_toNat_le,
    UInt8.le_iff_toNat_le] at h
  have hlow : 48 ≤ b.toNat := h.1
  unfold isspace
  rw [Bool.or_eq_false_iff, Bool.and_eq_false_iff, beq_eq_false_iff_ne, decide_eq_false_iff_not,
    decide_eq_false_iff_not, UInt8.le_iff_toNat_le, UInt8.le_iff_toNat_le]
  constructor
  · rintro rfl
    exact absurd hlow (by decide)
  · right
    show ¬ b.toNat ≤ 13
    omega

theorem leading_of_digit {b : UInt8} {rest : List UInt8} (h : isdigit b = true) :
    leading (b :: rest) =
      (false, ((b :: rest).takeWhile isdigit).foldl (fun v b => v * 10 + (b.toNat - 48)) 0) := by
  unfold leading
  rw [List.dropWhile_cons, not_isspace_of_isdigit h, if_neg Bool.false_ne_true]
  split
  · rename_i heq
    split at heq
    · rename_i hb
      cases hb
      exact absurd h (by decide)
    · rename_i hb
      cases hb
      exact absurd h (by decide)
    · cases heq
      rfl

/-- A decimal text, as `strtoll` reads it. -/
theorem leading_of_parseInt {v : Int} (h : Decimal.parseInt t = some v) :
    ∃ negative magnitude, leading (Utf8.encode t) = (negative, magnitude) ∧
      v = (if negative then -(magnitude : Int) else magnitude) ∧
      (negative = true ↔ t.toList.head? = some '-') := by
  unfold Decimal.parseInt at h
  obtain ⟨m, hm, rfl⟩ := Option.map_eq_some_iff.mp h
  obtain ⟨hne, hall, rfl⟩ := Decimal.digits_spec hm
  have hdigit : ∀ c ∈ (Decimal.sign t.toList).2, IntegerChar c :=
    fun c hc => .inl (List.all_eq_true.mp hall c hc)
  -- signs and digits are one byte each
  have hascii : ∀ c ∈ t.toList, c.toNat < 128 := by
    intro c hc
    apply (IntegerChar.ascii ?_).2
    unfold Decimal.sign at hdigit
    split at hdigit
    · rename_i rest heq
      rw [heq] at hc
      rcases List.mem_cons.mp hc with rfl | hc
      · exact .inr (.inl rfl)
      · exact hdigit c hc
    · rename_i rest heq
      rw [heq] at hc
      rcases List.mem_cons.mp hc with rfl | hc
      · exact .inr (.inr rfl)
      · exact hdigit c hc
    · exact hdigit c hc
  rw [Utf8.encode_ascii hascii]
  have hboth := And.intro hne hall
  generalize t.toList = chars at hboth
  unfold Decimal.sign at hboth ⊢
  split at hboth
  · -- a minus sign
    rename_i rest
    have hall := hboth.2
    refine ⟨true, Nat.ofDigitChars 10 rest 0, ?_, ?_, ?_⟩
    · show (true, ((rest.map Utf8.asciiByte).takeWhile isdigit).foldl _ 0) = _
      rw [takeWhile_digits hall, foldl_digits hall]
    · rfl
    · simp
  · rename_i rest
    have hall := hboth.2
    refine ⟨false, Nat.ofDigitChars 10 rest 0, ?_, ?_, ?_⟩
    · show (false, ((rest.map Utf8.asciiByte).takeWhile isdigit).foldl _ 0) = _
      rw [takeWhile_digits hall, foldl_digits hall]
    · rfl
    · simp
  · rename_i hminus hplus
    obtain ⟨hne, hall⟩ := hboth
    obtain ⟨c, rest, rfl⟩ := List.exists_cons_of_ne_nil hne
    have hc : isdigit (Utf8.asciiByte c) = true := by
      apply isdigit_asciiByte
      rw [List.all_cons, Bool.and_eq_true] at hall
      exact hall.1
    refine ⟨false, Nat.ofDigitChars 10 (c :: rest) 0, ?_, ?_, ?_⟩
    · rw [List.map_cons, leading_of_digit hc, ← List.map_cons, takeWhile_digits hall,
        foldl_digits hall]
    · rfl
    · constructor
      · intro hfalse
        cases hfalse
      · intro hhead
        rw [List.head?_cons, Option.some.injEq] at hhead
        exact absurd (by rw [hhead]) (hminus rest)

theorem strtoll_of_parseI64 {v : Int} (h : Decimal.parseI64 t = some v) :
    (strtoll (Utf8.encode t)).toInt = v := by
  obtain ⟨hint, hrange⟩ := Option.filter_eq_some_iff.mp h
  have hrange := of_decide_eq_true hrange
  obtain ⟨negative, magnitude, hleading, hv, -⟩ := leading_of_parseInt hint
  unfold strtoll
  rw [hleading]
  simp only [← hv]
  rw [show max (-2 ^ 63) (min v (2 ^ 63 - 1)) = v by omega]
  exact Int64.toInt_ofInt_of_le hrange.1 hrange.2

/-- And as `strtoull` does. -/
theorem strtoull_of_parseU64 {v : Int} (h : Decimal.parseU64 t = some v) :
    ((strtoull (Utf8.encode t)).toNat : Int) = v := by
  obtain ⟨hint, hlow, hhigh⟩ := Decimal.parseU64_spec h
  obtain ⟨negative, magnitude, hleading, hv, hminus⟩ := leading_of_parseInt hint
  have hpositive : negative = false := by
    unfold Decimal.parseU64 at h
    split at h
    · cases h
    · rename_i hhead
      rw [← Bool.not_eq_true, hminus]
      exact hhead
  rw [hpositive] at hleading hv
  have hv : v = magnitude := hv
  unfold strtoull
  rw [hleading]
  simp only
  rw [if_neg (by omega), if_neg Bool.false_ne_true, UInt64.toNat_ofNat_of_lt', hv]
  show magnitude < 2 ^ 64
  omega

theorem taken_text (hs : Utf8.encode t = cString s) :
    taken undefined dt (.str s) = some (textInteger dt t) := by
  rw [textInteger, hs]
  exact (apply_ite some _ _ _).symm

theorem agree_wide (hs : Utf8.encode t = cString s) {parse : Option Int}
    (hparse : (integerOf (.text t) dt).toOption = parse)
    (hread : ∀ v, parse = some v → textInteger dt t = v) (hin : InRange dt (textInteger dt t))
    (hexact : ∀ v, parse = some v → Decimal.exact t = some (v : ℚ)) :
    ((integerOf (.text t) dt).toOption = (taken undefined dt (.str s)).filter (InRange dt ·) ∧
      ∀ n, integerOf (.text t) dt = .ok n → (Value.text t).exact = some (n : ℚ)) ↔
      parse.isSome = true := by
  rw [taken_text hs, Option.filter_some, if_pos (decide_eq_true hin), hparse]
  constructor
  · rintro ⟨heq, -⟩
    rw [heq]
    rfl
  · intro hsome
    obtain ⟨v, hv⟩ := Option.isSome_iff_exists.mp hsome
    refine ⟨by rw [hv, hread v hv], ?_⟩
    intro n hn
    exact hexact n (hparse.symm.trans (toOption_eq_some_iff.mpr hn))

theorem integerOf_text_int64 (t : String) :
    (integerOf (.text t) .int64).toOption = Decimal.parseI64 t := by
  simp only [integerOf, intFromValue]
  cases Decimal.parseI64 t <;> rfl

theorem integerOf_text_uint64 (t : String) :
    (integerOf (.text t) .uint64).toOption = Decimal.parseU64 t := by
  simp only [integerOf, uintFromValue]
  cases Decimal.parseU64 t <;> rfl

theorem integerOf_text_small (h : dt.isInteger = true) (h64 : dt ≠ .int64) (hu64 : dt ≠ .uint64) :
    integerOf (.text t) dt = .ok n ↔ ReadsAs t n ∧ InRange dt n := by
  have hbounds := small_bounds h h64 hu64
  rw [integerOf_small h64 hu64, smallInt_iff hbounds.1 hbounds.2]
  have hnumber : ∀ f, number (.text t) dt = .ok f ↔ Decimal.parseF64 t = some f := by
    intro f
    simp only [number]
    cases Decimal.parseF64 t <;> simp
  constructor
  · rintro ⟨f, hf, hstands, hrange⟩
    exact ⟨⟨f, (hnumber f).mp hf, hstands⟩, hrange⟩
  · rintro ⟨⟨f, hf, hstands⟩, hrange⟩
    exact ⟨f, (hnumber f).mpr hf, hstands, hrange⟩

theorem readsAs_of_exact (hlow : -2 ^ 53 ≤ n) (hhigh : n ≤ 2 ^ 53)
    (h : Decimal.exact t = some (n : ℚ)) : ReadsAs t n := by
  obtain ⟨f, hf, hfinite⟩ := Decimal.parseF64_of_exact hlow hhigh h
  refine ⟨f, hf, hfinite, ?_⟩
  rw [Decimal.toRat_parseF64 hf hfinite h, roundInt_of_le hlow hhigh]

/-- Texts, for the types that are narrower. -/
theorem agree_small (h : dt.isInteger = true) (h64 : dt ≠ .int64) (hu64 : dt ≠ .uint64)
    (hs : Utf8.encode t = cString s) :
    ((integerOf (.text t) dt).toOption = (taken undefined dt (.str s)).filter (InRange dt ·) ∧
      ∀ n, integerOf (.text t) dt = .ok n → (Value.text t).exact = some (n : ℚ)) ↔
      TextFits dt t := by
  -- what Rust reads is in range; C takes the text as 64 bits first
  have hok := fun n => integerOf_text_small (t := t) (n := n) h h64 hu64
  rw [taken_text hs, Option.filter_some]
  unfold TextFits
  by_cases hin : InRange dt (textInteger dt t)
  · rw [if_pos (decide_eq_true hin), if_pos hin]
    constructor
    · rintro ⟨heq, hexact⟩
      exact hexact _ (toOption_eq_some_iff.mp heq)
    · intro hexact
      have hsmall := hin.small h h64 hu64
      have hreads := readsAs_of_exact (by omega) (by omega) hexact
      have hinteger := (hok _).mpr ⟨hreads, hin⟩
      refine ⟨toOption_eq_some_iff.mpr hinteger, ?_⟩
      intro n hn
      cases hinteger.symm.trans hn
      exact hexact
  · rw [if_neg (by rw [decide_eq_false hin]; exact Bool.false_ne_true), if_neg hin]
    constructor
    · rintro ⟨heq, -⟩ n hn hreads
      rw [(hok n).mpr ⟨hreads, hn⟩] at heq
      cases heq
    · intro hnone
      have herror : ∀ n, integerOf (.text t) dt ≠ .ok n := by
        intro n hn
        obtain ⟨hreads, hrange⟩ := (hok n).mp hn
        exact hnone n hrange hreads
      constructor
      · cases hi : integerOf (.text t) dt with
        | error err => rfl
        | ok n => exact absurd hi (herror n)
      · intro n hn
        exact absurd hn (herror n)

/-! ## The other datatypes -/

theorem same_cases (h : Same value tdot) :
    (∃ b, value = .bool b ∧ tdot = .bool b) ∨ (∃ n, value = .number n ∧ tdot = .num n) ∨
      ∃ t s, value = .text t ∧ tdot = .str s ∧ Utf8.encode t = cString s := by
  cases value with
  | bool b =>
    cases tdot with
    | bool b' => exact .inl ⟨b, rfl, by rw [show b = b' from h]⟩
    | _ => cases h
  | number n =>
    cases tdot with
    | num n' => exact .inr (.inl ⟨n, rfl, by rw [show n = n' from h]⟩)
    | _ => cases h
  | text t =>
    cases tdot with
    | str s => exact .inr (.inr ⟨t, s, rfl, rfl, h⟩)
    | _ => cases h

theorem agree_iff_of_not_integer (h : dt.isInteger = false) :
    Agree undefined value tdot dt e w capacity ↔ (encodePrimitive value dt e w).toOption =
      (encode undefined dt tdot e w capacity).toOption := by
  unfold Agree
  rw [h]
  simp

theorem reorder_singleton (b : UInt8) : reorder [b] e w = [b] := by
  cases e <;> cases w <;> rfl

theorem agree_bool (hsame : Same value tdot) (hcapacity : 8 ≤ capacity) :
    Agree undefined value tdot .bool e w capacity ↔ EncodesAlike capacity .bool value := by
  rw [agree_iff_of_not_integer rfl, encode_fixed (by decide) (by decide) hcapacity, toOption_map]
  rcases same_cases hsame with ⟨b, rfl, rfl⟩ | ⟨n, rfl, rfl⟩ | ⟨t, s, rfl, rfl, -⟩
  · apply iff_of_true
    · show some [if b then 1 else 0] = some (reorder [if b then 1 else 0] e w)
      rw [reorder_singleton]
    · exact .inl rfl
  · apply iff_of_true
    · show some [if n != ofInt 0 then 1 else 0] = some (reorder [if n != ofInt 0 then 1 else 0] e w)
      rw [reorder_singleton]
    · intro h
      cases h
  · apply iff_of_false
    · intro heq
      cases heq
    · exact id

theorem agree_string (hsame : Same value tdot) :
    Agree undefined value tdot .string e w capacity ↔ EncodesAlike capacity .string value := by
  rw [agree_iff_of_not_integer rfl]
  rcases same_cases hsame with ⟨b, rfl, rfl⟩ | ⟨n, rfl, rfl⟩ | ⟨t, s, rfl, rfl, hs⟩
  · exact iff_of_true rfl (.inr (.inl rfl))
  · exact iff_of_true rfl fun h => by cases h
  · show some (Utf8.encode t) = (if (cString s).length > capacity then Except.error "buffer too small"
      else .ok (cString s)).toOption ↔ (Utf8.encode t).length ≤ capacity
    rw [hs]
    split
    · rename_i hlong
      apply iff_of_false
      · intro heq
        cases heq
      · omega
    · rename_i hshort
      exact iff_of_true rfl (by omega)

theorem agree_bytes (hsame : Same value tdot) :
    Agree undefined value tdot .bytes e w capacity ↔ EncodesAlike capacity .bytes value := by
  rw [agree_iff_of_not_integer rfl]
  rcases same_cases hsame with ⟨b, rfl, rfl⟩ | ⟨n, rfl, rfl⟩ | ⟨t, s, rfl, rfl, hs⟩
  · exact iff_of_true rfl (.inr (.inr rfl))
  · exact iff_of_true rfl fun h => by cases h
  · exact iff_of_true rfl trivial

/-- Floating-point types. -/
theorem agree_float {be : Float → List UInt8} (hdt : dt = .float32 ∨ dt = .float64)
    (hsame : Same value tdot) (hcapacity : 8 ≤ capacity)
    (hrust : ∀ v, Codec.encodeFixed v dt = (number v dt).map be)
    (hnumber : ∀ n, encodeFixed undefined dt (.num n) = .ok (be n))
    (hbool : ∀ b, encodeFixed undefined dt (.bool b) = .error "expected numeric value")
    (htext : ∀ s, encodeFixed undefined dt (.str s) = .error "expected numeric value")
    (hwhole : ∀ n, Whole (be n)) :
    Agree undefined value tdot dt e w capacity ↔ EncodesAlike capacity dt value := by
  have hint : dt.isInteger = false := by rcases hdt with rfl | rfl <;> rfl
  have hkind : dt ≠ .bool ∧ dt ≠ .string ∧ dt ≠ .bytes := by
    rcases hdt with rfl | rfl <;> decide
  rw [agree_iff_of_not_integer hint, encode_fixed hkind.2.1 hkind.2.2 hcapacity, toOption_map,
    encodePrimitive_fixed hkind.1 (by rcases hdt with rfl | rfl <;> rfl), hrust, toOption_map,
    toOption_map]
  rcases same_cases hsame with ⟨b, rfl, rfl⟩ | ⟨n, rfl, rfl⟩ | ⟨t, s, rfl, rfl, -⟩
  · rw [hbool]
    apply iff_of_false
    · intro heq
      cases heq
    · rintro (h | h | h)
      · exact hkind.1 h
      · exact hkind.2.1 h
      · exact hkind.2.2 h
  · rw [hnumber]
    apply iff_of_true
    · show some (Codec.reorder (be n) e w) = some (reorder (be n) e w)
      rw [reorder_eq (hwhole n)]
    · intro h
      exact absurd (hint.symm.trans h) Bool.false_ne_true
  · rw [htext]
    have halike : EncodesAlike capacity dt (.text t) ↔ Decimal.parseF64 t = none := by
      rcases hdt with rfl | rfl <;> exact Iff.rfl
    rw [halike]
    simp only [number]
    cases Decimal.parseF64 t with
    | none => exact iff_of_true rfl rfl
    | some f =>
      apply iff_of_false
      · intro heq
        cases heq
      · intro h
        cases h

theorem integerOf_bool (h : dt.isInteger = true) (b : Bool) :
    integerOf (.bool b) dt = .ok (if b then 1 else 0) := by
  have hone : Stands (ofInt (if b then 1 else 0)) (if b then 1 else 0) := by
    apply stands_ofInt <;> cases b <;> decide
  by_cases h64 : dt = .int64
  · subst h64
    rfl
  · by_cases hu64 : dt = .uint64
    · subst hu64
      rfl
    · have hbounds := small_bounds h h64 hu64
      have hrange : InRange dt (if b then 1 else 0) := by
        cases dt <;> first | contradiction | (cases b <;> decide)
      rw [integerOf_small h64 hu64, smallInt_iff hbounds.1 hbounds.2]
      exact ⟨_, rfl, hone, hrange⟩

theorem length_beWrite (b : List UInt8) (len : Nat) (v : UInt64) :
    (beWrite b len v).length = b.length := by
  unfold beWrite
  generalize List.range len = indices
  induction indices generalizing b with
  | nil => rfl
  | cons i indices ih => rw [List.foldl_cons, ih, List.length_set]

theorem inRange_int64 (s : Int64) : InRange .int64 s.toInt := by
  have hlow := s.le_toInt
  have hhigh := s.toInt_lt
  refine ⟨hlow, ?_⟩
  show s.toInt ≤ 2 ^ 63 - 1
  omega

theorem inRange_uint64 (u : UInt64) : InRange .uint64 u.toNat := by
  have hlt := u.toNat_lt
  refine ⟨Int.natCast_nonneg _, ?_⟩
  show (u.toNat : Int) ≤ 2 ^ 64 - 1
  omega

/-- **Agreement of the encoders**: whatever the conversions that are left open give, they accept the
same values and write the same bytes, those of the value, exactly on the values described. -/
theorem encode_agree_iff (hsame : Same value tdot) (hcapacity : 8 ≤ capacity) :
    (∀ undefined, Agree undefined value tdot dt e w capacity) ↔ EncodesAlike capacity dt value := by
  -- nothing undefined is asked of most types
  have hconst : ∀ {P : Undefined → Prop} {Q : Prop}, (∀ undefined, P undefined ↔ Q) →
      ((∀ undefined, P undefined) ↔ Q) := by
    intro P Q h
    exact ⟨fun hp => (h zeros).mp (hp zeros), fun hq undefined => (h undefined).mpr hq⟩
  cases hint : dt.isInteger with
  | true =>
    rcases same_cases hsame with ⟨b, rfl, rfl⟩ | ⟨f, rfl, rfl⟩ | ⟨t, s, rfl, rfl, hs⟩
    · apply hconst
      intro undefined
      rw [agree_integer hint hcapacity, integerOf_bool hint]
      apply iff_of_false
      · rintro ⟨heq, -⟩
        cases heq
      · rintro (rfl | rfl | rfl) <;> cases hint
    · have hexact : ∀ n, integerOf (.number f) dt = .ok n →
          (Value.number f).exact = some (n : ℚ) := by
        intro n hn
        exact exact_number ((integerOf_number hint).mp hn).1
      have halike : EncodesAlike capacity dt (.number f) ↔ Castable dt f :=
        ⟨fun h => h hint, fun h _ => h⟩
      rw [halike, ← agree_number hint]
      apply forall_congr'
      intro undefined
      rw [agree_integer hint hcapacity]
      exact and_iff_left hexact
    · apply hconst
      intro undefined
      rw [agree_integer hint hcapacity]
      by_cases h64 : dt = .int64
      · subst h64
        apply agree_wide hs (integerOf_text_int64 t) fun v hv => strtoll_of_parseI64 hv
        · exact inRange_int64 _
        · intro v hv
          exact Decimal.exact_of_parseInt (Option.filter_eq_some_iff.mp hv).1
      · by_cases hu64 : dt = .uint64
        · subst hu64
          apply agree_wide hs (integerOf_text_uint64 t) fun v hv => strtoull_of_parseU64 hv
          · exact inRange_uint64 _
          · intro v hv
            exact Decimal.exact_of_parseInt (Decimal.parseU64_spec hv).1
        · have halike : EncodesAlike capacity dt (.text t) ↔ TextFits dt t := by
            cases dt <;> first | contradiction | exact Iff.rfl
          rw [halike]
          exact agree_small hint h64 hu64 hs
  | false =>
    apply hconst
    intro undefined
    cases dt with
    | bool => exact agree_bool hsame hcapacity
    | string => exact agree_string hsame
    | bytes => exact agree_bytes hsame
    | float32 =>
      have hrust : ∀ v, Codec.encodeFixed v .float32 =
          (number v .float32).map fun n => toBeBytes 4 (narrow n).toBits.toNat := fun _ => rfl
      apply agree_float (.inl rfl) hsame hcapacity hrust _ (fun _ => rfl) (fun _ => rfl)
      · intro n
        exact .inr (.inr (.inl (length_toBeBytes 4 _)))
      · intro n
        show Except.ok ((beWrite (List.replicate 8 0) 4 (narrow n).toBits.toUInt64).take 4) = _
        rw [beWrite_eq _ (.inr (.inr (.inl rfl))), UInt32.toNat_toUInt64]
    | float64 =>
      have hrust : ∀ v, Codec.encodeFixed v .float64 =
          (number v .float64).map fun n => toBeBytes 8 n.toBits.toNat := fun _ => rfl
      apply agree_float (.inr rfl) hsame hcapacity hrust _ (fun _ => rfl) (fun _ => rfl)
      · intro n
        exact .inr (.inr (.inr (length_toBeBytes 8 _)))
      · intro n
        show Except.ok (beWrite (List.replicate 8 0) 8 n.toBits) = _
        rw [← beWrite_eq _ (.inr (.inr (.inr rfl))), List.take_of_length_le]
        rw [length_beWrite]
        exact Nat.le_refl 8
    | _ => cases hint

end Integers

/-- A text that is a number. -/
theorem encode_agree_iff_text :
    (∀ undefined, Agree undefined (.text "-5") (.str (Utf8.encode "-5")) .int16 .little .big 16) ↔
      EncodesAlike 16 .int16 (.text "-5") :=
  encode_agree_iff (by show Utf8.encode "-5" = cString (Utf8.encode "-5"); decide +kernel)
    (by decide)

/-- The encoders differ: the C SDK takes a text for the integer it starts with, and takes a number
that is out of the range of `int64` for whatever its conversion gives. -/
theorem encoders_differ :
    (encodePrimitive (.text "12abc") .int16 .big .big = .error (.invalidValue .int16) ∧
      ∀ undefined, encode undefined .int16 (.str (Utf8.encode "12abc")) .big .big 16 =
        .ok [0, 12]) ∧
    encodePrimitive (.number (ofInt (2 ^ 63))) .int64 .big .big = .error (.outOfRange .int64) ∧
      encode zeros .int64 (.num (ofInt (2 ^ 63))) .big .big 16 = .ok [0, 0, 0, 0, 0, 0, 0, 0] := by
  refine ⟨⟨?_, ?_⟩, ?_, ?_⟩
  · decide +kernel
  · intro undefined
    -- a text is converted without the conversions that are left open
    have htext : encode undefined .int16 (.str (Utf8.encode "12abc")) .big .big 16 =
        encode zeros .int16 (.str (Utf8.encode "12abc")) .big .big 16 := rfl
    rw [htext]
    decide +kernel
  · decide +kernel
  · decide +kernel

end TedgeDot.TdotCodec
