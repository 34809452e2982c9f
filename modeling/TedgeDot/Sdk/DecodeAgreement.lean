import TedgeDot.Sdk.RoundTrip
import TedgeDot.Sdk.TdotCodec

/-!
# The decoders of the two SDKs

The C SDK reads canonical bytes through a 64-bit integer, which is the number that they write
(`toNat_beRead`); cast to a datatype it is the datatype's integer (`decodeFixed_eq`). So the
decoders agree on numbers, and `decode_agree_iff` says on which buffers they do not.
-/

namespace TedgeDot.TdotCodec

open Binary64 Codec

/-! ## Bytes -/

theorem reorder_eq {bytes : List UInt8} (h : Whole bytes) (e : Endianness) (w : WordOrder) :
    reorder bytes e w = Codec.reorder bytes e w := by
  rcases h.cases with ⟨a, rfl⟩ | ⟨a, b, rfl⟩ | ⟨a, b, c, d, rfl⟩ | ⟨a, b, c, d, i, j, k, l, rfl⟩ <;>
    cases e <;> cases w <;>
      simp [reorder, Codec.reorder, chunks, swapWord, swapWords, swapBytes, exchange, List.range,
        List.range.loop]

theorem shift_or (v : UInt64) (b : UInt8) (h : v.toNat < 2 ^ 56) :
    ((v <<< 8) ||| b.toUInt64).toNat = v.toNat * 256 + b.toNat := by
  have hb : b.toNat < 2 ^ 8 := b.toNat_lt
  have hor := Nat.shiftLeft_add_eq_or_of_lt hb v.toNat
  have hshift : (v <<< 8).toNat = v.toNat <<< 8 := by
    rw [UInt64.toNat_shiftLeft]
    apply Nat.mod_eq_of_lt
    show v.toNat <<< 8 < 2 ^ 64
    rw [Nat.shiftLeft_eq]
    omega
  rw [UInt64.toNat_or, hshift, UInt8.toNat_toUInt64, ← hor, Nat.shiftLeft_eq]

theorem toNat_beRead {bytes : List UInt8} (h : bytes.length ≤ 8) :
    (beRead bytes).toNat = fromBeBytes bytes := by
  induction bytes using List.reverseRecOn with
  | nil => rfl
  | append_singleton bytes b ih =>
    rw [List.length_append, List.length_singleton] at h
    have hlt := fromBeBytes_lt bytes
    have hpow : 256 ^ bytes.length ≤ 256 ^ 7 := Nat.pow_le_pow_right (by decide) (by omega)
    have ih := ih (by omega)
    have hstep : beRead (bytes ++ [b]) = (beRead bytes <<< 8) ||| b.toUInt64 := by
      simp [beRead]
    rw [hstep, shift_or _ _ (by omega), ih, fromBeBytes_concat]

/-! ## Numbers -/

theorem beRead_eq {bytes : List UInt8} (h : bytes.length ≤ 8) :
    beRead bytes = UInt64.ofNat (fromBeBytes bytes) := by
  apply UInt64.toNat_inj.mp
  have hlt := fromBeBytes_lt bytes
  have hpow : 256 ^ bytes.length ≤ 256 ^ 8 := Nat.pow_le_pow_right (by decide) h
  rw [toNat_beRead h, UInt64.toNat_ofNat_of_lt']
  show fromBeBytes bytes < 2 ^ 64
  omega

/-- Values of the two SDKs that are the same. -/
def Same : Value → TdotValue → Prop
  | .bool b, .bool b' => b = b'
  | .number n, .num n' => n = n'
  | .text t, .str s => Utf8.encode t = cString s
  | _, _ => False

/-- Results of the two decoders that are the same. -/
def SameResult : Except DecodeError Value → Except String TdotValue → Prop
  | .ok v, .ok c => Same v c
  | .error _, .error _ => True
  | _, _ => False

/-! ## Texts of integers -/

/-- The characters of the text of an integer. -/
def IntegerChar (c : Char) : Prop := c.isDigit = true ∨ c = '-' ∨ c = '+'

theorem IntegerChar.ascii {c : Char} (h : IntegerChar c) : 0 < c.toNat ∧ c.toNat < 128 := by
  rcases h with h | rfl | rfl
  · have hrange := Char.isDigit_iff_toNat.mp h
    have hlow : '0'.toNat = 48 := rfl
    have hhigh : '9'.toNat = 57 := rfl
    exact ⟨by omega, by omega⟩
  · decide
  · decide

theorem integerChar_toString (v : Int) : ∀ c ∈ (toString v).toList, IntegerChar c := by
  intro c hc
  have hdigit : ∀ n, c ∈ Nat.toDigits 10 n → IntegerChar c := by
    intro n hn
    exact .inl (Nat.isDigit_of_mem_toDigits (by decide) (by decide) hn)
  rcases Int.lt_or_le v 0 with hv | hv
  · rw [Decimal.toList_toString_of_neg hv] at hc
    rcases List.mem_cons.mp hc with rfl | hc
    · exact .inr (.inl rfl)
    · exact hdigit _ hc
  · rw [Decimal.toList_toString_of_nonneg hv] at hc
    exact hdigit _ hc

theorem cString_of_ne_zero {buffer : List UInt8} (h : ∀ b ∈ buffer, b ≠ 0) :
    cString buffer = buffer := by
  apply List.takeWhile_eq_self_iff.mpr
  intro b hb
  exact bne_iff_ne.mpr (h b hb)

theorem cString_printed (v : Int) :
    cString (Utf8.encode (toString v)) = Utf8.encode (toString v) := by
  apply cString_of_ne_zero
  have hascii : ∀ c ∈ (toString v).toList, c.toNat < 128 :=
    fun c hc => (integerChar_toString v c hc).ascii.2
  rw [Utf8.encode_ascii hascii]
  intro b hb
  obtain ⟨c, hc, rfl⟩ := List.mem_map.mp hb
  intro hzero
  have hnat := Utf8.toNat_asciiByte (hascii c hc)
  rw [hzero] at hnat
  have := (integerChar_toString v c hc).ascii.1
  rw [← hnat] at this
  exact absurd this (by decide)

/-! ## Decoded values -/

theorem toSigned_eq (bits n : Nat) : toSigned bits n = (n : Int).bmod (2 ^ bits) :=
  BitVec.toInt_ofNat n

theorem same_intValue (v : Int) :
    Same (intValue v)
      (if v > TDOT_JS_SAFE_MAX ∨ v < -TDOT_JS_SAFE_MAX then printed v else .num (ofInt v)) := by
  unfold intValue SAFE_INT_MIN SAFE_INT_MAX TDOT_JS_SAFE_MAX
  split
  · rw [if_neg (by omega)]
    rfl
  · rw [if_pos (by omega)]
    exact (cString_printed v).symm

/-- Both decoders read the same number. -/
theorem decodeFixed_same {dt : DataType} {be : List UInt8} (hbool : dt ≠ .bool)
    (hlen : dt.byteLen = some be.length) :
    ∃ c, decodeFixed (beRead be) dt = .ok c ∧ Same (Codec.decodeFixed be dt) c := by
  have hlt := fromBeBytes_lt be
  have hwidth : be.length = width dt := by
    rw [width, hlen, Option.getD_some]
  have hshort : be.length ≤ 8 := by
    rw [hwidth]
    cases dt <;> decide
  have hread := beRead_eq hshort
  -- unsigned types are the number that was read; signed ones extend its sign
  have hnat := toNat_beRead hshort
  rw [hwidth] at hlt
  cases dt with
  | bool => contradiction
  | string => cases hlen
  | bytes => cases hlen
  | uint8 => exact ⟨_, rfl, by rw [hnat]; rfl⟩
  | uint16 => exact ⟨_, rfl, by rw [hnat]; rfl⟩
  | uint32 => exact ⟨_, rfl, by rw [hnat]; rfl⟩
  | int8 =>
    refine ⟨_, rfl, ?_⟩
    show ofInt _ = ofInt _
    rw [hread, toSigned_eq]
    simp [Int8.size]
  | int16 =>
    refine ⟨_, rfl, ?_⟩
    show ofInt _ = ofInt _
    rw [hread, toSigned_eq]
    simp [Int16.size]
  | int32 =>
    refine ⟨_, rfl, ?_⟩
    show ofInt _ = ofInt _
    rw [hread, toSigned_eq]
    simp [Int32.size]
  | uint64 =>
    refine ⟨_, (apply_ite Except.ok _ _ _).symm, ?_⟩
    rw [hnat]
    have hsame := same_intValue (fromBeBytes be)
    have hpos : ((fromBeBytes be : Int) > TDOT_JS_SAFE_MAX ∨
        (fromBeBytes be : Int) < -TDOT_JS_SAFE_MAX) ↔
        (fromBeBytes be : Int) > TDOT_JS_SAFE_MAX := by
      unfold TDOT_JS_SAFE_MAX
      omega
    simp only [hpos] at hsame
    exact hsame
  | int64 =>
    have hsigned : (beRead be).toInt64.toInt = toSigned 64 (fromBeBytes be) := by
      rw [hread, toSigned_eq]
      simp [Int64.size]
    refine ⟨_, (apply_ite Except.ok _ _ _).symm, ?_⟩
    rw [hsigned]
    exact same_intValue _
  | float32 =>
    refine ⟨_, rfl, ?_⟩
    show widen (Float32.ofBits _) = widen (Float32.ofBits _)
    rw [hread]
    simp
  | float64 =>
    refine ⟨_, rfl, ?_⟩
    show Float.ofBits _ = Float.ofBits _
    rw [hread]

theorem cString_trimmed (bytes : List UInt8) :
    (bytes.rdropWhile (· == 0)).takeWhile (· != 0) = bytes.takeWhile (· != 0) := by
  induction bytes using List.reverseRecOn with
  | nil => rfl
  | append_singleton bytes b ih =>
    rw [List.rdropWhile_concat]
    split
    · rename_i hzero
      have hb : (b != 0) = false := by
        rw [bne, hzero]
        rfl
      rw [ih, List.takeWhile_append]
      split
      · rename_i hall
        rw [List.takeWhile_cons, hb, if_neg Bool.false_ne_true, List.append_nil]
        exact (List.takeWhile_prefix _).eq_of_length hall
      · rfl
    · rfl

/-- **Agreement of the decoders**: on every buffer but an empty one for `bool` and one for `string`
whose text is not UTF-8. -/
theorem decode_agree_iff {dt : DataType} {bytes : List UInt8} {e : Endianness} {w : WordOrder}
    (hshort : dt = .string → bytes.length < STR_SIZE) :
    SameResult (decodePrimitive bytes dt e w) (decode dt bytes e w) ↔
      ¬ (dt = .bool ∧ bytes = []) ∧
        (dt = .string → Utf8.Valid (bytes.takeWhile (· != 0))) := by
  -- bool, string and bytes have a rule each; the other types have a fixed width
  by_cases hbool : dt = .bool
  · subst hbool
    cases bytes with
    | nil => simp [SameResult, decode, decodePrimitive]
    | cons b bytes => simp [SameResult, decode, decodePrimitive, Same]
  · by_cases hstring : dt = .string
    · subst hstring
      have hlen : (bytes.rdropWhile (· == 0)).length ≤ STR_SIZE - 1 := by
        have hstart := (List.rdropWhile_prefix (p := (· == 0)) (l := bytes)).length_le
        have := hshort rfl
        omega
      have hdecode : decode .string bytes e w = .ok (.str (bytes.rdropWhile (· == 0))) := by
        show Except.ok (TdotValue.str ((bytes.rdropWhile (· == 0)).take (STR_SIZE - 1))) = _
        rw [List.take_of_length_le hlen]
      have hrust : decodePrimitive bytes .string e w =
          .ok (.text (Utf8.fromUtf8Lossy (bytes.takeWhile (· != 0)))) := rfl
      have hsame : SameResult (decodePrimitive bytes .string e w) (decode .string bytes e w) ↔
          Utf8.Valid (bytes.takeWhile (· != 0)) := by
        rw [hdecode, hrust, ← Utf8.encode_fromUtf8Lossy]
        show _ = cString _ ↔ _
        rw [cString, cString_trimmed]
      rw [hsame]
      simp
    · have hright : ¬ (dt = .bool ∧ bytes = []) ∧
          (dt = .string → Utf8.Valid (bytes.takeWhile (· != 0))) :=
        ⟨fun h => hbool h.1, fun h => absurd h hstring⟩
      refine iff_of_true ?_ hright
      by_cases hbytes : dt = .bytes
      · subst hbytes
        trivial
      · have hfixed : dt.byteLen = some (datatypeLen dt) := by
          cases dt <;> first | rfl | contradiction
        have hwant : datatypeLen dt ≠ 0 := by
          cases dt <;> first | decide | contradiction
        unfold decodePrimitive decode
        rw [if_neg hbytes, if_neg hbool, if_neg hstring, if_neg hbool, if_neg hstring]
        simp only [if_neg hbytes, if_neg hwant, hfixed, Option.getD_some]
        by_cases hlen : bytes.length = datatypeLen dt
        · have hordered : dt.byteLen = some (Codec.reorder bytes e w).length := by
            rw [length_reorder, hlen, hfixed]
          have hwhole : Whole bytes := whole_of_byteLen (by rw [hlen, hfixed])
          obtain ⟨c, hc, hsame⟩ := decodeFixed_same hbool hordered
          rw [if_neg (not_not.mpr hlen), if_neg (not_not.mpr hlen), reorder_eq hwhole, hc]
          exact hsame
        · rw [if_pos hlen, if_pos hlen]
          trivial

/-- A text in UTF-8. -/
theorem decode_agree_iff_utf8 :
    SameResult (decodePrimitive [0x4F, 0x4B, 0, 0xFF] .string .big .big)
        (decode .string [0x4F, 0x4B, 0, 0xFF] .big .big) ↔
      ¬ (DataType.string = .bool ∧ [0x4F, 0x4B, 0, 0xFF] = ([] : List UInt8)) ∧
        (DataType.string = .string →
          Utf8.Valid ([0x4F, 0x4B, 0, 0xFF].takeWhile (· != 0))) :=
  decode_agree_iff fun _ => by decide

/-- The decoders differ on an empty buffer, and on a text that is not UTF-8. -/
theorem decoders_differ :
    ¬ SameResult (decodePrimitive [] .bool .big .big) (decode .bool [] .big .big) ∧
      ¬ SameResult (decodePrimitive [0xFF] .string .big .big) (decode .string [0xFF] .big .big) := by
  constructor
  · intro h
    exact h
  · intro h
    have h : Utf8.encode (Utf8.fromUtf8Lossy [0xFF]) = [0xFF] := h
    exact absurd h (by decide +kernel)

end TedgeDot.TdotCodec
