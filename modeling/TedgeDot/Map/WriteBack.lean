import TedgeDot.Map.Apply
import TedgeDot.Map.Integers
import TedgeDot.Sdk.RoundTrip
import TedgeDot.Sdk.Taken

/-!
# Writing a mapped value back

A map that only converts to strings makes the decimal text of every integer. A write of that text
goes through a double (`parse_number`), also where the integer was carried as text: so the bytes
come back exactly when a double holds the integer. A `bool` is written as 0 or 1.
-/

namespace TedgeDot

open Binary64 Codec

/-- `Value::to_json`. A number that is not finite is `null`. -/
def Value.toJson : Value → Json
  | .bool b => .bool b
  | .number n => if n.isFinite then .number (.float n) else .null
  | .text t => .string t

/-- `json_to_value` of the connectors. -/
def Connector.jsonToValue : Json → Option Value
  | .bool b => some (.bool b)
  | .number n => some (.number n.asF64)
  | .string s => some (.text s)
  | _ => none

namespace Map

/-- The map of the table `as = "string"`. -/
def asString : ValueMap := { cases := [], default := none, convert := some .string }

example : ValueMap.parse (.object [("as", .string "string")]) = .ok (some asString) := rfl

/-- The bytes that a write of the mapped value sends, of the value that was read from bytes. -/
def writeBack (compact : Json → String) (map : ValueMap) (bytes : List UInt8) (datatype : DataType)
    (e : Endianness) (w : WordOrder) : Option (List UInt8) := do
  let value ← (decodePrimitive bytes datatype e w).toOption
  let mapped ← (map.apply compact value (some datatype)).toOption
  let device ← (map.invert compact mapped.toJson (some datatype)).toOption
  let written ← Connector.jsonToValue device
  (encodePrimitive written datatype e w).toOption

/-- The bytes are 0 or 1 of a `bool`, or an integer that a double holds. -/
def Kept (bytes : List UInt8) (datatype : DataType) (e : Endianness) (w : WordOrder) : Prop :=
  if datatype = .bool then bytes = [0] ∨ bytes = [1]
  else roundInt (ofBytes datatype (reorder bytes e w)) = ofBytes datatype (reorder bytes e w)

/-! ## Encoding an integer -/

section Integers

variable {bytes : List UInt8} {datatype : DataType} {e : Endianness} {w : WordOrder}

theorem isInteger_ne_bool (h : datatype.isInteger = true) : datatype ≠ .bool := by
  rintro rfl
  cases h

/-- A number is taken for an integer exactly when it stands for one in range. -/
theorem integerOf_number (h : datatype.isInteger = true) {f : Float} {n : Int} :
    integerOf (.number f) datatype = .ok n ↔ Stands f n ∧ InRange datatype n := by
  by_cases h64 : datatype = .int64
  · subst h64
    apply intFromValue_number.trans
    apply and_congr_right'
    show -2 ^ 63 ≤ n ∧ n < 2 ^ 63 ↔ -2 ^ 63 ≤ n ∧ n ≤ 2 ^ 63 - 1
    omega
  · by_cases hu64 : datatype = .uint64
    · subst hu64
      apply uintFromValue_number.trans
      apply and_congr_right'
      show 0 ≤ n ∧ n < 2 ^ 64 ↔ 0 ≤ n ∧ n ≤ 2 ^ 64 - 1
      omega
    · have hbounds := small_bounds h h64 hu64
      rw [integerOf_small h64 hu64, smallInt_iff hbounds.1 hbounds.2]
      constructor
      · rintro ⟨g, hg, hstands, hrange⟩
        cases hg
        exact ⟨hstands, hrange⟩
      · rintro ⟨hstands, hrange⟩
        exact ⟨f, rfl, hstands, hrange⟩

theorem intValue_inj {n m : Int} (hn : Is64 n) (hm : Is64 m) (h : intValue n = intValue m) :
    n = m := by
  have hexact := congrArg Value.exact h
  rw [exact_intValue hn.1 hn.2, exact_intValue hm.1 hm.2] at hexact
  exact_mod_cast Option.some.inj hexact

theorem encodePrimitive_iff (h : datatype.isInteger = true)
    (hlen : bytes.length = width datatype) (value : Value) :
    encodePrimitive value datatype e w = .ok bytes ↔
      integerOf value datatype = .ok (ofBytes datatype (reorder bytes e w)) := by
  have hbool := isInteger_ne_bool h
  have hfixed := byteLen_of_integer h
  have hordered : (reorder bytes e w).length = width datatype := by
    rw [length_reorder, hlen]
  constructor
  · intro hok
    obtain ⟨n, hn, hread⟩ := decode_encode h hok
    rw [decodePrimitive_fixed hbool (by rw [hfixed, hlen]), decodeFixed_integer h hordered] at hread
    have heq := intValue_inj (inRange_ofBytes hordered).bounds (integerOf_spec h hn).1.bounds
      (Except.ok.inj hread)
    rw [hn, heq]
  · intro hn
    rw [encodePrimitive_fixed hbool (by rw [hfixed]; rfl), encodeFixed_integer h, hn]
    show Except.ok (reorder (intBytes (width datatype) _) e w) = _
    rw [intBytes_ofBytes hordered, reorder_reorder (whole_of_integer h hlen)]

theorem encode_ofInt_iff (h : datatype.isInteger = true) (hlen : bytes.length = width datatype) :
    encodePrimitive (.number (ofInt (ofBytes datatype (reorder bytes e w)))) datatype e w =
        .ok bytes ↔ Kept bytes datatype e w := by
  have hrange := @inRange_ofBytes datatype (reorder bytes e w)
    (by rw [length_reorder, hlen])
  have hspec := ofInt_spec (Is64.moderate hrange.bounds)
  rw [encodePrimitive_iff h hlen, integerOf_number h, Kept, if_neg (isInteger_ne_bool h)]
  constructor
  · intro hstands
    have heq := hspec.2.symm.trans hstands.1.2
    exact_mod_cast heq
  · intro heq
    refine ⟨⟨hspec.1, ?_⟩, hrange⟩
    rw [hspec.2, heq]

end Integers

/-! ## The text of an integer -/

theorem trimC_of_all {s : List Char} (h : ∀ c ∈ s, isCWhitespace c = false) : trimC s = s := by
  have hdrop : ∀ t : List Char, (∀ c ∈ t, isCWhitespace c = false) →
      t.dropWhile isCWhitespace = t := by
    intro t ht
    apply List.dropWhile_eq_self_iff.mpr
    intro hpos
    simp [ht _ (List.getElem_mem hpos)]
  unfold trimC
  rw [hdrop s h, hdrop s.reverse (fun c hc => h c (List.mem_reverse.mp hc)), List.reverse_reverse]

theorem isCWhitespace_of_isDigit {c : Char} (h : c.isDigit = true) : isCWhitespace c = false := by
  unfold isCWhitespace
  simp only [Bool.or_eq_false_iff, beq_eq_false_iff_ne]
  refine ⟨⟨⟨⟨⟨?_, ?_⟩, ?_⟩, ?_⟩, ?_⟩, ?_⟩ <;>
    · rintro rfl
      revert h
      decide

theorem trimC_toString (v : Int) : trimC (toString v).toList = (toString v).toList := by
  have hdigits : ∀ n, ∀ c ∈ Nat.toDigits 10 n, isCWhitespace c = false := by
    intro n c hc
    exact isCWhitespace_of_isDigit (Nat.isDigit_of_mem_toDigits (by decide) (by decide) hc)
  apply trimC_of_all
  rcases Int.lt_or_le v 0 with hv | hv
  · rw [Decimal.toList_toString_of_neg hv]
    intro c hc
    rcases List.mem_cons.mp hc with rfl | hc
    · decide
    · exact hdigits _ c hc
  · rw [Decimal.toList_toString_of_nonneg hv]
    exact hdigits _

theorem parseNumber_toString {v : Int} (hv : Is64 v) :
    parseNumber (toString v) = some (ofInt v) := by
  obtain ⟨n, hdigits, -⟩ := Option.map_eq_some_iff.mp (Decimal.parseInt_toString v)
  unfold parseNumber
  simp only [trimC_toString, String.ofList_toList, Decimal.unsigned_of_digits hdigits,
    Decimal.parseF64_toString]
  rw [Option.isSome_some, if_pos rfl, Option.filter_some, if_pos (ofInt_spec hv.moderate).1]

theorem convert_intValue (v : Int) (big : Bool) :
    Map.convert (intValue v) .string big = .ok (.text (toString v)) := by
  rcases intValue_cases v with ⟨hv, hlow, hhigh⟩ | hv
  · unfold SAFE_INT_MIN at hlow
    unfold SAFE_INT_MAX at hhigh
    have hformat : formatNumber (ofInt v) = some (toString v) := by
      have hfinite := (stands_ofInt (n := v) (by omega) (by omega)).1
      unfold formatNumber
      rw [hfinite, Bool.not_true, if_neg Bool.false_ne_true]
      split
      · rename_i hzero
        rw [← Decimal.display_ofInt (by omega) (by omega), Decimal.display, if_pos hzero]
      · exact Decimal.display_ofInt (by omega) (by omega)
    rw [hv]
    simp only [Map.convert, hformat]
  · rw [hv]
    rfl

/-- Below 2^53 a double gives its integer back. -/
theorem toI64_ofInt {v : Int} (hv : Is64 v) (h : (ofInt v).abs < ofInt 9007199254740992) :
    (toI64 (ofInt v)).toInt = v := by
  by_cases hzero : v = 0
  · subst hzero
    decide
  obtain ⟨hlow, hhigh⟩ := hv
  have hmoderate := moderate_of_lt (n := v) (by omega) hhigh
  have habs := ofInt_spec (moderate_of_lt (n := (v.natAbs : Int)) (by omega) (by omega))
  have hbound : Stands (ofInt 9007199254740992) 9007199254740992 :=
    stands_ofInt (by omega) (by omega)
  rw [Decimal.abs_ofInt hzero hmoderate, Binary64.lt_iff habs.1 hbound.1, habs.2, hbound.2] at h
  have hround : roundInt v.natAbs < 9007199254740992 := by exact_mod_cast h
  have hsmall : (v.natAbs : Int) < 2 ^ 53 := by
    by_contra hge
    have hmono := roundInt_mono (show (2 ^ 53 : Int) ≤ v.natAbs by omega)
    rw [roundInt_of_le (by omega) (by omega)] at hmono
    omega
  have hstands := stands_ofInt (n := v) (by omega) (by omega)
  exact toI64_of_integral hstands.integral hstands.2 (by omega) (by omega)

theorem jsonToValue_valueToJson {v : Int} (hv : Is64 v) :
    Connector.jsonToValue (valueToJson (.number (ofInt v))) = some (.number (ofInt v)) := by
  simp only [valueToJson]
  split
  · rename_i hcond
    rw [Bool.and_eq_true, decide_eq_true_eq] at hcond
    have hdouble := Option.some.inj (asF64_integer (toI64 (ofInt v)))
    rw [toI64_ofInt hv hcond.2] at hdouble
    exact congrArg (fun f => some (Value.number f)) hdouble
  · rw [if_pos (ofInt_spec hv.moderate).1]
    rfl

/-! ## Writing back -/

section WriteBack

variable {compact : Json → String} {bytes : List UInt8} {datatype : DataType} {e : Endianness}
  {w : WordOrder}

/-- For integers, writing back is encoding the double of what was decoded. -/
theorem writeBack_integer (h : datatype.isInteger = true) (hlen : bytes.length = width datatype) :
    writeBack compact asString bytes datatype e w = (encodePrimitive
      (.number (ofInt (ofBytes datatype (reorder bytes e w)))) datatype e w).toOption := by
  have hbool := isInteger_ne_bool h
  have hordered : (reorder bytes e w).length = width datatype := by
    rw [length_reorder, hlen]
  have hv : Is64 (ofBytes datatype (reorder bytes e w)) := (inRange_ofBytes hordered).bounds
  have hdecode : decodePrimitive bytes datatype e w =
      .ok (intValue (ofBytes datatype (reorder bytes e w))) := by
    rw [decodePrimitive_fixed hbool (by rw [byteLen_of_integer h, hlen]),
      decodeFixed_integer h hordered]
  generalize ofBytes datatype (reorder bytes e w) = v at hdecode hv ⊢
  -- on the way out every integer is its text, on the way back every text is a double
  have happly : asString.apply compact (intValue v) (some datatype) = .ok (.text (toString v)) :=
    convert_intValue v _
  have hnative : (Kind.ofDatatype datatype) = .number := by
    cases datatype <;> first | rfl | cases h
  have hinvert : asString.invert compact (.string (toString v)) (some datatype) =
      .ok (valueToJson (.number (ofInt v))) := by
    have hconvert : Map.convert (.text (toString v)) .number false = .ok (.number (ofInt v)) := by
      simp only [Map.convert, parseNumber_toString hv]
    unfold ValueMap.invert
    simp only [asString, ValueMap.outputKind, Option.some_or, Option.getD_some, Kind.of, ne_eq,
      not_true_eq_false, if_false, List.findSome?_nil, Option.map_some, hnative, jsonToValue,
      hconvert]
  unfold writeBack
  rw [hdecode]
  simp only [Except.toOption, Option.bind_eq_bind, Option.bind_some, happly, Value.toJson, hinvert,
    jsonToValue_valueToJson hv]

theorem writeBack_bool :
    writeBack compact asString bytes .bool e w = some [if bytes.any (· != 0) then 1 else 0] := by
  have hdecode : decodePrimitive bytes .bool e w = .ok (.bool (bytes.any (· != 0))) := rfl
  unfold writeBack
  rw [hdecode]
  cases bytes.any (· != 0)
  · rfl
  · rfl

/-- **Writing back**: the bytes of a value mapped to a string come back exactly when a double holds
the integer, and of a `bool` when they are 0 or 1. -/
theorem writeBack_iff (h : datatype.isInteger = true ∨ datatype = .bool)
    (hlen : datatype.byteLen = some bytes.length) :
    writeBack compact asString bytes datatype e w = some bytes ↔ Kept bytes datatype e w := by
  rcases h with h | rfl
  · have hwidth : bytes.length = width datatype := by
      rw [width, hlen, Option.getD_some]
    rw [writeBack_integer h hwidth, ← encode_ofInt_iff h hwidth]
    cases encodePrimitive (.number (ofInt (ofBytes datatype (reorder bytes e w)))) datatype e w with
    | error e => simp [Except.toOption]
    | ok out => simp [Except.toOption]
  · obtain ⟨b, rfl⟩ := List.length_eq_one_iff.mp (Option.some.inj hlen).symm
    rw [writeBack_bool, Kept, if_pos rfl]
    by_cases hb : b = 0
    · simp [hb]
    · have hone : (1 = b) ↔ b = 1 := eq_comm
      simp [hb, hone]

/-- A 64-bit register. -/
theorem writeBack_iff_uint64 :
    writeBack (fun _ => "") asString [0, 0x20, 0, 0, 0, 0, 0, 2] .uint64 .big .big =
      some [0, 0x20, 0, 0, 0, 0, 0, 2] ↔ Kept [0, 0x20, 0, 0, 0, 0, 0, 2] .uint64 .big .big :=
  writeBack_iff (.inl rfl) rfl

/-- The least `uint64` that no double holds is written as the one below. -/
theorem writeBack_rounded :
    decodePrimitive [0, 0x20, 0, 0, 0, 0, 0, 1] .uint64 .big .big = .ok (.text "9007199254740993") ∧
      writeBack (fun _ => "") asString [0, 0x20, 0, 0, 0, 0, 0, 1] .uint64 .big .big =
        some [0, 0x20, 0, 0, 0, 0, 0, 0] := by
  constructor <;> decide +kernel

end WriteBack

end Map

end TedgeDot
