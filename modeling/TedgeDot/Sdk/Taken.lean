import TedgeDot.Sdk.EncodeAgreement

/-!
# The values that are written

An encoder takes a value for one that its datatype has: the integer that it is, the nearest float, a
boolean. The canonical bytes it makes are decoded to that value.

- `Codec.encodeFixed_spec`, `TdotCodec.encodeFixed_spec`: of the Rust and of the C codec.
-/

namespace TedgeDot

open Binary64 Codec

namespace Codec

/-- The value of the datatype that an encoder takes a value for. -/
def takenValue (dt : DataType) (value : Value) : Option Value :=
  match dt with
  | .bool => some (.bool (truthy value))
  | .float32 => (number value .float32).toOption.map fun n => .number (widen (narrow n))
  | .float64 => (number value .float64).toOption.map .number
  | dt => (integerOf value dt).toOption.map intValue

end Codec

namespace TdotCodec

/-- The value of the datatype that an encoder takes a value for. -/
def takenValue (undefined : Undefined) (dt : DataType) (value : TdotValue) : Option Value :=
  match dt, value with
  | .bool, .bool b => some (.bool b)
  | .bool, .num n => some (.bool (n != ofInt 0))
  | .float32, .num n => some (.number (widen (narrow n)))
  | .float64, .num n => some (.number n)
  | .bool, .str _ | .float32, _ | .float64, _ => none
  | dt, value => ((taken undefined dt value).filter (InRange dt ·)).map intValue

end TdotCodec

/-! ## Canonical bytes that are read -/

section Canonical

variable {dt : DataType}

theorem decodeFixed_float32 (f : Float32) :
    decodeFixed (toBeBytes 4 f.toBits.toNat) .float32 = .number (widen f) := by
  have hbits : fromBeBytes (toBeBytes 4 f.toBits.toNat) = f.toBits.toNat := by
    rw [fromBeBytes_toBeBytes]
    exact Nat.mod_eq_of_lt f.toBits.toNat_lt
  show Value.number (widen (Float32.ofBits (UInt32.ofNat (fromBeBytes _)))) = _
  rw [hbits, UInt32.ofNat_toNat, Float32.ofBits_toBits]

theorem decodeFixed_float64 (f : Float) :
    decodeFixed (toBeBytes 8 f.toBits.toNat) .float64 = .number f := by
  have hbits : fromBeBytes (toBeBytes 8 f.toBits.toNat) = f.toBits.toNat := by
    rw [fromBeBytes_toBeBytes]
    exact Nat.mod_eq_of_lt f.toBits.toNat_lt
  show Value.number (Float.ofBits (UInt64.ofNat (fromBeBytes _))) = _
  rw [hbits, UInt64.ofNat_toNat, Float.ofBits_toBits]

theorem length_intBytes (count : Nat) (n : Int) : (intBytes count n).length = count :=
  length_toBeBytes _ _

theorem decodeFixed_intBytes (h : dt.isInteger = true) {n : Int} (hrange : InRange dt n) :
    decodeFixed (intBytes (width dt) n) dt = intValue n := by
  rw [decodeFixed_integer h (length_intBytes _ _), ofBytes_intBytes h hrange]

theorem byteLen_of_integer (h : dt.isInteger = true) : dt.byteLen = some (width dt) := by
  cases dt <;> first | rfl | cases h

end Canonical

/-! ## What the connectors write -/

section Written

variable {dt : DataType} {be : List UInt8}

/-- What the Rust encoder writes is the value it took. -/
theorem Codec.encodeFixed_spec (hbool : dt ≠ .bool) {value : Value}
    (hok : Codec.encodeFixed value dt = .ok be) :
    dt.byteLen = some be.length ∧ Codec.takenValue dt value = some (decodeFixed be dt) := by
  by_cases hint : dt.isInteger = true
  · rw [encodeFixed_integer hint] at hok
    cases hn : integerOf value dt with
    | error e =>
      rw [hn] at hok
      cases hok
    | ok n =>
      rw [hn] at hok
      cases hok
      have htaken : Codec.takenValue dt value = (integerOf value dt).toOption.map intValue := by
        cases dt <;> first | contradiction | rfl
      rw [length_intBytes, byteLen_of_integer hint, htaken, hn,
        decodeFixed_intBytes hint (integerOf_spec hint hn).1]
      exact ⟨rfl, rfl⟩
  · cases dt with
    | float32 =>
      have hok : (number value .float32).map (fun n => toBeBytes 4 (narrow n).toBits.toNat) =
        .ok be := hok
      cases hn : number value .float32 with
      | error e =>
        rw [hn] at hok
        cases hok
      | ok n =>
        rw [hn] at hok
        cases hok
        refine ⟨by rw [length_toBeBytes]; rfl, ?_⟩
        unfold Codec.takenValue
        rw [hn, decodeFixed_float32]
        rfl
    | float64 =>
      have hok : (number value .float64).map (fun n => toBeBytes 8 n.toBits.toNat) = .ok be := hok
      cases hn : number value .float64 with
      | error e =>
        rw [hn] at hok
        cases hok
      | ok n =>
        rw [hn] at hok
        cases hok
        refine ⟨by rw [length_toBeBytes]; rfl, ?_⟩
        unfold Codec.takenValue
        rw [hn, decodeFixed_float64]
        rfl
    | bool => contradiction
    | string => cases hok
    | bytes => cases hok
    | _ => exact absurd rfl hint

/-- So with the C encoder. -/
theorem TdotCodec.encodeFixed_spec (hbool : dt ≠ .bool) (hfixed : dt.byteLen.isSome = true)
    {undefined : TdotCodec.Undefined} {value : TdotValue}
    (hok : TdotCodec.encodeFixed undefined dt value = .ok be) :
    dt.byteLen = some be.length ∧ TdotCodec.takenValue undefined dt value =
      some (Codec.decodeFixed be dt) := by
  by_cases hint : dt.isInteger = true
  · have hencode : TdotCodec.encodeFixed undefined dt value =
        TdotCodec.encodeInteger undefined dt value := by
      cases dt <;> first | contradiction | rfl
    have htaken : TdotCodec.takenValue undefined dt value =
        ((TdotCodec.taken undefined dt value).filter (InRange dt ·)).map intValue := by
      cases dt <;> first | contradiction | rfl
    have hsome := TdotCodec.encodeInteger_toOption hint undefined value
    rw [← hencode, hok] at hsome
    obtain ⟨n, hn, hbe⟩ := Option.map_eq_some_iff.mp hsome.symm
    have hrange : InRange dt n := of_decide_eq_true (Option.filter_eq_some_iff.mp hn).2
    rw [htaken, hn, ← hbe, decodeFixed_intBytes hint hrange, length_intBytes,
      byteLen_of_integer hint]
    exact ⟨rfl, rfl⟩
  · cases dt with
    | float32 =>
      cases value with
      | num n =>
        have hbytes : be = toBeBytes 4 (narrow n).toBits.toNat := by
          have hok : Except.ok ((TdotCodec.beWrite (List.replicate 8 0) 4
            (narrow n).toBits.toUInt64).take 4) = Except.ok be := hok
          rw [← Except.ok.inj hok, TdotCodec.beWrite_eq _ (by decide), UInt32.toNat_toUInt64]
        rw [hbytes, decodeFixed_float32, length_toBeBytes]
        exact ⟨rfl, rfl⟩
      | bool b => cases hok
      | str s => cases hok
    | float64 =>
      cases value with
      | num n =>
        have hbytes : be = toBeBytes 8 n.toBits.toNat := by
          have hok : Except.ok (TdotCodec.beWrite (List.replicate 8 0) 8 n.toBits) =
            Except.ok be := hok
          have hall : (TdotCodec.beWrite (List.replicate 8 0) 8 n.toBits).take 8 =
              TdotCodec.beWrite (List.replicate 8 0) 8 n.toBits := by
            apply List.take_of_length_le
            rw [TdotCodec.length_beWrite, List.length_replicate]
          rw [← Except.ok.inj hok, ← hall, TdotCodec.beWrite_eq _ (by decide)]
        rw [hbytes, decodeFixed_float64, length_toBeBytes]
        exact ⟨rfl, rfl⟩
      | bool b => cases hok
      | str s => cases hok
    | bool => contradiction
    | string => cases hfixed
    | bytes => cases hfixed
    | _ => exact absurd rfl hint

end Written

end TedgeDot
