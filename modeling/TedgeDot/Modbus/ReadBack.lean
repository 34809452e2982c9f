import TedgeDot.Modbus.Registers

/-!
# Reading back a register write

A typed write of a point without a bit-field writes as many registers as its encoded value fills; a
read of the point reads as many as its count or its datatype gives.

- `reads_back_iff`: the points at which both are the same registers, with the value in them.
-/

namespace TedgeDot.Modbus

open Codec Binary64

/-- The value that a write writes: a text as it is, else the value of the datatype that the encoder
takes the value for. -/
def written (dt : DataType) (value : Value) : Option Value :=
  match dt, value with
  | .string, .text t => some (.text t)
  | .string, _ => none
  | dt, value => takenValue dt value

def Point.Plain (pt : Point) : Prop := pt.startBit = none ∨ pt.bitCount = none

/-- The registers that a value of a datatype of a fixed length fills. -/
def filled (dt : DataType) : Nat := (width dt + 1) / 2

namespace Rust

/-- A write that succeeds changes registers of the point only, and a read right after it gives the
value written. -/
def ReadsBack (pt : Point) : Prop :=
  ∀ regs value regs', writePoint regs pt value = some (.ok regs') →
    (∀ a, a < pt.address.toNat ∨ pt.address.toNat + registerCount pt ≤ a → regs' a = regs a) ∧
      ∃ v, written pt.datatype value = some v ∧ readOne regs' pt = some (.ok v)

/-- The registers that a read reads are those that a value fills, or every write is refused. -/
def Fitting (pt : Point) : Prop :=
  pt.datatype = .bytes ∨
  pt.datatype.byteLen.isSome = true ∧ 65536 < pt.address.toNat + filled pt.datatype ∨
  pt.datatype = .bool ∧ registerCount pt = 1 ∨
  2 ≤ width pt.datatype ∧ 2 * registerCount pt = width pt.datatype

/-! ## One write and one read -/

section Point

variable {pt : Point} {regs regs' : Registers} {value : Value}

theorem writePoint_plain (hplain : pt.Plain) : writePoint regs pt value =
    match encodePrimitive value pt.datatype pt.endianness pt.wordOrder with
    | .ok bytes => some (writeAll regs pt.address (bytesToRegisters bytes))
    | .error e => some (.error (.decode e)) := by
  unfold writePoint
  rcases hplain with h | h
  · exact h ▸ rfl
  · rw [h]
    cases pt.startBit <;> rfl

theorem readOne_plain (hplain : pt.Plain) : readOne regs pt =
    match readRegisters regs pt.address (registerCount pt) with
    | none => some (.error .transport)
    | some regs =>
      match decodePrimitive (registerBytes regs) pt.datatype pt.endianness pt.wordOrder with
      | .ok v => some (.ok v)
      | .error e => some (.error (.decode e)) := by
  unfold readOne
  rcases hplain with h | h
  · exact h ▸ rfl
  · rw [h]
    cases pt.startBit <;> rfl

theorem writePoint_ok (hplain : pt.Plain) : writePoint regs pt value = some (.ok regs') ↔
    ∃ bytes, encodePrimitive value pt.datatype pt.endianness pt.wordOrder = .ok bytes ∧
      writeRegisters regs pt.address (bytesToRegisters bytes) = some regs' := by
  rw [writePoint_plain hplain]
  cases encodePrimitive value pt.datatype pt.endianness pt.wordOrder with
  | error e => simp
  | ok bytes =>
    simp only [Option.some.injEq, Except.ok.injEq, exists_eq_left', writeAll]
    cases writeRegisters regs pt.address (bytesToRegisters bytes) <;> simp

theorem readOne_ok (hplain : pt.Plain) {v : Value} : readOne regs pt = some (.ok v) ↔
    ∃ read, readRegisters regs pt.address (registerCount pt) = some read ∧
      decodePrimitive (registerBytes read) pt.datatype pt.endianness pt.wordOrder = .ok v := by
  rw [readOne_plain hplain]
  cases readRegisters regs pt.address (registerCount pt) with
  | none => simp
  | some read =>
    simp only [Option.some.injEq, exists_eq_left']
    cases decodePrimitive (registerBytes read) pt.datatype pt.endianness pt.wordOrder <;> simp

end Point

theorem readRegisters_spec {regs : Registers} {address : UInt16} {count : Nat} {read : List UInt16}
    (h : readRegisters regs address count = some read) :
    InTable address count ∧ read.length = count ∧
      ∀ i (hi : i < read.length), read[i] = regs (address.toNat + i) := by
  unfold readRegisters at h
  split at h
  · rename_i hin
    obtain rfl := Option.some.inj h
    refine ⟨hin.1, by rw [List.length_map, List.length_range], ?_⟩
    intro i hi
    rw [List.getElem_map, List.getElem_range]
  · cases h

theorem exists_written {regs : Registers} {address : UInt16} {values : List UInt16}
    (hin : InTable address values.length) (hmax : values.length ≤ MAX_WRITE_REGISTERS) :
    ∃ regs', writeRegisters regs address values = some regs' := by
  unfold writeRegisters
  rw [if_pos ⟨hin, hmax⟩]
  exact ⟨_, rfl⟩

theorem inTable_one (address : UInt16) : InTable address 1 := by
  have hlt := address.toNat_lt
  exact ⟨Nat.le_refl 1, by omega⟩

/-! ## Values of a fixed length -/

section Fixed

variable {dt : DataType} {e : Endianness} {w : WordOrder} {bytes : List UInt8} {value : Value}

theorem encoded_fixed (hfixed : dt.byteLen.isSome = true) (hbool : dt ≠ .bool)
    (hok : encodePrimitive value dt e w = .ok bytes) :
    bytes.length = width dt ∧ ∃ v, written dt value = some v ∧
      decodePrimitive bytes dt e w = .ok v := by
  rw [encodePrimitive_fixed hbool hfixed] at hok
  cases hbe : Codec.encodeFixed value dt with
  | error err =>
    rw [hbe] at hok
    cases hok
  | ok be =>
    rw [hbe] at hok
    obtain rfl : reorder be e w = bytes := Except.ok.inj hok
    obtain ⟨hlen, htaken⟩ := Codec.encodeFixed_spec hbool hbe
    have hlen' : dt.byteLen = some (reorder be e w).length := by rw [length_reorder, hlen]
    have hwritten : written dt value = takenValue dt value := by
      unfold written
      cases dt <;> first | rfl | cases hfixed
    refine ⟨by rw [width, hlen', Option.getD_some], _, hwritten.trans htaken, ?_⟩
    rw [decodePrimitive_fixed hbool hlen', reorder_reorder (whole_of_byteLen hlen)]

/-- Every fixed-width type encodes zero, at its width. -/
theorem exists_encoded (hfixed : dt.byteLen.isSome = true) (e : Endianness) (w : WordOrder) :
    ∃ bytes, encodePrimitive (.number (ofInt 0)) dt e w = .ok bytes ∧
      bytes.length = width dt := by
  by_cases hbool : dt = .bool
  · subst hbool
    exact ⟨_, rfl, rfl⟩
  · have hok : ∃ be, Codec.encodeFixed (.number (ofInt 0)) dt = .ok be := by
      by_cases hint : dt.isInteger = true
      · have hrange : InRange dt 0 := by
          unfold InRange
          cases dt <;> decide
        have hzero : integerOf (.number (ofInt 0)) dt = .ok 0 :=
          (TdotCodec.integerOf_number hint).mpr ⟨stands_ofInt (by decide) (by decide), hrange⟩
        rw [encodeFixed_integer hint, hzero]
        exact ⟨_, rfl⟩
      · cases dt with
        | float32 | float64 => exact ⟨_, rfl⟩
        | bool => contradiction
        | string | bytes => cases hfixed
        | int8 | uint8 | int16 | uint16 | int32 | uint32 | int64 | uint64 => exact absurd rfl hint
    obtain ⟨be, hbe⟩ := hok
    have hbytes : encodePrimitive (.number (ofInt 0)) dt e w = .ok (reorder be e w) := by
      rw [encodePrimitive_fixed hbool hfixed, hbe]
      rfl
    exact ⟨_, hbytes, (encoded_fixed hfixed hbool hbytes).1⟩

theorem decoded_length {regs : List UInt16} (hfixed : dt.byteLen.isSome = true) (hbool : dt ≠ .bool)
    {v : Value} (hok : decodePrimitive (registerBytes regs) dt e w = .ok v) :
    2 * regs.length = width dt := by
  have hbytes : dt ≠ .bytes := by
    rintro rfl
    cases hfixed
  have hstring : dt ≠ .string := by
    rintro rfl
    cases hfixed
  unfold decodePrimitive at hok
  rw [if_neg hbytes, if_neg hbool, if_neg hstring] at hok
  by_contra hne
  have hlen : (registerBytes regs).length ≠ dt.byteLen.getD 0 := by
    rw [length_registerBytes]
    exact hne
  simp only [if_pos hlen, reduceCtorEq] at hok

end Fixed

/-! ## The points that read back -/

section ReadsBack

variable {pt : Point}

theorem readsBack_bytes (hplain : pt.Plain) (hdt : pt.datatype = .bytes) : ReadsBack pt := by
  intro regs value regs' hok
  obtain ⟨bytes, hbytes, -⟩ := (writePoint_ok hplain).mp hok
  rw [hdt] at hbytes
  cases hbytes

theorem length_of_encoded {dt : DataType} {e : Endianness} {w : WordOrder} {bytes : List UInt8}
    {value : Value} (hfixed : dt.byteLen.isSome = true)
    (hok : encodePrimitive value dt e w = .ok bytes) : bytes.length = width dt := by
  by_cases hbool : dt = .bool
  · subst hbool
    cases hok
    rfl
  · exact (encoded_fixed hfixed hbool hok).1

theorem readsBack_beyond (hplain : pt.Plain) (hfixed : pt.datatype.byteLen.isSome = true)
    (hbeyond : 65536 < pt.address.toNat + filled pt.datatype) : ReadsBack pt := by
  intro regs value regs' hok
  obtain ⟨bytes, hbytes, hregs⟩ := (writePoint_ok hplain).mp hok
  have hin := (writeRegisters_eq_some hregs).1
  unfold InTable at hin
  unfold filled at hbeyond
  rw [length_bytesToRegisters, length_of_encoded hfixed hbytes] at hin
  omega

theorem readsBack_bool (hplain : pt.Plain) (hdt : pt.datatype = .bool)
    (hcount : registerCount pt = 1) : ReadsBack pt := by
  intro regs value regs' hok
  obtain ⟨bytes, hbytes, hregs⟩ := (writePoint_ok hplain).mp hok
  rw [hdt] at hbytes
  obtain rfl : [if truthy value then 1 else 0] = bytes := Except.ok.inj hbytes
  have hspec := writeRegisters_eq_some hregs
  have hread := read_written hregs (show 1 ≤ MAX_READ_REGISTERS by decide)
  refine ⟨fun a ha => hspec.2.2 a ?_, .bool (truthy value), ?_, ?_⟩
  · rw [hcount] at ha
    exact ha
  · rw [hdt]
    rfl
  · apply (readOne_ok hplain).mpr
    rw [hcount, hdt]
    refine ⟨_, hread, ?_⟩
    cases truthy value <;> rfl

/-- Points of whole registers read back what was written. -/
theorem readsBack_whole (hplain : pt.Plain) (hwide : 2 ≤ width pt.datatype)
    (hcount : 2 * registerCount pt = width pt.datatype) : ReadsBack pt := by
  have hfixed : pt.datatype.byteLen.isSome = true := by
    unfold width at hwide
    cases h : pt.datatype.byteLen with
    | some n => rfl
    | none =>
      rw [h] at hwide
      exact absurd hwide (by decide)
  have hbool : pt.datatype ≠ .bool := by
    intro h
    rw [h] at hwide
    exact absurd hwide (by decide)
  have hsmall : width pt.datatype ≤ 8 := by
    cases pt.datatype <;> decide
  intro regs value regs' hok
  obtain ⟨bytes, hbytes, hregs⟩ := (writePoint_ok hplain).mp hok
  obtain ⟨hlen, v, hv, hdecoded⟩ := encoded_fixed hfixed hbool hbytes
  have hregisters : (bytesToRegisters bytes).length = registerCount pt := by
    rw [length_bytesToRegisters, hlen]
    omega
  have hspec := writeRegisters_eq_some hregs
  -- the registers just written are read, and no others
  have hread := read_written hregs (by
    rw [hregisters, MAX_READ_REGISTERS]
    omega)
  refine ⟨fun a ha => hspec.2.2 a ?_, v, hv, ?_⟩
  · rw [hregisters]
    exact ha
  · apply (readOne_ok hplain).mpr
    rw [← hregisters]
    refine ⟨_, hread, ?_⟩
    rw [registerBytes_bytesToRegisters (by omega), hdecoded]

/-! ## The points that do not -/

theorem exists_write (hplain : pt.Plain) (hfixed : pt.datatype.byteLen.isSome = true)
    (hin : pt.address.toNat + filled pt.datatype ≤ 65536) (regs : Registers) :
    ∃ regs', writePoint regs pt (.number (ofInt 0)) = some (.ok regs') := by
  obtain ⟨bytes, hbytes, hlen⟩ := exists_encoded hfixed pt.endianness pt.wordOrder
  have hwidth : 1 ≤ width pt.datatype ∧ width pt.datatype ≤ 8 := by
    revert hfixed
    cases pt.datatype <;> decide
  have hregisters : (bytesToRegisters bytes).length = filled pt.datatype := by
    rw [length_bytesToRegisters, hlen, filled]
  unfold filled at hregisters hin
  have htable : InTable pt.address (bytesToRegisters bytes).length := by
    rw [hregisters]
    exact ⟨by omega, hin⟩
  obtain ⟨regs', hregs⟩ := @exists_written regs _ _ htable (by
    rw [hregisters, MAX_WRITE_REGISTERS]
    omega)
  exact ⟨regs', (writePoint_ok hplain).mpr ⟨bytes, hbytes, hregs⟩⟩

theorem fitting_fixed (hplain : pt.Plain) (hfixed : pt.datatype.byteLen.isSome = true)
    (hbool : pt.datatype ≠ .bool) (h : ReadsBack pt) : Fitting pt := by
  by_cases hin : pt.address.toNat + filled pt.datatype ≤ 65536
  · obtain ⟨regs', hok⟩ := exists_write hplain hfixed hin fun _ => 0
    obtain ⟨-, v, -, hread⟩ := h _ _ _ hok
    obtain ⟨read, hregs, hdecoded⟩ := (readOne_ok hplain).mp hread
    have hlength := (readRegisters_spec hregs).2.1
    have hwidth := decoded_length hfixed hbool hdecoded
    rw [hlength] at hwidth
    have hone := (readRegisters_spec hregs).1.1
    exact .inr (.inr (.inr ⟨by omega, hwidth⟩))
  · exact .inr (.inl ⟨hfixed, Nat.not_le.mp hin⟩)

/-- A bool reads back only over one register. -/
theorem fitting_bool (hplain : pt.Plain) (hdt : pt.datatype = .bool) (h : ReadsBack pt) :
    Fitting pt := by
  -- what the registers after the first hold is left, and read
  have hlt := pt.address.toNat_lt
  obtain ⟨regs', hok⟩ := exists_write hplain (by rw [hdt]; rfl)
    (by rw [hdt]; show pt.address.toNat + 1 ≤ 65536; omega) fun _ => 0xFFFF
  obtain ⟨-, v, hv, hread⟩ := h _ _ _ hok
  obtain ⟨read, hregs, hdecoded⟩ := (readOne_ok hplain).mp hread
  obtain ⟨bytes, hbytes, hwritten⟩ := (writePoint_ok hplain).mp hok
  obtain ⟨hin, hlength, hvalues⟩ := readRegisters_spec hregs
  rw [hdt] at hv hdecoded hbytes
  have hlen : (bytesToRegisters bytes).length = 1 := by
    rw [length_bytesToRegisters, length_of_encoded rfl hbytes]
    rfl
  have hfalse : v = .bool false := (Option.some.inj hv).symm
  have hany : Value.bool ((registerBytes read).any (· != 0)) = v := Except.ok.inj hdecoded
  rw [hfalse, Value.bool.injEq] at hany
  by_cases hone : registerCount pt = 1
  · exact .inr (.inr (.inl ⟨hdt, hone⟩))
  · have htwo : 1 < read.length := by
      have hpos := hin.1
      omega
    have hkept : read[1] = 0xFFFF := by
      rw [hvalues 1 htwo, (writeRegisters_eq_some hwritten).2.2 _ (.inr (by omega))]
    have hmem : (0xFF : UInt8) ∈ registerBytes read := by
      apply List.mem_flatMap.mpr
      refine ⟨read[1], List.getElem_mem htwo, ?_⟩
      rw [hkept]
      decide
    have := List.any_eq_false.mp hany _ hmem
    exact absurd this (by decide)

/-- A text does not: one byte is padded to a register. -/
theorem not_readsBack_string (hplain : pt.Plain) (hdt : pt.datatype = .string) :
    ¬ ReadsBack pt := by
  intro h
  let t : String := String.ofList [Char.ofNat 0]
  have hbytes : encodePrimitive (.text t) pt.datatype pt.endianness pt.wordOrder = .ok [0] := by
    have hencoded : Utf8.encode t = [0] := by decide
    rw [hdt]
    show Except.ok (Utf8.encode t) = _
    rw [hencoded]
  have hin : InTable pt.address (bytesToRegisters [0]).length := inTable_one _
  obtain ⟨regs', hregs⟩ := @exists_written (fun _ => 0) _ _ hin (by decide)
  have hok := (writePoint_ok hplain).mpr ⟨_, hbytes, hregs⟩
  obtain ⟨-, v, hv, hread⟩ := h _ _ _ hok
  obtain ⟨read, hread, hdecoded⟩ := (readOne_ok hplain).mp hread
  obtain ⟨hin, hlength, hvalues⟩ := readRegisters_spec hread
  have hpos : 0 < read.length := by
    have hone := hin.1
    omega
  have hhead : read[0] = 0 := by
    rw [hvalues 0 hpos, (writeRegisters_eq_some hregs).2.1 0 (by decide)]
    rfl
  obtain ⟨r, rest, rfl⟩ := List.exists_cons_of_length_pos hpos
  -- the register has two bytes, so the text comes back longer
  have hzero : registerBytes (r :: rest) = 0 :: 0 :: registerBytes rest := by
    rw [List.getElem_cons_zero] at hhead
    rw [hhead]
    rfl
  rw [hdt] at hv hdecoded
  rw [hzero] at hdecoded
  have hempty : v = .text (Utf8.fromUtf8Lossy []) := (Except.ok.inj hdecoded).symm
  have htext : v = .text t := (Option.some.inj hv).symm
  have heq := htext.symm.trans hempty
  rw [Value.text.injEq] at heq
  exact absurd heq (by decide)

end ReadsBack

end Rust

/-- **Reading back**: a typed write of a point that is no bit-field changes the point's registers only
and reads back, whatever the registers held, exactly where the point's count is the number of
registers that its datatype fills, of a datatype of two bytes or more or `bool`, and where every
write is refused. -/
theorem reads_back_iff (pt : Point) (hplain : pt.Plain) : Rust.ReadsBack pt ↔ Rust.Fitting pt := by
  constructor
  · intro h
    by_cases hbytes : pt.datatype = .bytes
    · exact .inl hbytes
    · by_cases hstring : pt.datatype = .string
      · exact absurd h (Rust.not_readsBack_string hplain hstring)
      · by_cases hbool : pt.datatype = .bool
        · exact Rust.fitting_bool hplain hbool h
        · have hfixed : pt.datatype.byteLen.isSome = true := by
            cases hdt : pt.datatype <;> first | rfl | contradiction
          exact Rust.fitting_fixed hplain hfixed hbool h
  · rintro (hbytes | ⟨hfixed, hbeyond⟩ | ⟨hbool, hcount⟩ | ⟨hwide, hcount⟩)
    · exact Rust.readsBack_bytes hplain hbytes
    · exact Rust.readsBack_beyond hplain hfixed hbeyond
    · exact Rust.readsBack_bool hplain hbool hcount
    · exact Rust.readsBack_whole hplain hwide hcount

/-- Two registers of a `uint32`. -/
theorem reads_back_iff_uint32 :
    Rust.ReadsBack ⟨40, none, none, none, .uint32, .big, .big⟩ ↔
      Rust.Fitting ⟨40, none, none, none, .uint32, .big, .big⟩ :=
  reads_back_iff _ (.inl rfl)

/-- A `uint8` is written to the high byte of a register, of which both bytes are then read. -/
theorem uint8_not_read_back : ¬ ∀ pt : Point, pt.Plain → Rust.ReadsBack pt := by
  intro h
  let pt : Point := ⟨40, none, none, none, .uint8, .big, .big⟩
  obtain ⟨-, v, -, hread⟩ := h pt (.inl rfl) (fun _ => 0) (.number (ofInt 5))
    (fun a => if 40 ≤ a then ([(0x500 : UInt16)][a - 40]?).getD 0 else 0) (by
      have hbytes : encodePrimitive (.number (ofInt 5)) .uint8 .big .big = .ok [5] := by
        decide +kernel
      show (match encodePrimitive (.number (ofInt 5)) .uint8 .big .big with
        | .ok bytes => some (Rust.writeAll (fun _ => 0) 40 (bytesToRegisters bytes))
        | .error e => some (.error (.decode e))) = _
      rw [hbytes]
      rfl)
  have hlength : Rust.readOne (fun a => if 40 ≤ a then ([(0x500 : UInt16)][a - 40]?).getD 0 else 0)
      pt = some (.error (.decode (.length .uint8 1 2))) := by
    decide
  rw [hlength] at hread
  cases hread

end TedgeDot.Modbus
