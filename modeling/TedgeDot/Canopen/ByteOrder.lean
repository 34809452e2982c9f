import TedgeDot.Canopen.Transfer
import TedgeDot.Sdk.Taken

/-!
# The byte order of CANopen values

CANopen is little-endian on the wire. The Rust connector calls the codec with little-endian words in
big-endian order, the C connector with little-endian words in little-endian order.

- `little_iff`: the datatypes that both connectors read and write in little-endian byte order.
-/

namespace TedgeDot.Canopen

open Binary64 Codec

/-! ## Little-endian values -/

/-- The value of bytes of a datatype, the least significant byte first. -/
def littleValue (dt : DataType) (bytes : List UInt8) : Value :=
  match dt with
  | .bool => .bool (bytes.any (· != 0))
  | .float32 => .number (widen (Float32.ofBits (UInt32.ofNat (fromLeBytes bytes))))
  | .float64 => .number (Float.ofBits (UInt64.ofNat (fromLeBytes bytes)))
  | dt =>
    if isSigned dt then intValue (toSigned (8 * width dt) (fromLeBytes bytes))
    else intValue (fromLeBytes bytes)

namespace Rust

/-- `platform_read_points`: the value of what was uploaded, before the transform. -/
def decoded (dt : DataType) (raw : List UInt8) : Except DecodeError Value :=
  decodePrimitive raw dt .little .big

/-- `platform_execute`: the bytes that a typed write downloads. -/
def encoded (dt : DataType) (value : Value) : Except DecodeError (List UInt8) :=
  encodePrimitive value dt .little .big

/-- The connector reads and writes a datatype in little-endian byte order, and reads back what it
wrote. -/
structure Little (dt : DataType) : Prop where
  read : ∀ raw, dt.byteLen = some raw.length → decoded dt raw = .ok (littleValue dt raw)
  written : ∀ value bytes, encoded dt value = .ok bytes →
    dt.byteLen = some bytes.length ∧ ∃ v, Codec.takenValue dt value = some v ∧
      littleValue dt bytes = v ∧
      decoded dt bytes = .ok v

end Rust

namespace C

/-- A point of the datatype, without a transform. -/
def point (index : UInt16) (subindex : UInt8) (dt : DataType) : Point :=
  { index, subindex, datatype := some dt, transform := none }

/-- The connector reads and writes a datatype in little-endian byte order, and reads back what it
wrote. -/
structure Little (dt : DataType) : Prop where
  read : ∀ index subindex data, dt.byteLen = some data.length →
    ∃ c, decodePoint (point index subindex dt) data = .ok (some c) ∧
      TdotCodec.Same (littleValue dt data) c
  written : ∀ undefined index subindex value req,
    writeRequest undefined (point index subindex dt) value = .ok req →
    ∃ bytes, sdoDownloadRequest index subindex bytes = some req ∧ dt.byteLen = some bytes.length ∧
      ∃ v c, TdotCodec.takenValue undefined dt value = some v ∧ littleValue dt bytes = v ∧
        decodePoint (point index subindex dt) bytes = .ok (some c) ∧ TdotCodec.Same v c

end C

/-- Both connectors have a datatype in little-endian byte order, so that their calls of the codec
mean the same. -/
structure Little (dt : DataType) : Prop where
  rust : Rust.Little dt
  c : C.Little dt
  alike : ∀ index subindex raw, dt.byteLen = some raw.length →
    ∃ v c, Rust.decoded dt raw = .ok v ∧
      decodePoint (C.point index subindex dt) raw = .ok (some c) ∧ TdotCodec.Same v c

/-! ## The canonical bytes -/

section Canonical

variable {dt : DataType} {be : List UInt8}

/-- Little-endian bytes are big-endian ones in reverse. -/
theorem littleValue_eq (hbool : dt ≠ .bool) (hlen : dt.byteLen = some be.length) :
    littleValue dt be.reverse = decodeFixed be dt := by
  have hle : fromLeBytes be.reverse = fromBeBytes be := by
    rw [fromLeBytes, List.reverse_reverse]
  by_cases hint : dt.isInteger = true
  · have hwidth : be.length = width dt := by rw [width, hlen, Option.getD_some]
    have hvalue : littleValue dt be.reverse = intValue (ofBytes dt be) := by
      unfold ofBytes
      rw [← hle]
      cases dt <;> first | contradiction | rfl
    rw [hvalue, decodeFixed_integer hint hwidth]
  · cases dt with
    | float32 =>
      show Value.number (widen (Float32.ofBits (UInt32.ofNat (fromLeBytes be.reverse)))) = _
      rw [hle]
      rfl
    | float64 =>
      show Value.number (Float.ofBits (UInt64.ofNat (fromLeBytes be.reverse))) = _
      rw [hle]
      rfl
    | bool => contradiction
    | string => cases hlen
    | bytes => cases hlen
    | _ => exact absurd rfl hint

end Canonical

/-! ## The byte order on the wire -/

section Wire

variable {dt : DataType}

theorem reorder_little {be : List UInt8} (h : Whole be) :
    Codec.reorder be .little .little = be.reverse := by
  rcases h.cases with ⟨a, rfl⟩ | ⟨a, b, rfl⟩ | ⟨a, b, c, d, rfl⟩ | ⟨a, b, c, d, i, j, k, l, rfl⟩ <;>
    rfl

theorem reorder_word {be : List UInt8} (hlen : dt.byteLen = some be.length) (h : width dt ≤ 2) :
    Codec.reorder be .little .big = be.reverse := by
  have hwidth : be.length = width dt := by rw [width, hlen, Option.getD_some]
  rcases (whole_of_byteLen hlen).cases with
    ⟨a, rfl⟩ | ⟨a, b, rfl⟩ | ⟨a, b, c, d, rfl⟩ | ⟨a, b, c, d, i, j, k, l, rfl⟩
  · rfl
  · rfl
  · exact absurd hwidth (by simp only [List.length_cons, List.length_nil]; omega)
  · exact absurd hwidth (by simp only [List.length_cons, List.length_nil]; omega)

theorem decodePrimitive_little {e : Endianness} {w : WordOrder} {raw : List UInt8}
    (hlen : dt.byteLen = some raw.length) (hturn : Codec.reorder raw e w = raw.reverse) :
    decodePrimitive raw dt e w = .ok (littleValue dt raw) := by
  by_cases hbool : dt = .bool
  · subst hbool
    rfl
  · have hlen' : dt.byteLen = some raw.reverse.length := by rw [List.length_reverse, hlen]
    rw [decodePrimitive_fixed hbool hlen, hturn, ← littleValue_eq hbool hlen', List.reverse_reverse]

/-- **Rust** has the datatypes of a single word in little-endian byte order. -/
theorem Rust.little_of_width (hfixed : dt.byteLen.isSome = true) (h : width dt ≤ 2) :
    Rust.Little dt := by
  constructor
  · intro raw hlen
    exact decodePrimitive_little hlen (reorder_word hlen h)
  · intro value bytes hok
    unfold Rust.encoded at hok
    by_cases hbool : dt = .bool
    · subst hbool
      cases hok
      refine ⟨rfl, .bool (truthy value), rfl, ?_, ?_⟩
      · cases hb : truthy value <;> simp [littleValue]
      · cases hb : truthy value <;> simp [Rust.decoded, decodePrimitive]
    · rw [encodePrimitive_fixed hbool hfixed] at hok
      cases hbe : Codec.encodeFixed value dt with
      | error e =>
        rw [hbe] at hok
        cases hok
      | ok be =>
        rw [hbe] at hok
        obtain ⟨hlen, htaken⟩ := Codec.encodeFixed_spec hbool hbe
        have hlen' : dt.byteLen = some be.reverse.length := by rw [List.length_reverse, hlen]
        have hbytes : Codec.reorder be .little .big = bytes := Except.ok.inj hok
        obtain rfl : be.reverse = bytes := (reorder_word hlen h).symm.trans hbytes
        refine ⟨hlen', _, htaken, littleValue_eq hbool hlen, ?_⟩
        rw [Rust.decoded, decodePrimitive_little hlen' (reorder_word hlen' h),
          littleValue_eq hbool hlen]

/-- The C connector reads fixed-width data little-endian. -/
theorem C.decodePoint_little (index : UInt16) (subindex : UInt8) {data : List UInt8}
    (hlen : dt.byteLen = some data.length) :
    ∃ c, decodePoint (C.point index subindex dt) data = .ok (some c) ∧
      TdotCodec.Same (littleValue dt data) c := by
  have hshort : dt = .string → data.length < TdotCodec.STR_SIZE := by
    rintro rfl
    cases hlen
  have hsame : TdotCodec.SameResult (decodePrimitive data dt .little .little)
      (TdotCodec.decode dt data .little .little) := by
    apply (TdotCodec.decode_agree_iff hshort).mpr
    constructor
    · rintro ⟨rfl, rfl⟩
      cases hlen
    · rintro rfl
      cases hlen
  rw [decodePrimitive_little hlen (reorder_little (whole_of_byteLen hlen))] at hsame
  cases hc : TdotCodec.decode dt data .little .little with
  | error e =>
    rw [hc] at hsame
    exact hsame.elim
  | ok c =>
    rw [hc] at hsame
    refine ⟨c, ?_, hsame⟩
    unfold decodePoint C.point
    simp only [hc]
    cases c <;> rfl

/-- **C**: the bytes of a typed write, and the request that carries them. -/
theorem C.writeRequest_spec {undefined : TdotCodec.Undefined} {index : UInt16} {subindex : UInt8}
    {value : TdotValue} {req : List UInt8}
    (hreq : writeRequest undefined (C.point index subindex dt) value = .ok req) :
    ∃ bytes, TdotCodec.encode undefined dt value .little .little 16 = .ok bytes ∧
      sdoDownloadRequest index subindex bytes = some req := by
  unfold writeRequest C.point at hreq
  obtain ⟨bytes, hbytes, hreq⟩ := bind_ok hreq
  refine ⟨bytes, hbytes, ?_⟩
  cases hsdo : sdoDownloadRequest index subindex bytes with
  | none =>
    simp only [hsdo] at hreq
    cases hreq
  | some req' =>
    simp only [hsdo] at hreq
    rw [Except.ok.inj hreq]

/-- **C**: the canonical bytes of a value are the little-endian ones of the value it is taken for,
turned around. -/
theorem C.taken_little (hfixed : dt.byteLen.isSome = true) {undefined : TdotCodec.Undefined}
    {value : TdotValue} {be : List UInt8}
    (hbe : TdotCodec.encodeFixed undefined dt value = .ok be) :
    dt.byteLen = some be.length ∧ TdotCodec.takenValue undefined dt value =
      some (littleValue dt be.reverse) := by
  by_cases hbool : dt = .bool
  · subst hbool
    cases value with
    | bool b =>
      cases hbe
      refine ⟨rfl, ?_⟩
      cases b <;> simp [TdotCodec.takenValue, littleValue]
    | num n =>
      cases hbe
      refine ⟨rfl, ?_⟩
      cases hb : n != ofInt 0 <;> simp [TdotCodec.takenValue, littleValue, hb]
    | str s => cases hbe
  · obtain ⟨hlen, htaken⟩ := TdotCodec.encodeFixed_spec hbool hfixed hbe
    exact ⟨hlen, by rw [htaken, littleValue_eq hbool hlen]⟩

/-- And writes it so. -/
theorem C.little (hfixed : dt.byteLen.isSome = true) : C.Little dt := by
  constructor
  · intro index subindex data hlen
    exact C.decodePoint_little index subindex hlen
  · intro undefined index subindex value req hreq
    obtain ⟨bytes, hbytes, hdownload⟩ := C.writeRequest_spec hreq
    have hstring : dt ≠ .string := by
      rintro rfl
      cases hfixed
    have hraw : dt ≠ .bytes := by
      rintro rfl
      cases hfixed
    rw [TdotCodec.encode_fixed hstring hraw (by decide)] at hbytes
    cases hbe : TdotCodec.encodeFixed undefined dt value with
    | error e =>
      rw [hbe] at hbytes
      cases hbytes
    | ok be =>
      rw [hbe] at hbytes
      have hbytes : TdotCodec.reorder be .little .little = bytes := Except.ok.inj hbytes
      obtain ⟨hlen, htaken⟩ := C.taken_little hfixed hbe
      have hwhole : Whole be := whole_of_byteLen hlen
      have hturn : bytes = be.reverse := by
        rw [← hbytes, TdotCodec.reorder_eq hwhole, reorder_little hwhole]
      rw [← hturn] at htaken
      have hlen' : dt.byteLen = some bytes.length := by rw [hturn, List.length_reverse, hlen]
      obtain ⟨c, hc, hsame⟩ := C.decodePoint_little index subindex hlen'
      exact ⟨bytes, hdownload, hlen', _, c, htaken, rfl, hc, hsame⟩

def numberBits : Value → Option UInt64
  | .number n => some n.toBits
  | _ => none

/-- **Rust** does not have the wider datatypes in little-endian byte order: their words change
places. -/
theorem Rust.not_little (hfixed : dt.byteLen.isSome = true) (h : 2 < width dt) :
    ¬ Rust.Little dt := by
  intro hlittle
  have hread : ∀ raw, dt.byteLen = some raw.length →
      numberBits (decodeFixed (Codec.reorder raw .little .big) dt) =
        numberBits (littleValue dt raw) := by
    intro raw hlen
    have hbool : dt ≠ .bool := by
      rintro rfl
      exact absurd h (by decide)
    have hok := hlittle.read raw hlen
    rw [Rust.decoded, decodePrimitive_fixed hbool hlen] at hok
    rw [Except.ok.inj hok]
  have hfour := hread [1, 0, 0, 0]
  have height := hread [1, 0, 0, 0, 0, 0, 0, 0]
  cases dt with
  | int32 | uint32 | float32 => exact absurd (hfour rfl) (by decide +kernel)
  | int64 | uint64 | float64 => exact absurd (height rfl) (by decide +kernel)
  | bool | int8 | uint8 | int16 | uint16 => exact absurd h (by decide)
  | string | bytes => cases hfixed

end Wire

/-- **Byte order**: both connectors have a datatype of a fixed length in little-endian byte order
exactly when it has at most two bytes. The C connector always has. -/
theorem little_iff (dt : DataType) (hfixed : dt.byteLen.isSome = true) :
    C.Little dt ∧ (Little dt ↔ width dt ≤ 2) := by
  refine ⟨C.little hfixed, ?_⟩
  constructor
  · intro h
    by_contra hwide
    exact Rust.not_little hfixed (Nat.not_le.mp hwide) h.rust
  · intro h
    have hrust := Rust.little_of_width hfixed h
    refine ⟨hrust, C.little hfixed, ?_⟩
    intro index subindex raw hlen
    obtain ⟨c, hc, hsame⟩ := C.decodePoint_little index subindex hlen
    exact ⟨_, c, hrust.read raw hlen, hc, hsame⟩

/-- A type of one word. -/
theorem little_iff_int16 : C.Little .int16 ∧ (Little .int16 ↔ width .int16 ≤ 2) :=
  little_iff .int16 (by decide)

/-- The bytes of a 32-bit one are read as 65536. -/
theorem uint32_not_little : ¬ ∀ dt : DataType, dt.byteLen.isSome = true → Little dt := by
  intro h
  have hok := (h .uint32 rfl).rust.read [1, 0, 0, 0] rfl
  have hread : Rust.decoded .uint32 [1, 0, 0, 0] = .ok (.number (ofInt 65536)) := by
    decide +kernel
  have hbits := congrArg numberBits (Except.ok.inj (hread.symm.trans hok))
  revert hbits
  decide +kernel

end TedgeDot.Canopen
