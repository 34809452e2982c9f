import TedgeDot.Lib.Bytes
import TedgeDot.Lib.Numeral
import TedgeDot.Lib.Utf8
import TedgeDot.Sdk.Decode

/-!
# Primitive decoding and encoding

`decode.rs`: how the bytes of a read become a value of the point's datatype, and a value the bytes
of a write. Both go through the canonical big-endian bytes, which `reorder` makes of the bytes on
the wire and back.
-/

namespace TedgeDot

open Binary64

/-- Byte order within a 16-bit word. -/
inductive Endianness where
  | big
  | little
deriving DecidableEq

/-- Order of the 16-bit words of a wider value. -/
inductive WordOrder where
  | big
  | little
deriving DecidableEq

inductive DecodeError where
  /-- `expected {expected} bytes for {datatype:?}, got {actual}` -/
  | length (datatype : DataType) (expected actual : Nat)
  /-- `datatype {0:?} has no decoded value (raw only)` -/
  | noValue (datatype : DataType)
  /-- `invalid value for datatype {0:?}` -/
  | invalidValue (datatype : DataType)
  /-- `value out of range for datatype {0:?}` -/
  | outOfRange (datatype : DataType)
deriving DecidableEq

namespace DataType

def byteLen : DataType → Option Nat
  | .bool | .int8 | .uint8 => some 1
  | .int16 | .uint16 => some 2
  | .int32 | .uint32 | .float32 => some 4
  | .int64 | .uint64 | .float64 => some 8
  | .string | .bytes => none

def isInteger : DataType → Bool
  | .int8 | .uint8 | .int16 | .uint16 | .int32 | .uint32 | .int64 | .uint64 => true
  | _ => false

end DataType

namespace Codec

/-! ## Byte order -/

/-- `bytes.chunks(2)`. -/
def chunks : List UInt8 → List (List UInt8)
  | a :: b :: rest => [a, b] :: chunks rest
  | [a] => [[a]]
  | [] => []

def swapWord (endianness : Endianness) : List UInt8 → List UInt8
  | [a, b] => if endianness = .little then [b, a] else [a, b]
  | word => word

def reorder (bytes : List UInt8) (endianness : Endianness) (wordOrder : WordOrder) : List UInt8 :=
  let words := if wordOrder = .little then (chunks bytes).reverse else chunks bytes
  words.flatMap (swapWord endianness)

/-! ## Decoding -/

/-- The signed integer of `bits` bits, in two's complement. -/
def toSigned (bits n : Nat) : Int := (BitVec.ofNat bits n).toInt

/-- The value of canonical bytes of a datatype of a fixed length. -/
def decodeFixed (be : List UInt8) : DataType → Value
  | .int8 => .number (ofInt (toSigned 8 (fromBeBytes be)))
  | .uint8 => .number (ofInt (fromBeBytes be))
  | .int16 => .number (ofInt (toSigned 16 (fromBeBytes be)))
  | .uint16 => .number (ofInt (fromBeBytes be))
  | .int32 => .number (ofInt (toSigned 32 (fromBeBytes be)))
  | .uint32 => .number (ofInt (fromBeBytes be))
  | .int64 => intValue (toSigned 64 (fromBeBytes be))
  | .uint64 => intValue (fromBeBytes be)
  | .float32 => .number (widen (Float32.ofBits (UInt32.ofNat (fromBeBytes be))))
  | .float64 => .number (Float.ofBits (UInt64.ofNat (fromBeBytes be)))
  -- `unreachable!`
  | .bool | .string | .bytes => .bool false

def decodePrimitive (bytes : List UInt8) (datatype : DataType) (endianness : Endianness)
    (wordOrder : WordOrder) : Except DecodeError Value :=
  if datatype = .bytes then .error (.noValue .bytes)
  else if datatype = .bool then .ok (.bool (bytes.any (· != 0)))
  else if datatype = .string then
    -- ASCII/UTF-8, null-trimmed; the wire order is kept
    .ok (.text (Utf8.fromUtf8Lossy (bytes.takeWhile (· != 0))))
  else
    let expected := datatype.byteLen.getD 0
    if bytes.length ≠ expected then .error (.length datatype expected bytes.length)
    else .ok (decodeFixed (reorder bytes endianness wordOrder) datatype)

/-! ## Encoding -/

def number (value : Value) (datatype : DataType) : Except DecodeError Float :=
  match value with
  | .number n => .ok n
  | .bool b => .ok (ofInt (if b then 1 else 0))
  | .text t =>
    match Decimal.parseF64 t with
    | some n => .ok n
    | none => .error (.invalidValue datatype)

/-- `small_int`. `n.fract() != 0.0` holds of what is not a whole number: fractions, infinities and
NaNs. -/
def smallInt (value : Value) (datatype : DataType) (min max : Int) : Except DecodeError Int :=
  match number value datatype with
  | .error e => .error e
  | .ok n =>
    if !integral n then .error (.invalidValue datatype)
    else if !(ofInt min ≤ n && n ≤ ofInt max) then .error (.outOfRange datatype)
    else .ok (toI64 n).toInt

def intFromValue (value : Value) : Except DecodeError Int :=
  match value with
  | .number n =>
    if !integral n then .error (.invalidValue .int64)
    -- 2^63 is exact in f64; `as` would saturate rather than fail
    else if !(ofInt (-2 ^ 63) ≤ n && n < ofInt (2 ^ 63)) then .error (.outOfRange .int64)
    else .ok (toI64 n).toInt
  | .text t =>
    match Decimal.parseI64 t with
    | some n => .ok n
    | none => .error (.invalidValue .int64)
  | .bool b => .ok (if b then 1 else 0)

def uintFromValue (value : Value) : Except DecodeError Int :=
  match value with
  | .number n =>
    if !integral n then .error (.invalidValue .uint64)
    else if !(ofInt 0 ≤ n && n < ofInt (2 ^ 64)) then .error (.outOfRange .uint64)
    else .ok (toU64 n).toNat
  | .text t =>
    match Decimal.parseU64 t with
    | some n => .ok n
    | none => .error (.invalidValue .uint64)
  | .bool b => .ok (if b then 1 else 0)

/-- `to_be_bytes` of an integer cast to `8 * count` bits. -/
def intBytes (count : Nat) (n : Int) : List UInt8 :=
  toBeBytes count (BitVec.ofInt (8 * count) n).toNat

/-- The boolean that a value stands for. -/
def truthy : Value → Bool
  | .bool b => b
  | .number n => n != ofInt 0
  | .text t => t == "true" || t == "1"

/-- The canonical bytes of a value of a datatype of a fixed length, `bool` apart. -/
def encodeFixed (value : Value) (datatype : DataType) : Except DecodeError (List UInt8) :=
  match datatype with
  | .int8 => (smallInt value datatype (-128) 127).map (intBytes 1)
  | .uint8 => (smallInt value datatype 0 255).map (intBytes 1)
  | .int16 => (smallInt value datatype (-32768) 32767).map (intBytes 2)
  | .uint16 => (smallInt value datatype 0 65535).map (intBytes 2)
  | .int32 => (smallInt value datatype (-2147483648) 2147483647).map (intBytes 4)
  | .uint32 => (smallInt value datatype 0 4294967295).map (intBytes 4)
  | .int64 => (intFromValue value).map (intBytes 8)
  | .uint64 => (uintFromValue value).map (intBytes 8)
  | .float32 => (number value datatype).map fun n => toBeBytes 4 (narrow n).toBits.toNat
  | .float64 => (number value datatype).map fun n => toBeBytes 8 n.toBits.toNat
  | .bool | .string | .bytes => .error (.noValue datatype)

def encodePrimitive (value : Value) (datatype : DataType) (endianness : Endianness)
    (wordOrder : WordOrder) : Except DecodeError (List UInt8) :=
  match datatype with
  | .bool => .ok [if truthy value then 1 else 0]
  | .string =>
    match value with
    | .text t => .ok (Utf8.encode t)
    | _ => .error (.invalidValue datatype)
  | .bytes => .error (.noValue .bytes)
  | _ => (encodeFixed value datatype).map fun be => reorder be endianness wordOrder

/-! ## Reordering is its own inverse -/

/-- Reordering keeps the length. -/
theorem length_reorder (bytes : List UInt8) (e : Endianness) (w : WordOrder) :
    (reorder bytes e w).length = bytes.length := by
  have hword : ∀ word, (swapWord e word).length = word.length := by
    intro word
    unfold swapWord
    split
    · split <;> rfl
    · rfl
  have hchunks : ∀ bytes, ((chunks bytes).map List.length).sum = bytes.length := by
    intro bytes
    induction bytes using chunks.induct with
    | case1 a b rest ih =>
      rw [chunks, List.map_cons, List.sum_cons, ih]
      simp only [List.length_cons, List.length_nil]
      omega
    | case2 a => rfl
    | case3 => rfl
  have hmap : ∀ words : List (List UInt8),
      (words.map fun word => (swapWord e word).length) = words.map List.length := by
    intro words
    exact List.map_congr_left fun word _ => hword word
  unfold reorder
  rw [List.length_flatMap, hmap]
  split
  · rw [List.map_reverse, List.sum_reverse, hchunks]
  · exact hchunks bytes

/-- The lengths of the values that are reordered. -/
def Whole (bytes : List UInt8) : Prop :=
  bytes.length = 1 ∨ bytes.length = 2 ∨ bytes.length = 4 ∨ bytes.length = 8

/-- The widths there are. -/
theorem Whole.cases {bytes : List UInt8} (h : Whole bytes) :
    (∃ a, bytes = [a]) ∨ (∃ a b, bytes = [a, b]) ∨ (∃ a b c d, bytes = [a, b, c, d]) ∨
      ∃ a b c d i j k l, bytes = [a, b, c, d, i, j, k, l] := by
  have hsplit : ∀ {n : Nat} {l : List UInt8}, l.length = n + 1 → ∃ a t, t.length = n ∧ l = a :: t := by
    intro n l hl
    obtain ⟨a, t, rfl⟩ := List.exists_cons_of_length_eq_add_one hl
    exact ⟨a, t, Nat.succ.inj hl, rfl⟩
  have hfour : ∀ {n : Nat} {l : List UInt8}, l.length = n + 4 →
      ∃ a b c d t, t.length = n ∧ l = a :: b :: c :: d :: t := by
    intro n l hl
    obtain ⟨a, t₁, h₁, rfl⟩ := hsplit hl
    obtain ⟨b, t₂, h₂, rfl⟩ := hsplit h₁
    obtain ⟨c, t₃, h₃, rfl⟩ := hsplit h₂
    obtain ⟨d, t₄, h₄, rfl⟩ := hsplit h₃
    exact ⟨a, b, c, d, t₄, h₄, rfl⟩
  rcases h with h | h | h | h
  · exact .inl (List.length_eq_one_iff.mp h)
  · exact .inr (.inl (List.length_eq_two.mp h))
  · obtain ⟨a, b, c, d, t, ht, rfl⟩ := hfour h
    obtain rfl := List.eq_nil_of_length_eq_zero ht
    exact .inr (.inr (.inl ⟨a, b, c, d, rfl⟩))
  · obtain ⟨a, b, c, d, t, ht, rfl⟩ := hfour h
    obtain ⟨i, j, k, l, t', ht', rfl⟩ := hfour ht
    obtain rfl := List.eq_nil_of_length_eq_zero ht'
    exact .inr (.inr (.inr ⟨a, b, c, d, i, j, k, l, rfl⟩))

theorem reorder_reorder {bytes : List UInt8} (h : Whole bytes) (e : Endianness) (w : WordOrder) :
    reorder (reorder bytes e w) e w = bytes := by
  rcases h.cases with ⟨a, rfl⟩ | ⟨a, b, rfl⟩ | ⟨a, b, c, d, rfl⟩ | ⟨a, b, c, d, i, j, k, l, rfl⟩ <;>
    cases e <;> cases w <;> rfl

end Codec

end TedgeDot
