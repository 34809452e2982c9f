import Mathlib.Data.List.DropRight
import TedgeDot.Sdk.Codec

/-!
# Primitive decoding and encoding in the C SDK

`decode.c`. A value carries its text in a buffer of 256 bytes, of which the bytes before the first
zero are the text. Numbers go through 64-bit integers; what a conversion of a double outside the
range of the integer gives is left open by the language, and is a parameter here.
-/

namespace TedgeDot

open Binary64

/-- `tdot_value_t`: the kind and the field it selects. Of the buffer, what was copied into it. -/
inductive TdotValue where
  | bool (b : Bool)
  | num (num : Float)
  | str (str : List UInt8)

namespace TdotCodec

/-- The string at the start of a buffer. -/
def cString (buffer : List UInt8) : List UInt8 := buffer.takeWhile (· != 0)

/-- `tdot_datatype_len`. -/
def datatypeLen : DataType → Nat
  | .bool | .int8 | .uint8 => 1
  | .int16 | .uint16 => 2
  | .int32 | .uint32 | .float32 => 4
  | .int64 | .uint64 | .float64 => 8
  | .string | .bytes => 0

/-- `tdot_datatype_str`. -/
def datatypeStr : DataType → String
  | .bool => "bool"
  | .int8 => "int8"
  | .uint8 => "uint8"
  | .int16 => "int16"
  | .uint16 => "uint16"
  | .int32 => "int32"
  | .uint32 => "uint32"
  | .int64 => "int64"
  | .uint64 => "uint64"
  | .float32 => "float32"
  | .float64 => "float64"
  | .string => "string"
  | .bytes => "bytes"

/-! ## Byte order -/

/-- Two bytes of a buffer change places. -/
def exchange (dst : List UInt8) (i j : Nat) : List UInt8 :=
  (dst.set i (dst.getD j 0)).set j (dst.getD i 0)

/-- The words `i` and `words - 1 - i` change places. -/
def swapWords (words : Nat) (dst : List UInt8) (i : Nat) : List UInt8 :=
  exchange (exchange dst (i * 2) ((words - 1 - i) * 2)) (i * 2 + 1) ((words - 1 - i) * 2 + 1)

/-- The bytes of the word `i` change places. -/
def swapBytes (dst : List UInt8) (i : Nat) : List UInt8 := exchange dst (i * 2) (i * 2 + 1)

def reorder (src : List UInt8) (endianness : Endianness) (wordOrder : WordOrder) : List UInt8 :=
  if src.length < 2 ∨ src.length % 2 ≠ 0 then src
  else
    let words := src.length / 2
    let dst := if wordOrder = .little then (List.range (words / 2)).foldl (swapWords words) src
      else src
    if endianness = .little then (List.range words).foldl swapBytes dst else dst

def beRead (b : List UInt8) : UInt64 := b.foldl (fun v x => (v <<< 8) ||| x.toUInt64) 0

def beWrite (b : List UInt8) (len : Nat) (v : UInt64) : List UInt8 :=
  (List.range len).foldl (fun b i => b.set (len - 1 - i) (v >>> UInt64.ofNat (8 * i)).toUInt8) b

/-! ## Decoding -/

def TDOT_JS_SAFE_MAX : Int := 9007199254740991

/-- `sizeof out->str`. -/
def STR_SIZE : Nat := 256

/-- `snprintf` of an integer. -/
def printed (v : Int) : TdotValue := .str (Utf8.encode (toString v))

/-- The `switch` over the datatypes of a fixed length. -/
def decodeFixed (u : UInt64) : DataType → Except String TdotValue
  | .bool => .ok (.bool (u != 0))
  | .uint8 | .uint16 | .uint32 => .ok (.num (ofInt u.toNat))
  | .int8 => .ok (.num (ofInt u.toUInt8.toInt8.toInt))
  | .int16 => .ok (.num (ofInt u.toUInt16.toInt16.toInt))
  | .int32 => .ok (.num (ofInt u.toUInt32.toInt32.toInt))
  | .uint64 =>
    if (u.toNat : Int) > TDOT_JS_SAFE_MAX then .ok (printed u.toNat)
    else .ok (.num (ofInt u.toNat))
  | .int64 =>
    let s := u.toInt64.toInt
    if s > TDOT_JS_SAFE_MAX ∨ s < -TDOT_JS_SAFE_MAX then .ok (printed s) else .ok (.num (ofInt s))
  | .float32 => .ok (.num (widen (Float32.ofBits u.toUInt32)))
  | .float64 => .ok (.num (Float.ofBits u))
  | .string | .bytes => .error "unsupported datatype"

/-- `tdot_decode`. -/
def decode (dt : DataType) (bytes : List UInt8) (endianness : Endianness) (wordOrder : WordOrder) :
    Except String TdotValue :=
  -- bool: any non-empty buffer; true when any byte is non-zero
  if dt = .bool then
    if bytes.length = 0 then .error "empty buffer for bool" else .ok (.bool (bytes.any (· != 0)))
  -- string: UTF-8 bytes with trailing NULs trimmed
  else if dt = .string then
    .ok (.str ((bytes.rdropWhile (· == 0)).take (STR_SIZE - 1)))
  else
    let want := datatypeLen dt
    let name := datatypeStr dt
    let len := bytes.length
    if dt = .bytes then .error "datatype bytes has no decoded value (raw only)"
    else if want = 0 then .error "unsupported datatype for decode"
    else if len ≠ want then .error s!"expected {want} bytes for {name}, got {len}"
    else decodeFixed (beRead (reorder bytes endianness wordOrder)) dt

/-! ## Encoding -/

/-- What the conversions of doubles outside the range of the integer give. -/
structure Undefined where
  toInt64 : Float → Int64
  toUInt64 : Float → UInt64

/-- `(int64_t)`. -/
def castI64 (undefined : Undefined) (n : Float) : Int64 :=
  if ofInt (-2 ^ 63) ≤ n ∧ n < ofInt (2 ^ 63) then toI64 n else undefined.toInt64 n

/-- `(uint64_t)`. -/
def castU64 (undefined : Undefined) (n : Float) : UInt64 :=
  if ofInt 0 ≤ n ∧ n < ofInt (2 ^ 64) then toU64 n else undefined.toUInt64 n

/-- `n == floor(n)`: of whole numbers and infinities. -/
def isFloor (n : Float) : Bool := integral n || n.isInf

def isspace (b : UInt8) : Bool := b == 32 || (9 ≤ b && b ≤ 13)

def isdigit (b : UInt8) : Bool := 48 ≤ b && b ≤ 57

/-- The integer at the start of a string, base 10, after blanks: whether it has a minus sign, and
its digits. No digits are zero. -/
def leading (s : List UInt8) : Bool × Nat :=
  let (negative, digits) := match s.dropWhile isspace with
    | 45 :: rest => (true, rest)
    | 43 :: rest => (false, rest)
    | rest => (false, rest)
  (negative, (digits.takeWhile isdigit).foldl (fun v b => v * 10 + (b.toNat - 48)) 0)

def strtoll (s : List UInt8) : Int64 :=
  let (negative, magnitude) := leading s
  let v : Int := if negative then -magnitude else magnitude
  Int64.ofInt (max (-2 ^ 63) (min v (2 ^ 63 - 1)))

/-- `strtoull`. A minus sign negates in the unsigned type. -/
def strtoull (s : List UInt8) : UInt64 :=
  let (negative, magnitude) := leading s
  if 2 ^ 64 ≤ magnitude then UInt64.ofNat (2 ^ 64 - 1)
  else if negative then -UInt64.ofNat magnitude
  else UInt64.ofNat magnitude

def isSigned (dt : DataType) : Bool :=
  dt == .int8 || dt == .int16 || dt == .int32 || dt == .int64

/-- The bytes of a signed integer, if the datatype holds it. -/
def storeSigned (dt : DataType) (s : Int64) : Except String (List UInt8) :=
  let want := datatypeLen dt
  let name := datatypeStr dt
  let min : Int := -2 ^ (want * 8 - 1)
  let max : Int := 2 ^ (want * 8 - 1) - 1
  if want < 8 ∧ (s.toInt < min ∨ s.toInt > max) then .error s!"value out of range for {name}"
  else .ok ((beWrite (List.replicate 8 0) want s.toUInt64).take want)

/-- The bytes of an unsigned integer, if the datatype holds it. -/
def storeUnsigned (dt : DataType) (u : UInt64) : Except String (List UInt8) :=
  let want := datatypeLen dt
  let name := datatypeStr dt
  if want < 8 ∧ u.toNat > 2 ^ (want * 8) - 1 then .error s!"value out of range for {name}"
  else .ok ((beWrite (List.replicate 8 0) want u).take want)

/-- The canonical bytes of a value of an integer datatype. -/
def encodeInteger (undefined : Undefined) (dt : DataType) : TdotValue → Except String (List UInt8)
  | .num num =>
    if !isFloor num then .error "expected integer value"
    else if isSigned dt then storeSigned dt (castI64 undefined num)
    else if num < ofInt 0 then .error "negative value for unsigned type"
    else storeUnsigned dt (castU64 undefined num)
  | .str str =>
    -- 64-bit values outside the JS safe range arrive as strings
    if isSigned dt then storeSigned dt (strtoll (cString str))
    else storeUnsigned dt (strtoull (cString str))
  | .bool _ => .error "expected numeric value"

/-- The canonical bytes of a value of a datatype of a fixed length. -/
def encodeFixed (undefined : Undefined) (dt : DataType) (value : TdotValue) :
    Except String (List UInt8) :=
  match dt, value with
  | .bool, .bool b => .ok [if b then 1 else 0]
  | .bool, .num num => .ok [if num != ofInt 0 then 1 else 0]
  | .bool, .str _ => .error "expected boolean value"
  | .float32, .num num =>
    .ok ((beWrite (List.replicate 8 0) 4 (narrow num).toBits.toUInt64).take 4)
  | .float64, .num num => .ok (beWrite (List.replicate 8 0) 8 num.toBits)
  | .float32, _ | .float64, _ => .error "expected numeric value"
  | _, _ => encodeInteger undefined dt value

/-- `tdot_encode`, into a buffer of `capacity` bytes. -/
def encode (undefined : Undefined) (dt : DataType) (value : TdotValue) (endianness : Endianness)
    (wordOrder : WordOrder) (capacity : Nat) : Except String (List UInt8) :=
  if dt = .string then
    match value with
    | .str str =>
      if (cString str).length > capacity then .error "buffer too small" else .ok (cString str)
    | _ => .error "expected string value"
  else if dt = .bytes then .error "datatype bytes has no decoded value (raw only)"
  else if capacity < datatypeLen dt then .error "buffer too small"
  else (encodeFixed undefined dt value).map fun canon => reorder canon endianness wordOrder

end TdotCodec

end TedgeDot
