import Mathlib.Data.List.Basic

/-!
# UTF-8

The bytes of a text, and the text that any bytes are read as when what is not UTF-8 is replaced.
Bytes come back from that text exactly when they are UTF-8 (`encode_fromUtf8Lossy`).
-/

namespace TedgeDot.Utf8

def encode (text : String) : List UInt8 := text.toList.flatMap String.utf8EncodeChar

def Valid (bytes : List UInt8) : Prop := ∃ text : String, encode text = bytes

/-- The bytes that may follow the first byte of a character of three or four bytes. -/
def second (first b : UInt8) : Bool :=
  if first == 0xE0 then 0xA0 ≤ b && b ≤ 0xBF
  else if first == 0xED then 0x80 ≤ b && b ≤ 0x9F
  else if first == 0xF0 then 0x90 ≤ b && b ≤ 0xBF
  else if first == 0xF4 then 0x80 ≤ b && b ≤ 0x8F
  else 0x80 ≤ b && b ≤ 0xBF

def continuation (b : UInt8) : Bool := 0x80 ≤ b && b ≤ 0xBF

/-- How many bytes, where no character begins, are replaced together: as many as could have begun
one. -/
def invalidLength : List UInt8 → Nat
  | a :: b :: c :: _ =>
    if 0xE0 ≤ a && a ≤ 0xEF && second a b then 2
    else if 0xF0 ≤ a && a ≤ 0xF4 && second a b then
      if continuation c then 3 else 2
    else 1
  | a :: b :: [] => if 0xE0 ≤ a && a ≤ 0xF4 && second a b then 2 else 1
  | _ => 1

/-- The characters of the first `fuel` steps through the bytes. -/
def lossy : Nat → List UInt8 → List Char
  | 0, _ => []
  | _, [] => []
  | fuel + 1, bytes@(_ :: _) =>
    match bytes.toByteArray.utf8DecodeChar? 0 with
    | some c => c :: lossy fuel (bytes.drop c.utf8Size)
    | none => '\uFFFD' :: lossy fuel (bytes.drop (invalidLength bytes))

/-- `String::from_utf8_lossy`. A step takes at least one byte. -/
def fromUtf8Lossy (bytes : List UInt8) : String := String.ofList (lossy bytes.length bytes)

theorem utf8DecodeChar_append (c : Char) (rest : List UInt8) :
    (String.utf8EncodeChar c ++ rest).toByteArray.utf8DecodeChar? 0 = some c := by
  rw [List.toByteArray_append]
  exact ByteArray.utf8DecodeChar?_utf8EncodeChar_append

/-- Decoding takes back what was encoded. -/
theorem lossy_flatMap (chars : List Char) {fuel : Nat}
    (hfuel : (chars.flatMap String.utf8EncodeChar).length ≤ fuel) :
    lossy fuel (chars.flatMap String.utf8EncodeChar) = chars := by
  induction chars generalizing fuel with
  | nil => cases fuel <;> rfl
  | cons c chars ih =>
    have hsize : (String.utf8EncodeChar c).length = c.utf8Size := String.length_utf8EncodeChar c
    have hpos := c.utf8Size_pos
    rw [List.flatMap_cons, List.length_append, hsize] at hfuel
    have hread := utf8DecodeChar_append c (chars.flatMap String.utf8EncodeChar)
    have hdrop : (String.utf8EncodeChar c ++ chars.flatMap String.utf8EncodeChar).drop c.utf8Size =
        chars.flatMap String.utf8EncodeChar := by
      rw [← hsize, List.drop_left]
    obtain ⟨b, bytes, hbytes⟩ : ∃ b bytes,
        String.utf8EncodeChar c ++ chars.flatMap String.utf8EncodeChar = b :: bytes := by
      apply List.exists_cons_of_ne_nil
      exact List.append_ne_nil_of_left_ne_nil String.utf8EncodeChar_ne_nil _
    cases fuel with
    | zero => omega
    | succ fuel =>
      rw [hbytes] at hread hdrop
      rw [List.flatMap_cons, hbytes, lossy, hread]
      simp only
      rw [hdrop, ih (by omega)]

theorem fromUtf8Lossy_encode (text : String) : fromUtf8Lossy (encode text) = text := by
  unfold fromUtf8Lossy encode
  rw [lossy_flatMap text.toList (Nat.le_refl _), String.ofList_toList]

theorem encode_fromUtf8Lossy {bytes : List UInt8} :
    encode (fromUtf8Lossy bytes) = bytes ↔ Valid bytes := by
  constructor
  · intro h
    exact ⟨_, h⟩
  · rintro ⟨text, rfl⟩
    rw [fromUtf8Lossy_encode]

/-! ## ASCII -/

def asciiByte (c : Char) : UInt8 := c.val.toUInt8

theorem encodeChar_ascii {c : Char} (h : c.toNat < 128) : String.utf8EncodeChar c = [asciiByte c] := by
  have hval : c.val ≤ 127 := by
    apply UInt32.le_iff_toNat_le.mpr
    have : c.val.toNat < 128 := h
    exact Nat.le_of_lt_succ this
  exact String.utf8EncodeChar_eq_singleton (Char.utf8Size_eq_one_iff.mpr hval)

theorem toNat_asciiByte {c : Char} (h : c.toNat < 128) : (asciiByte c).toNat = c.toNat := by
  have hval : c.val.toNat < 128 := h
  show c.val.toUInt8.toNat = c.val.toNat
  rw [UInt32.toNat_toUInt8]
  apply Nat.mod_eq_of_lt
  omega

theorem encode_ascii {text : String} (h : ∀ c ∈ text.toList, c.toNat < 128) :
    encode text = text.toList.map asciiByte := by
  unfold encode
  generalize text.toList = chars at h
  induction chars with
  | nil => rfl
  | cons c chars ih =>
    rw [List.flatMap_cons, encodeChar_ascii (h c List.mem_cons_self),
      ih fun c hc => h c (List.mem_cons_of_mem _ hc)]
    rfl

end TedgeDot.Utf8
