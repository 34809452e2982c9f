import TedgeDot.Sdk.DecodeAgreement

/-!
# Bit-fields of registers

`extract_bitfield` of `decode.rs` and `tdot_bitfield_extract` of `decode.c`: the unsigned integer
that some bits of the canonical big-endian value of a register buffer form (`field`). A width of 64
bits is a special case of the Rust function, which leaves out the shift there, and a shift by 64 bits
or more has no defined result in C. A buffer with half a register at its end is reordered in Rust,
and left as it is in C. So both give the field exactly where `Extractable` holds.
-/

namespace TedgeDot

namespace Codec

/-- `acc >> start_bit` of a `u128`. A shift by 128 or more panics in a build with overflow checks,
and shifts by the low bits of the amount in one without. -/
def shiftRight128 (checks : Bool) (acc : BitVec 128) (start : UInt32) : Option (BitVec 128) :=
  if start.toNat < 128 then some (acc >>> start.toNat)
  else if checks then none
  else some (acc >>> (start.toNat % 128))

/-- The big-endian bytes in a `u128`. -/
def accumulate (be : List UInt8) : BitVec 128 :=
  be.foldl (fun acc b => (acc <<< 8) ||| b.toBitVec.setWidth 128) 0

/-- `extract_bitfield`, if it returns. -/
def extractBitfield (checks : Bool) (bytes : List UInt8) (endianness : Endianness)
    (wordOrder : WordOrder) (start count : UInt32) : Option UInt64 :=
  let acc := accumulate (reorder bytes endianness wordOrder)
  if count = 0 ∨ 64 ≤ count then some ⟨acc.setWidth 64⟩
  else
    let mask := (1#128 <<< count.toNat) - 1#128
    (shiftRight128 checks acc start).map fun shifted => ⟨(shifted &&& mask).setWidth 64⟩

end Codec

namespace TdotCodec

/-- `tdot_bitfield_extract`, where it is defined: a shift of a `uint64_t` is by less than 64. -/
def bitfieldExtract (bytes : List UInt8) (endianness : Endianness) (wordOrder : WordOrder)
    (start count : UInt32) : Option UInt64 :=
  let v := beRead (reorder (bytes.take 8) endianness wordOrder)
  if count = 0 then some v
  else if 64 ≤ start then none
  else
    let v := v >>> start.toUInt64
    if count < 64 then some (v &&& ((1 <<< count.toUInt64) - 1)) else some v

end TdotCodec

namespace Bitfield

open Codec

/-! ## The bits of a value -/

/-- The number that `count` bits of a value form, from the bit `start` on. -/
def field (value start count : Nat) : Nat := (value >>> start) % 2 ^ count

def canonical (bytes : List UInt8) (e : Endianness) (w : WordOrder) : Nat :=
  fromBeBytes (reorder bytes e w)

/-- The buffer is of whole registers, or the orders leave the bits of the field as they are in it. -/
def InPlace (bytes : List UInt8) (e : Endianness) (w : WordOrder) (start count : UInt32) : Prop :=
  bytes.length % 2 = 0 ∨ field (canonical bytes e w) start.toNat count.toNat =
    field (fromBeBytes bytes) start.toNat count.toNat

def Extracted (checks : Bool) (bytes : List UInt8) (e : Endianness) (w : WordOrder)
    (start count : UInt32) : Prop :=
  let expected := UInt64.ofNat (field (canonical bytes e w) start.toNat count.toNat)
  extractBitfield checks bytes e w start count = some expected ∧
    TdotCodec.bitfieldExtract bytes e w start count = some expected

/-- The field begins in the widest buffer, and is narrower than it, begins at its end or has only
zeros to give; and it is in place. -/
structure Extractable (bytes : List UInt8) (e : Endianness) (w : WordOrder) (start count : UInt32) :
    Prop where
  starts : start < 64
  narrow : count < 64 ∨ start = 0 ∨ ∀ b ∈ bytes, b = 0
  inPlace : InPlace bytes e w start count

/-! ## The canonical value -/

theorem mem_chunks_flatten (bytes : List UInt8) : (chunks bytes).flatten = bytes := by
  induction bytes using chunks.induct with
  | case1 a b rest ih => simp [chunks, ih]
  | case2 a => rfl
  | case3 => rfl

variable {e : Endianness} {bytes : List UInt8}

theorem mem_swapWord {word : List UInt8} {b : UInt8} : b ∈ swapWord e word ↔ b ∈ word := by
  unfold swapWord
  split
  · split
    · simp only [List.mem_cons, List.not_mem_nil, or_false]
      exact or_comm
    · rfl
  · rfl

theorem mem_reorder {w : WordOrder} {b : UInt8} : b ∈ reorder bytes e w ↔ b ∈ bytes := by
  have hwords {words : List (List UInt8)} :
      b ∈ words.flatMap (swapWord e) ↔ b ∈ words.flatten := by
    simp only [List.mem_flatMap, List.mem_flatten, mem_swapWord]
  unfold reorder
  simp only [hwords]
  split
  · rw [List.mem_flatten]
    simp only [List.mem_reverse]
    rw [← List.mem_flatten, mem_chunks_flatten]
  · rw [mem_chunks_flatten]

/-- Only zero bytes make zero. -/
theorem fromBeBytes_eq_zero : fromBeBytes bytes = 0 ↔ ∀ b ∈ bytes, b = 0 := by
  induction bytes using List.reverseRecOn with
  | nil => simp
  | append_singleton bytes b ih =>
    rw [fromBeBytes_concat]
    have hb : b.toNat = 0 ↔ b = 0 := by
      rw [← UInt8.toNat_inj]
      rfl
    simp only [List.mem_append, List.mem_singleton]
    constructor
    · intro h c hc
      rcases hc with hc | rfl
      · exact ih.mp (by omega) c hc
      · exact hb.mp (by omega)
    · intro h
      have hzero := ih.mpr fun c hc => h c (.inl hc)
      have hlast := hb.mpr (h b (.inr rfl))
      omega

theorem canonical_eq_zero {w : WordOrder} : canonical bytes e w = 0 ↔ ∀ b ∈ bytes, b = 0 := by
  unfold canonical
  rw [fromBeBytes_eq_zero]
  simp only [mem_reorder]

theorem fromBeBytes_lt_64 (h : bytes.length ≤ 8) : fromBeBytes bytes < 2 ^ 64 := by
  have hlt := fromBeBytes_lt bytes
  have hpow : 256 ^ bytes.length ≤ 256 ^ 8 := Nat.pow_le_pow_right (by decide) h
  omega

theorem canonical_lt (h : bytes.length ≤ 8) (e : Endianness) (w : WordOrder) :
    canonical bytes e w < 2 ^ 64 := by
  apply fromBeBytes_lt_64
  rw [length_reorder]
  exact h

theorem reorder_odd (h : bytes.length % 2 = 1) (e : Endianness) (w : WordOrder) :
    TdotCodec.reorder bytes e w = bytes := by
  unfold TdotCodec.reorder
  rw [if_pos (.inr (by omega))]

theorem reorder_even (hlength : bytes.length ≤ 8) (heven : bytes.length % 2 = 0) (e : Endianness)
    (w : WordOrder) : TdotCodec.reorder bytes e w = reorder bytes e w := by
  -- of the even lengths up to 8, 0 and 6 are no datatype's
  have hlengths : bytes.length = 0 ∨ bytes.length = 6 ∨ Whole bytes := by
    unfold Whole
    omega
  rcases hlengths with hnil | hsix | hwhole
  · rw [List.eq_nil_of_length_eq_zero hnil]
    cases e <;> cases w <;> rfl
  · match bytes, hsix with
    | [a, b, c, d, i, j], _ =>
      cases e <;> cases w <;>
        simp [TdotCodec.reorder, reorder, chunks, swapWord, TdotCodec.swapWords,
          TdotCodec.swapBytes, TdotCodec.exchange, List.range, List.range.loop]
  · exact TdotCodec.reorder_eq hwhole e w

theorem length_tdotReorder (hlength : bytes.length ≤ 8) (e : Endianness) (w : WordOrder) :
    (TdotCodec.reorder bytes e w).length = bytes.length := by
  rcases Nat.mod_two_eq_zero_or_one bytes.length with heven | hodd
  · rw [reorder_even hlength heven, length_reorder]
  · rw [reorder_odd hodd]

/-- The field is in place where the value that C reads has the same one. -/
theorem inPlace_iff (hlength : bytes.length ≤ 8) {w : WordOrder} {start count : UInt32} :
    InPlace bytes e w start count ↔
      field (canonical bytes e w) start.toNat count.toNat =
        field (fromBeBytes (TdotCodec.reorder bytes e w)) start.toNat count.toNat := by
  unfold InPlace
  rcases Nat.mod_two_eq_zero_or_one bytes.length with heven | hodd
  · rw [reorder_even hlength heven]
    exact iff_of_true (.inl heven) rfl
  · rw [reorder_odd hodd]
    exact or_iff_right (by omega)

/-! ## The Rust function -/

/-- The accumulator holds the bytes' number. -/
theorem toNat_accumulate {be : List UInt8} (h : be.length ≤ 8) :
    (accumulate be).toNat = fromBeBytes be := by
  induction be using List.reverseRecOn with
  | nil => rfl
  | append_singleton be b ih =>
    rw [List.length_append, List.length_singleton] at h
    have ih := ih (by omega)
    have hlength : be.length ≤ 8 := by omega
    have hlt := fromBeBytes_lt_64 hlength
    have hb : b.toNat < 2 ^ 8 := b.toNat_lt
    have hstep : accumulate (be ++ [b]) =
        (accumulate be <<< 8) ||| b.toBitVec.setWidth 128 := by
      simp [accumulate]
    have hshift : (accumulate be <<< 8).toNat = fromBeBytes be <<< 8 := by
      rw [BitVec.toNat_shiftLeft, ih]
      apply Nat.mod_eq_of_lt
      rw [Nat.shiftLeft_eq]
      omega
    have hlow : (b.toBitVec.setWidth 128).toNat = b.toNat := by
      rw [BitVec.toNat_setWidth]
      apply Nat.mod_eq_of_lt
      show b.toNat < 2 ^ 128
      omega
    rw [hstep, BitVec.toNat_or, hshift, hlow, ← Nat.shiftLeft_add_eq_or_of_lt hb,
      fromBeBytes_concat, Nat.shiftLeft_eq]

section Functions

variable {checks : Bool} {bytes : List UInt8} {e : Endianness} {w : WordOrder}
  {start count : UInt32}

theorem toNat_acc (h : bytes.length ≤ 8) :
    (accumulate (reorder bytes e w)).toNat = canonical bytes e w := by
  apply toNat_accumulate
  rw [length_reorder]
  exact h

/-- The Rust extractor on fewer than 64 bits gives the field. -/
theorem extractBitfield_narrow (h : bytes.length ≤ 8) (hpos : 0 < count) (hcount : count < 64)
    (hstart : start < 64) :
    extractBitfield checks bytes e w start count =
      some (UInt64.ofNat (field (canonical bytes e w) start.toNat count.toNat)) := by
  have hcount : count.toNat < 64 := UInt32.lt_iff_toNat_lt.mp hcount
  have hpos : 0 < count.toNat := UInt32.lt_iff_toNat_lt.mp hpos
  have hstart : start.toNat < 64 := UInt32.lt_iff_toNat_lt.mp hstart
  have hcond : ¬ (count = 0 ∨ 64 ≤ count) := by
    rintro (rfl | hge)
    · exact absurd hpos (by decide)
    · have hge : 64 ≤ count.toNat := UInt32.le_iff_toNat_le.mp hge
      omega
  have hmask : ((1#128 <<< count.toNat) - 1#128).toNat = 2 ^ count.toNat - 1 := by
    have hpow : 2 ^ count.toNat < 2 ^ 64 := Nat.pow_lt_pow_right (by decide) hcount
    have hone := Nat.two_pow_pos count.toNat
    have hshift : (1#128 <<< count.toNat).toNat = 2 ^ count.toNat := by
      rw [BitVec.toNat_shiftLeft]
      show (1 <<< count.toNat) % 2 ^ 128 = _
      rw [Nat.shiftLeft_eq, Nat.one_mul]
      apply Nat.mod_eq_of_lt
      omega
    rw [BitVec.toNat_sub_of_le, hshift]
    · rfl
    · rw [BitVec.le_def, hshift]
      exact hone
  unfold extractBitfield shiftRight128
  rw [if_neg hcond, if_pos (by omega)]
  simp only [Option.map_some, Option.some.injEq]
  apply UInt64.toNat_inj.mp
  show (BitVec.setWidth 64 _).toNat = _
  rw [BitVec.toNat_setWidth, BitVec.toNat_and, BitVec.toNat_ushiftRight, hmask, toNat_acc h,
    Nat.and_two_pow_sub_one_eq_mod, UInt64.toNat_ofNat']
  rfl

theorem extractBitfield_wide (h : bytes.length ≤ 8) :
    extractBitfield checks bytes e w start 64 =
      some (UInt64.ofNat (canonical bytes e w)) := by
  unfold extractBitfield
  rw [if_pos (.inr (by decide))]
  congr 1
  apply UInt64.toNat_inj.mp
  show (BitVec.setWidth 64 _).toNat = _
  rw [BitVec.toNat_setWidth, toNat_acc h, UInt64.toNat_ofNat']

/-! ## The C function -/

/-- The C extractor gives the field of the bytes it reorders. -/
theorem bitfieldExtract_eq (h : bytes.length ≤ 8) (hpos : 0 < count) (hcount : count ≤ 64)
    (hstart : start < 64) :
    TdotCodec.bitfieldExtract bytes e w start count =
      some (UInt64.ofNat
        (field (fromBeBytes (TdotCodec.reorder bytes e w)) start.toNat count.toNat)) := by
  have hcount : count.toNat ≤ 64 := UInt32.le_iff_toNat_le.mp hcount
  have hpos : 0 < count.toNat := UInt32.lt_iff_toNat_lt.mp hpos
  have hstart' : start.toNat < 64 := UInt32.lt_iff_toNat_lt.mp hstart
  have hlength : (TdotCodec.reorder bytes e w).length ≤ 8 := by rwa [length_tdotReorder h]
  have hlt := fromBeBytes_lt_64 hlength
  have hread : (TdotCodec.beRead (TdotCodec.reorder (bytes.take 8) e w)).toNat =
      fromBeBytes (TdotCodec.reorder bytes e w) := by
    rw [List.take_of_length_le h, TdotCodec.toNat_beRead hlength]
  generalize fromBeBytes (TdotCodec.reorder bytes e w) = value at hlt hread ⊢
  have hshifted : (TdotCodec.beRead (TdotCodec.reorder (bytes.take 8) e w) >>>
      start.toUInt64).toNat = value >>> start.toNat := by
    rw [UInt64.toNat_shiftRight, hread, UInt32.toNat_toUInt64, Nat.mod_eq_of_lt hstart']
  have hzero : count ≠ 0 := by
    rintro rfl
    exact absurd hpos (by decide)
  -- a shift by 64 or more has no result in the model of C
  have hdefined : ¬ 64 ≤ start := by
    rw [UInt32.le_iff_toNat_le]
    show ¬ 64 ≤ start.toNat
    omega
  unfold TdotCodec.bitfieldExtract
  simp only [if_neg hzero, if_neg hdefined]
  split
  · rename_i hnarrow
    have hnarrow : count.toNat < 64 := UInt32.lt_iff_toNat_lt.mp hnarrow
    have hpow : 2 ^ count.toNat < 2 ^ 64 := Nat.pow_lt_pow_right (by decide) hnarrow
    have hone := Nat.two_pow_pos count.toNat
    have hshift : ((1 : UInt64) <<< count.toUInt64).toNat = 2 ^ count.toNat := by
      rw [UInt64.toNat_shiftLeft, UInt32.toNat_toUInt64, Nat.mod_eq_of_lt hnarrow]
      show (1 <<< count.toNat) % 2 ^ 64 = _
      rw [Nat.shiftLeft_eq, Nat.one_mul, Nat.mod_eq_of_lt hpow]
    have hmask : (((1 : UInt64) <<< count.toUInt64) - 1).toNat = 2 ^ count.toNat - 1 := by
      rw [UInt64.toNat_sub_of_le, hshift]
      · rfl
      · rw [UInt64.le_iff_toNat_le, hshift]
        exact hone
    congr 1
    apply UInt64.toNat_inj.mp
    rw [UInt64.toNat_and, hshifted, hmask, Nat.and_two_pow_sub_one_eq_mod, UInt64.toNat_ofNat']
    have hfield : field value start.toNat count.toNat < 2 ^ 64 := (Nat.mod_lt _ hone).trans hpow
    rw [Nat.mod_eq_of_lt hfield]
    rfl
  · rename_i hwide
    have hwide : count.toNat = 64 := by
      rw [UInt32.lt_iff_toNat_lt] at hwide
      have hwide : ¬ count.toNat < 64 := hwide
      omega
    congr 1
    apply UInt64.toNat_inj.mp
    have hle : value >>> start.toNat ≤ value := Nat.shiftRight_le _ _
    rw [hshifted, UInt64.toNat_ofNat', field, hwide, Nat.mod_mod, Nat.mod_eq_of_lt (by omega)]

/-! ## Both functions -/

theorem shiftRight_eq_self {v s : Nat} : v >>> s = v ↔ s = 0 ∨ v = 0 := by
  rw [Nat.shiftRight_eq_div_pow]
  constructor
  · intro h
    by_contra hne
    have hs : 0 < s := by omega
    have hone : 1 < 2 ^ s := Nat.one_lt_two_pow (by omega)
    have := Nat.div_lt_self (n := v) (by omega) hone
    omega
  · rintro (rfl | rfl)
    · simp
    · simp

theorem field_lt {value start count : Nat} (h : value < 2 ^ 64) :
    field value start count < 2 ^ 64 :=
  (Nat.mod_le _ _).trans_lt ((Nat.shiftRight_le _ _).trans_lt h)

/-- The Rust function gives the field but for the shift that a width of 64 leaves out. -/
theorem extractBitfield_iff (h : bytes.length ≤ 8) (hpos : 0 < count) (hcount : count ≤ 64)
    (hstart : start < 64) :
    extractBitfield checks bytes e w start count =
        some (UInt64.ofNat (field (canonical bytes e w) start.toNat count.toNat)) ↔
      count < 64 ∨ start = 0 ∨ ∀ b ∈ bytes, b = 0 := by
  rcases UInt32.lt_or_eq_of_le hcount with hnarrow | rfl
  · exact iff_of_true (extractBitfield_narrow h hpos hnarrow hstart) (.inl hnarrow)
  · have hlt := canonical_lt h e w
    have hfield : field (canonical bytes e w) start.toNat (64 : UInt32).toNat =
        canonical bytes e w >>> start.toNat :=
      Nat.mod_eq_of_lt ((Nat.shiftRight_le _ _).trans_lt hlt)
    rw [extractBitfield_wide h, hfield, Option.some.injEq, ← UInt64.toNat_inj,
      UInt64.toNat_ofNat', UInt64.toNat_ofNat', Nat.mod_eq_of_lt hlt,
      Nat.mod_eq_of_lt ((Nat.shiftRight_le _ _).trans_lt hlt), eq_comm, shiftRight_eq_self,
      canonical_eq_zero, ← UInt32.toNat_inj]
    exact (or_iff_right (by decide)).symm

/-- **Bit-fields**: both functions give the field of a buffer exactly when it begins below bit 64, has
fewer than 64 bits, begins at bit 0 or lies in a buffer of zeros, and is in place. -/
theorem extracted_iff (h : bytes.length ≤ 8) (hpos : 0 < count) (hcount : count ≤ 64) :
    Extracted checks bytes e w start count ↔ Extractable bytes e w start count := by
  have hc : start < 64 → (TdotCodec.bitfieldExtract bytes e w start count =
      some (UInt64.ofNat (field (canonical bytes e w) start.toNat count.toNat)) ↔
        InPlace bytes e w start count) := by
    intro hstart
    have hlength : (TdotCodec.reorder bytes e w).length ≤ 8 := by rwa [length_tdotReorder h]
    rw [bitfieldExtract_eq h hpos hcount hstart, inPlace_iff h, Option.some.injEq,
      ← UInt64.toNat_inj, UInt64.toNat_ofNat', UInt64.toNat_ofNat',
      Nat.mod_eq_of_lt (field_lt (fromBeBytes_lt_64 hlength)),
      Nat.mod_eq_of_lt (field_lt (canonical_lt h e w))]
    exact eq_comm
  constructor
  · rintro ⟨hrust, hextract⟩
    have hstart : start < 64 := by
      -- C has no shift by 64 bits or more
      by_contra hge
      have hdefined : 64 ≤ start := UInt32.not_lt.mp hge
      have hzero : count ≠ 0 := by
        rintro rfl
        exact absurd hpos (by decide)
      unfold TdotCodec.bitfieldExtract at hextract
      simp only [if_neg hzero, if_pos hdefined] at hextract
      cases hextract
    exact ⟨hstart, (extractBitfield_iff h hpos hcount hstart).mp hrust, (hc hstart).mp hextract⟩
  · rintro ⟨hstart, hnarrow, hplace⟩
    exact ⟨(extractBitfield_iff h hpos hcount hstart).mpr hnarrow, (hc hstart).mpr hplace⟩

end Functions

/-- A field of one word. -/
theorem extracted_iff_word : Extracted true [0x01, 0x20, 0x03] .little .big 8 4 ↔
    Extractable [0x01, 0x20, 0x03] .little .big 8 4 :=
  extracted_iff (by decide) (by decide) (by decide)

/-- Of four registers that hold 2, the Rust function gives 2 for the 64 bits from bit 1 on. -/
theorem wide_field_unshifted : ¬ Extracted true [0, 0, 0, 0, 0, 0, 0, 2] .big .big 1 64 ∧
    extractBitfield true [0, 0, 0, 0, 0, 0, 0, 2] .big .big 1 64 = some 2 ∧
    TdotCodec.bitfieldExtract [0, 0, 0, 0, 0, 0, 0, 2] .big .big 1 64 = some 1 := by
  refine ⟨?_, by decide, by decide⟩
  rintro ⟨hrust, -⟩
  revert hrust
  decide

/-- Of a register and a half, Rust swaps the bytes of the whole register, and C none. -/
example : extractBitfield true [1, 2, 3] .little .big 0 24 = some 0x020103 ∧
    TdotCodec.bitfieldExtract [1, 2, 3] .little .big 0 24 = some 0x010203 := by decide

end Bitfield

end TedgeDot
