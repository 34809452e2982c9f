import Mathlib.Data.Int.Interval

/-!
# Signals of a CAN message

A classic frame has eight bytes, whose bits are numbered 0 to 63: bit `n` is bit `n % 8` of byte
`n / 8`. A signal has its bits at `positions`: an Intel signal counts up from its least significant
bit, a Motorola signal down from its most significant one. Both connectors write a signal bit by bit
into a payload.
-/

namespace TedgeDot.Canbus

/-- The bytes of a classic frame (`CLASSIC_PAYLOAD_LEN`, `CB_PAYLOAD_LEN`). -/
abbrev Payload := Vector UInt8 8

def Payload.zero : Payload := Vector.replicate 8 0

inductive ByteOrder where
  | intel
  | motorola
deriving DecidableEq

/-- A signal of a DBC file, with the identifier of its message. -/
structure Signal where
  canId : UInt32
  start : Nat
  count : Nat
  order : ByteOrder
deriving DecidableEq

/-- A bit of a payload; there is none past the last byte. -/
def bit (p : Payload) (n : Nat) : Bool := ((p[n / 8]?).getD 0).toBitVec.getLsbD (n % 8)

/-- A bit of a byte set to a value: `(b & !(1 << i)) | (v << i)`. -/
def setByte (b i v : UInt8) : UInt8 := (b &&& ~~~(1 <<< i)) ||| (v <<< i)

/-- A bit of a byte of a payload, where there is that byte. -/
def setBit (p : Payload) (place : Nat × Nat) (v : UInt8) : Payload :=
  if h : place.1 < 8 then p.set place.1 (setByte p[place.1] (UInt8.ofNat place.2) v) else p

/-- A loop over the bits of a value: for each round the place it writes, and the bit of the value. -/
def encodeBits (places : Nat → Nat × Nat) (shift : Nat → Nat) (value : UInt64) (count : Nat)
    (p : Payload) : Payload :=
  (List.range count).foldl
    (fun p i => setBit p (places i) ((value >>> UInt64.ofNat (shift i)) &&& 1).toUInt8) p

def bitMask (count : Nat) : UInt64 := if count ≥ 64 then -1 else (1 <<< UInt64.ofNat count) - 1

/-! ## The Rust connector -/

namespace Rust

/-- `encode_intel`. The start is a `u16`. -/
def encodeIntel (p : Payload) (start : UInt16) (count : UInt8) (value : UInt64) : Payload :=
  let masked := value &&& bitMask count.toNat
  let place := fun i : Nat =>
    let absBit := start + UInt16.ofNat i
    ((absBit / 8).toNat, (absBit % 8).toNat)
  encodeBits place (fun i => i) masked count.toNat p

/-- `encode_motorola`. The bit is an `i32` that counts down, and a division of a negative one rounds
towards zero. -/
def encodeMotorola (p : Payload) (start : UInt16) (count : UInt8) (value : UInt64) : Payload :=
  let masked := value &&& bitMask count.toNat
  let place := fun i : Nat =>
    let currentBit : Int := start.toNat - i
    ((currentBit.tdiv 8 % 2 ^ 64).toNat, (currentBit.tmod 8 % 2 ^ 32).toNat)
  encodeBits place (fun i => count.toNat - 1 - i) masked count.toNat p

/-- `encode_can_signal`, of a signal as `resolve_signal` narrows it. -/
def encodeCanSignal (p : Payload) (s : Signal) (value : UInt64) : Payload :=
  match s.order with
  | .intel => encodeIntel p (UInt16.ofNat s.start) (UInt8.ofNat s.count) value
  | .motorola => encodeMotorola p (UInt16.ofNat s.start) (UInt8.ofNat s.count) value

end Rust

/-! ## The C connector -/

namespace C

/-- `encode_intel`. The start is a `uint32_t`. -/
def encodeIntel (p : Payload) (start count : UInt32) (value : UInt64) : Payload :=
  let masked := value &&& bitMask count.toNat
  let place := fun i : Nat =>
    let absBit := start + UInt32.ofNat i
    ((absBit / 8).toNat, (absBit % 8).toNat)
  encodeBits place (fun i => i) masked count.toNat p

/-- `encode_motorola`. A negative bit shifts by more than the width, which C leaves undefined: here it
touches no byte. -/
def encodeMotorola (p : Payload) (start count : UInt32) (value : UInt64) : Payload :=
  let masked := value &&& bitMask count.toNat
  let place := fun i : Nat =>
    let bit : Int := start.toInt32.toInt - i
    if bit < 0 then (8, 0) else (bit.toNat / 8, bit.toNat % 8)
  encodeBits place (fun i => count.toNat - 1 - i) masked count.toNat p

def encodeSignal (p : Payload) (s : Signal) (value : UInt64) : Payload :=
  match s.order with
  | .intel => encodeIntel p (UInt32.ofNat s.start) (UInt32.ofNat s.count) value
  | .motorola => encodeMotorola p (UInt32.ofNat s.start) (UInt32.ofNat s.count) value

end C

/-! ## What a signal writes -/

/-- The position of a bit of the value, the least significant one first. -/
def Signal.position (s : Signal) (i : Nat) : Nat :=
  match s.order with
  | .intel => s.start + i
  | .motorola => s.start + 1 - s.count + i

/-- Whether a signal has a bit of the payload. -/
def Signal.Has (s : Signal) (n : Nat) : Prop := ∃ i < s.count, n = s.position i

/-- All bits of a signal are bits of the payload. -/
def Signal.InPayload (s : Signal) : Prop :=
  match s.order with
  | .intel => s.start + s.count ≤ 64
  | .motorola => s.count ≤ s.start + 1 ∧ s.start < 64

instance instDecidableInPayload (s : Signal) : Decidable s.InPayload := by
  unfold Signal.InPayload
  cases s.order <;> infer_instance

theorem bit_setByte {b i v : UInt8} {k : Nat} (hi : i.toNat < 8) (hk : k < 8)
    (hv : v = 0 ∨ v = 1) :
    (setByte b i v).toBitVec.getLsbD k =
      if k = i.toNat then decide (v = 1) else b.toBitVec.getLsbD k := by
  have hmod : i.toNat % 8 = i.toNat := Nat.mod_eq_of_lt hi
  unfold setByte
  by_cases hki : k = i.toNat
  · subst hki
    rcases hv with rfl | rfl
    · simp [hmod, hi]
    · simp [hmod, hi]
  · have hsub : k < i.toNat ∨ k - i.toNat ≠ 0 := by omega
    rcases hv with rfl | rfl
    · simp [hk, hmod, hki]
      exact fun _ => hsub
    · rcases hsub with hsub | hsub
      · simp [hk, hmod, hki, hsub]
      · simp [hk, hmod, hki, hsub]

/-- Setting one bit of the payload. -/
theorem bit_setBit {p : Payload} {pos n : Nat} {v : UInt8} (hpos : pos < 64)
    (hv : v = 0 ∨ v = 1) :
    bit (setBit p (pos / 8, pos % 8) v) n = if n = pos then decide (v = 1) else bit p n := by
  have hbyte : pos / 8 < 8 := by omega
  have hmod : (UInt8.ofNat (pos % 8)).toNat = pos % 8 := by
    rw [UInt8.toNat_ofNat_of_lt']
    exact Nat.lt_trans (Nat.mod_lt pos (by decide)) (by decide)
  unfold bit setBit
  rw [dif_pos hbyte, Vector.getElem?_set]
  by_cases hn : n / 8 = pos / 8
  · have hlt : (UInt8.ofNat (pos % 8)).toNat < 8 := by
      rw [hmod]
      exact Nat.mod_lt pos (by decide)
    rw [if_pos hn.symm, Option.getD_some, bit_setByte hlt (Nat.mod_lt n (by decide)) hv, hmod]
    have hiff : n % 8 = pos % 8 ↔ n = pos := by omega
    have hget : p[n / 8]? = some p[pos / 8] := by
      rw [hn]
      exact Vector.getElem?_eq_getElem hbyte
    rw [hget, Option.getD_some]
    simp only [hiff]
  · have hne : n ≠ pos := fun h => hn (by rw [h])
    rw [if_neg (Ne.symm hn), if_neg hne]

section EncodeBits

variable {places : Nat → Nat × Nat} {shift : Nat → Nat} {pos : Nat → Nat} {value : UInt64}
  {count : Nat} {p : Payload}

theorem encodeBits_succ : encodeBits places shift value (count + 1) p =
    setBit (encodeBits places shift value count p) (places count)
      ((value >>> UInt64.ofNat (shift count)) &&& 1).toUInt8 := by
  unfold encodeBits
  rw [List.range_succ, List.foldl_append]
  rfl

theorem bitOf (k : Nat) (hk : k < 64) :
    ((value >>> UInt64.ofNat k) &&& 1).toUInt8 =
      if value.toBitVec.getLsbD k then 1 else 0 := by
  have hshift : (value >>> UInt64.ofNat k).toNat = value.toNat / 2 ^ k := by
    rw [UInt64.toNat_shiftRight, UInt64.toNat_ofNat_of_lt' (Nat.lt_trans hk (by decide)),
      Nat.mod_eq_of_lt hk,
      Nat.shiftRight_eq_div_pow]
  have hbit : value.toBitVec.getLsbD k = decide (value.toNat / 2 ^ k % 2 = 1) := by
    rw [BitVec.getLsbD, UInt64.toNat_toBitVec, Nat.testBit_eq_decide_div_mod_eq]
  apply UInt8.toNat_inj.mp
  rw [UInt64.toNat_toUInt8, UInt64.toNat_and, hshift, hbit, UInt64.toNat_one, Nat.and_one_is_mod]
  rcases Nat.mod_two_eq_zero_or_one (value.toNat / 2 ^ k) with h | h
  · rw [h]
    rfl
  · rw [h]
    rfl

/-- The loop sets the bits at the signal's places and no others. -/
theorem bit_encodeBits (hplaces : ∀ i < count, places i = (pos i / 8, pos i % 8))
    (hlt : ∀ i < count, pos i < 64) (hshift : ∀ i < count, shift i < 64)
    (hinj : ∀ i < count, ∀ j < count, pos i = pos j → i = j) (n : Nat) :
    (∀ i < count, n = pos i →
      bit (encodeBits places shift value count p) n = value.toBitVec.getLsbD (shift i)) ∧
    ((∀ i < count, n ≠ pos i) → bit (encodeBits places shift value count p) n = bit p n) := by
  -- the places are distinct, so the last step leaves the earlier ones as they are
  induction count with
  | zero => exact ⟨fun i hi => absurd hi (Nat.not_lt_zero i), fun _ => rfl⟩
  | succ count ih =>
    have hbit := @bitOf value (shift count) (hshift count (Nat.lt_succ_self count))
    have hv : ((value >>> UInt64.ofNat (shift count)) &&& 1).toUInt8 = 0 ∨
        ((value >>> UInt64.ofNat (shift count)) &&& 1).toUInt8 = 1 := by
      rw [hbit]
      split
      · exact .inr rfl
      · exact .inl rfl
    obtain ⟨hin, hout⟩ := ih (fun i hi => hplaces i (Nat.lt_succ_of_lt hi))
      (fun i hi => hlt i (Nat.lt_succ_of_lt hi)) (fun i hi => hshift i (Nat.lt_succ_of_lt hi))
      (fun i hi j hj => hinj i (Nat.lt_succ_of_lt hi) j (Nat.lt_succ_of_lt hj))
    rw [encodeBits_succ, hplaces count (Nat.lt_succ_self count),
      bit_setBit (hlt count (Nat.lt_succ_self count)) hv]
    constructor
    · intro i hi hn
      by_cases hlast : n = pos count
      · obtain rfl : i = count := hinj i hi count (Nat.lt_succ_self count) (hn.symm.trans hlast)
        rw [if_pos hlast, hbit]
        cases value.toBitVec.getLsbD (shift i) <;> rfl
      · have hne : i ≠ count := fun h => hlast (h ▸ hn)
        rw [if_neg hlast]
        exact hin i (by omega) hn
    · intro hnot
      rw [if_neg (hnot count (Nat.lt_succ_self count))]
      exact hout fun i hi => hnot i (Nat.lt_succ_of_lt hi)

end EncodeBits

/-! ## What the connectors write -/

theorem getLsbD_bitMask {count i : Nat} (hi : i < 64) :
    (bitMask count).toBitVec.getLsbD i = decide (i < count) := by
  unfold bitMask
  by_cases h64 : count ≥ 64
  · have hones : (-1 : UInt64).toBitVec = BitVec.allOnes 64 := by decide
    have hlt : i < count := Nat.lt_of_lt_of_le hi h64
    rw [if_pos h64, hones, BitVec.getLsbD_allOnes, decide_eq_true hi, decide_eq_true hlt]
  · have hlt : count < 64 := Nat.not_le.mp h64
    have hpow : 2 ^ count < 2 ^ 64 := Nat.pow_lt_pow_right (by decide) hlt
    have hshift : ((1 : UInt64) <<< UInt64.ofNat count).toNat = 2 ^ count := by
      rw [UInt64.toNat_shiftLeft, UInt64.toNat_ofNat_of_lt' (Nat.lt_trans hlt (by decide)),
        Nat.mod_eq_of_lt hlt, UInt64.toNat_one, Nat.one_shiftLeft, Nat.mod_eq_of_lt hpow]
    have hsub : ((1 : UInt64) <<< UInt64.ofNat count - 1).toNat = 2 ^ count - 1 := by
      rw [UInt64.toNat_sub_of_le, hshift, UInt64.toNat_one]
      rw [UInt64.le_iff_toNat_le, hshift, UInt64.toNat_one]
      exact Nat.one_le_two_pow
    rw [if_neg h64, BitVec.getLsbD, UInt64.toNat_toBitVec, hsub, Nat.testBit_two_pow_sub_one]

/-- What a write of a signal leaves: the bits of the value at the positions of the signal, and every
other bit as it was. -/
structure Writes (s : Signal) (value : UInt64) (p p' : Payload) : Prop where
  written : ∀ i < s.count, bit p' (s.position i) = value.toBitVec.getLsbD i
  kept : ∀ n, ¬ s.Has n → bit p' n = bit p n

section Signals

variable {s : Signal} {places : Nat → Nat × Nat} {value : UInt64} {p : Payload}

theorem writes_intel (horder : s.order = .intel) (hin : s.start + s.count ≤ 64)
    (hplaces : ∀ i < s.count, places i = ((s.start + i) / 8, (s.start + i) % 8)) :
    Writes s value p (encodeBits places (fun i => i) (value &&& bitMask s.count) s.count p) := by
  have hpos : ∀ i, s.position i = s.start + i := by
    intro i
    rw [Signal.position, horder]
  have hbits := @bit_encodeBits _ (fun i => i) _ (value &&& bitMask s.count) _ p hplaces
    (fun i hi => by omega) (fun i hi => by omega) (fun i _ j _ h => by omega)
  constructor
  · intro i hi
    rw [hpos, (hbits (s.start + i)).1 i hi rfl, UInt64.toBitVec_and, BitVec.getLsbD_and,
      getLsbD_bitMask (by omega), decide_eq_true hi, Bool.and_true]
  · intro n hn
    apply (hbits n).2
    intro i hi heq
    exact hn ⟨i, hi, by rw [hpos, heq]⟩

/-- A Motorola signal that stays above bit 0 is written at its places. -/
theorem writes_motorola (horder : s.order = .motorola) (hcount : s.count ≤ s.start + 1)
    (hstart : s.start < 64)
    (hplaces : ∀ i < s.count, places i = ((s.start - i) / 8, (s.start - i) % 8)) :
    Writes s value p
      (encodeBits places (fun i => s.count - 1 - i) (value &&& bitMask s.count) s.count p) := by
  have hpos : ∀ i, s.position i = s.start + 1 - s.count + i := by
    intro i
    rw [Signal.position, horder]
  have hbits := @bit_encodeBits _ (fun i => s.count - 1 - i) _ (value &&& bitMask s.count) _ p
    hplaces
    (fun i hi => by omega) (fun i hi => by omega) (fun i hi j hj h => by omega)
  constructor
  · intro i hi
    -- the most significant bit is written first
    have hround := (hbits (s.start + 1 - s.count + i)).1 (s.count - 1 - i) (by omega) (by omega)
    rw [show s.count - 1 - (s.count - 1 - i) = i by omega] at hround
    rw [hpos, hround, UInt64.toBitVec_and, BitVec.getLsbD_and, getLsbD_bitMask (by omega),
      decide_eq_true hi, Bool.and_true]
  · intro n hn
    apply (hbits n).2
    intro i hi heq
    exact hn ⟨s.count - 1 - i, by omega, by rw [hpos]; omega⟩

/-- The Rust connector writes a signal inside the payload at its bits, and no others. -/
theorem Rust.writes (hin : s.InPayload) : Writes s value p (Rust.encodeCanSignal p s value) := by
  unfold Signal.InPayload at hin
  unfold Rust.encodeCanSignal
  cases horder : s.order with
  | intel =>
    rw [horder] at hin
    have hcount : (UInt8.ofNat s.count).toNat = s.count :=
      UInt8.toNat_ofNat_of_lt' (show s.count < 256 by omega)
    simp only [Rust.encodeIntel, hcount]
    apply writes_intel horder hin
    intro i hi
    have hadd : UInt16.ofNat s.start + UInt16.ofNat i = UInt16.ofNat (s.start + i) :=
      (UInt16.ofNat_add _ _).symm
    have hnat : (UInt16.ofNat (s.start + i)).toNat = s.start + i :=
      UInt16.toNat_ofNat_of_lt' (show s.start + i < 65536 by omega)
    rw [hadd, UInt16.toNat_div, UInt16.toNat_mod, hnat]
    rfl
  | motorola =>
    rw [horder] at hin
    have hcount : (UInt8.ofNat s.count).toNat = s.count :=
      UInt8.toNat_ofNat_of_lt' (show s.count < 256 by omega)
    have hstart : (UInt16.ofNat s.start).toNat = s.start :=
      UInt16.toNat_ofNat_of_lt' (show s.start < 65536 by omega)
    simp only [Rust.encodeMotorola, hcount, hstart]
    apply writes_motorola horder hin.1 hin.2
    intro i hi
    -- inside the payload the position never goes below bit 0
    have hcurrent : (s.start : Int) - i = ((s.start - i : Nat) : Int) := by omega
    rw [hcurrent, Int.tdiv_eq_ediv_of_nonneg (by omega), Int.tmod_eq_emod_of_nonneg (by omega)]
    apply Prod.ext
    · show ((((s.start - i : Nat) : Int) / 8) % 2 ^ 64).toNat = (s.start - i) / 8
      omega
    · show ((((s.start - i : Nat) : Int) % 8) % 2 ^ 32).toNat = (s.start - i) % 8
      omega

/-- So does the C connector. -/
theorem C.writes (hin : s.InPayload) : Writes s value p (C.encodeSignal p s value) := by
  unfold Signal.InPayload at hin
  unfold C.encodeSignal
  cases horder : s.order with
  | intel =>
    rw [horder] at hin
    have hcount : (UInt32.ofNat s.count).toNat = s.count :=
      UInt32.toNat_ofNat_of_lt' (show s.count < 2 ^ 32 by omega)
    simp only [C.encodeIntel, hcount]
    apply writes_intel horder hin
    intro i hi
    have hadd : UInt32.ofNat s.start + UInt32.ofNat i = UInt32.ofNat (s.start + i) :=
      (UInt32.ofNat_add _ _).symm
    have hnat : (UInt32.ofNat (s.start + i)).toNat = s.start + i :=
      UInt32.toNat_ofNat_of_lt' (show s.start + i < 2 ^ 32 by omega)
    rw [hadd, UInt32.toNat_div, UInt32.toNat_mod, hnat]
    rfl
  | motorola =>
    rw [horder] at hin
    have hcount : (UInt32.ofNat s.count).toNat = s.count :=
      UInt32.toNat_ofNat_of_lt' (show s.count < 2 ^ 32 by omega)
    have hstart : (UInt32.ofNat s.start).toInt32.toInt = s.start :=
      Int32.toInt_ofNat_of_lt (show s.start < 2 ^ 31 by omega)
    simp only [C.encodeMotorola, hcount, hstart]
    apply writes_motorola horder hin.1 hin.2
    intro i hi
    have hnonneg : ¬ (s.start : Int) - i < 0 := by omega
    have hnat : ((s.start : Int) - i).toNat = s.start - i := by omega
    rw [if_neg hnonneg, hnat]

end Signals

end TedgeDot.Canbus
