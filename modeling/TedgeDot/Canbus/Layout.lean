import TedgeDot.Canbus.Signal

/-!
# The layout of a signal in a frame

`extract_can_signal` and `encode_can_signal` of the Rust connector and their C counterparts, held
against the layout of a DBC file: an Intel signal counts up from its least significant bit; a Motorola
signal runs down from its most significant bit and goes on at bit 7 of the next byte.

The Rust functions panic on a shift by the width of its operand or more, and C leaves such a shift
undefined: here an extraction has no result then, and `ShiftsInRange` says so of an encoding.

- `laid_out_iff`: which signals of a frame are read and written in their layout.
-/

namespace TedgeDot.Canbus

/-! ## The layout -/

/-- How many bits come before the most significant one, byte by byte and from bit 7 down in each. -/
def Signal.before (s : Signal) : Nat := 8 * (s.start / 8) + (7 - s.start % 8)

/-- The position of a bit of the value, the least significant one first. -/
def Signal.dbcPosition (s : Signal) (i : Nat) : Nat :=
  match s.order with
  | .intel => s.start + i
  | .motorola =>
    let k := s.before + (s.count - 1 - i)
    8 * (k / 8) + (7 - k % 8)

def Signal.InFrame (s : Signal) : Prop :=
  match s.order with
  | .intel => s.start + s.count ≤ 64
  | .motorola => s.before + s.count ≤ 64

instance instDecidableInFrame : (s : Signal) → Decidable s.InFrame
  | ⟨_, start, count, .intel⟩ => inferInstanceAs (Decidable (start + count ≤ 64))
  | ⟨canId, start, count, .motorola⟩ =>
    inferInstanceAs (Decidable (Signal.before ⟨canId, start, count, .motorola⟩ + count ≤ 64))

/-- The number is formed by the bits of the signal. -/
def Forms (s : Signal) (p : Payload) (v : UInt64) : Prop :=
  ∀ i < 64, v.toBitVec.getLsbD i = (decide (i < s.count) && bit p (s.dbcPosition i))

/-- The bits of the signal are those of the value, and every other bit is as it was. -/
structure Sets (s : Signal) (value : UInt64) (p p' : Payload) : Prop where
  written : ∀ i < s.count, bit p' (s.dbcPosition i) = value.toBitVec.getLsbD i
  kept : ∀ n, (∀ i < s.count, n ≠ s.dbcPosition i) → bit p' n = bit p n

/-! ## Extraction -/

/-- The bytes of a payload as one number, the first byte the least significant. -/
def raw (p : Payload) : UInt64 :=
  (List.finRange 8).foldl (fun raw i => raw ||| ((p.get i).toUInt64 <<< UInt64.ofNat (i * 8))) 0

/-- A bit of a byte of a payload; a shift by 8 or more has no result. -/
def byteBit (p : Payload) (byteIdx bitIdx : Nat) : Option UInt8 :=
  match p[byteIdx]? with
  | some b => if bitIdx < 8 then some ((b >>> UInt8.ofNat bitIdx) &&& 1) else none
  | none => some 0

namespace Rust

def extractIntel (p : Payload) (start : UInt16) (count : UInt8) : Option UInt64 :=
  if start.toNat < 64 then some ((raw p >>> start.toUInt64) &&& bitMask count.toNat) else none

/-- The byte and the bit of a position, as `extract_motorola` and `encode_motorola` cast them. -/
def motorolaPlace (currentBit : Int) : Nat × Nat :=
  ((currentBit.tdiv 8 % 2 ^ 64).toNat, (currentBit.tmod 8 % 2 ^ 32).toNat)

def extractMotorola (p : Payload) (start : UInt16) (count : UInt8) : Option UInt64 :=
  (List.range count.toNat).foldlM (fun result (i : Nat) => do
    let place := motorolaPlace (start.toNat - i)
    let bitVal ← byteBit p place.1 place.2
    return (result <<< 1) ||| bitVal.toUInt64) 0

/-- `extract_can_signal`, of a signal as `resolve_signal` narrows it. -/
def extractCanSignal (p : Payload) (s : Signal) : Option UInt64 :=
  match s.order with
  | .intel => extractIntel p (UInt16.ofNat s.start) (UInt8.ofNat s.count)
  | .motorola => extractMotorola p (UInt16.ofNat s.start) (UInt8.ofNat s.count)

/-- No shift of `encode_can_signal` is by the width of its operand or more. -/
def ShiftsInRange (s : Signal) : Prop :=
  let start := UInt16.ofNat s.start
  let count := UInt8.ofNat s.count
  match s.order with
  | .intel => ∀ i < count.toNat, i < 64 ∧ ((start + UInt16.ofNat i) % 8).toNat < 8
  | .motorola => ∀ i < count.toNat, count.toNat - 1 - i < 64 ∧
      ((motorolaPlace (start.toNat - i)).1 < 8 → (motorolaPlace (start.toNat - i)).2 < 8)

end Rust

namespace C

def extractIntel (p : Payload) (start count : UInt32) : Option UInt64 :=
  if start.toNat < 64 then some ((raw p >>> start.toUInt64) &&& bitMask count.toNat) else none

/-- A bit of a payload at a position that may be negative; a negative shift has no result. -/
def motorolaBit (p : Payload) (bit : Int) : Option UInt8 :=
  let byteIdx := bit.tdiv 8
  if 0 ≤ byteIdx ∧ byteIdx < 8 then
    if 0 ≤ bit.tmod 8 then byteBit p byteIdx.toNat (bit.tmod 8).toNat else none
  else some 0

def extractMotorola (p : Payload) (start count : UInt32) : Option UInt64 :=
  (List.range count.toNat).foldlM (fun result (i : Nat) => do
    let bitVal ← motorolaBit p (start.toInt32.toInt - i)
    return (result <<< 1) ||| bitVal.toUInt64) 0

def extractSignal (p : Payload) (s : Signal) : Option UInt64 :=
  match s.order with
  | .intel => extractIntel p (UInt32.ofNat s.start) (UInt32.ofNat s.count)
  | .motorola => extractMotorola p (UInt32.ofNat s.start) (UInt32.ofNat s.count)

/-- No shift of `encode_signal` is negative, or by the width of its operand or more. -/
def ShiftsInRange (s : Signal) : Prop :=
  let start := UInt32.ofNat s.start
  let count := UInt32.ofNat s.count
  match s.order with
  | .intel => ∀ i < count.toNat, i < 64 ∧ ((start + UInt32.ofNat i) % 8).toNat < 32
  | .motorola => ∀ i < count.toNat, count.toNat - 1 - i < 64 ∧
      (0 ≤ (start.toInt32.toInt - i).tdiv 8 → (start.toInt32.toInt - i).tdiv 8 < 8 →
        0 ≤ (start.toInt32.toInt - i).tmod 8)

end C

/-- Both connectors read and write a signal in its layout, without a shift out of range. -/
structure LaidOut (s : Signal) : Prop where
  extracted : ∀ p, ∃ v, Rust.extractCanSignal p s = some v ∧ C.extractSignal p s = some v ∧
    Forms s p v
  encoded : ∀ p value, Rust.encodeCanSignal p s value = C.encodeSignal p s value ∧
    Sets s value p (Rust.encodeCanSignal p s value)
  back : ∀ p value, ∃ v, Rust.extractCanSignal (Rust.encodeCanSignal p s value) s = some v ∧
    v.toNat = value.toNat % 2 ^ s.count
  shifts : Rust.ShiftsInRange s ∧ C.ShiftsInRange s

/-- An Intel signal that begins inside the frame, or a Motorola signal that ends in the byte that it
begins in. -/
def Signal.Straight (s : Signal) : Prop :=
  match s.order with
  | .intel => s.start < 64
  | .motorola => s.count ≤ s.start % 8 + 1

/-! ## What is extracted -/

/-- A byte in its place in the 64 bits. -/
theorem getLsbD_placed (b : UInt8) {i n : Nat} (hi : i < 8) (hn : n < 64) :
    (b.toUInt64 <<< UInt64.ofNat (i * 8)).toBitVec.getLsbD n =
      (decide (n / 8 = i) && b.toBitVec.getLsbD (n % 8)) := by
  have hshift : (UInt64.ofNat (i * 8)).toNat % 64 = i * 8 := by
    rw [UInt64.toNat_ofNat_of_lt' (show i * 8 < 2 ^ 64 by omega)]
    omega
  have htest : (b.toUInt64 <<< UInt64.ofNat (i * 8)).toBitVec.getLsbD n =
      (decide (i * 8 ≤ n) && b.toNat.testBit (n - i * 8)) := by
    rw [BitVec.getLsbD, UInt64.toNat_toBitVec, UInt64.toNat_shiftLeft, hshift,
      Nat.testBit_mod_two_pow, decide_eq_true hn, Bool.true_and, Nat.testBit_shiftLeft,
      UInt8.toNat_toUInt64]
  rw [htest]
  by_cases hin : n / 8 = i
  · have hle : i * 8 ≤ n := by omega
    have hsub : n - i * 8 = n % 8 := by omega
    rw [decide_eq_true hle, decide_eq_true hin, hsub]
    rfl
  · rw [decide_eq_false hin, Bool.false_and]
    by_cases hle : i * 8 ≤ n
    · have hlarge : b.toNat < 2 ^ (n - i * 8) :=
        Nat.lt_of_lt_of_le b.toNat_lt (Nat.pow_le_pow_right (by decide) (by omega))
      rw [Nat.testBit_lt_two_pow hlarge, Bool.and_false]
    · rw [decide_eq_false hle, Bool.false_and]

/-- The bits of the assembled payload are the payload's. -/
theorem getLsbD_raw (p : Payload) {n : Nat} (hn : n < 64) :
    (raw p).toBitVec.getLsbD n = bit p n := by
  -- the bytes that the loop has put in place so far
  have hloop : ∀ (l : List (Fin 8)) (acc : UInt64),
      (l.foldl (fun raw i => raw ||| ((p.get i).toUInt64 <<< UInt64.ofNat (i * 8)))
        acc).toBitVec.getLsbD n =
      (acc.toBitVec.getLsbD n || l.any fun i => n / 8 = i && (p.get i).toBitVec.getLsbD (n % 8)) := by
    intro l
    induction l with
    | nil =>
      intro acc
      simp
    | cons i l ih =>
      intro acc
      rw [List.foldl_cons, ih, UInt64.toBitVec_or, BitVec.getLsbD_or,
        getLsbD_placed _ i.isLt hn, List.any_cons, Bool.or_assoc]
  have hbyte : n / 8 < 8 := by omega
  have hget : bit p n = (p.get ⟨n / 8, hbyte⟩).toBitVec.getLsbD (n % 8) := by
    unfold bit
    rw [Vector.getElem?_eq_getElem hbyte]
    rfl
  unfold raw
  rw [hloop, hget, Bool.eq_iff_iff]
  simp only [UInt64.toBitVec_zero, BitVec.getLsbD_zero, Bool.false_or, List.any_eq_true,
    List.mem_finRange, true_and, Bool.and_eq_true, decide_eq_true_eq]
  constructor
  · rintro ⟨i, hi, hbit⟩
    rwa [show (⟨n / 8, hbyte⟩ : Fin 8) = i from Fin.ext hi]
  · intro hbit
    exact ⟨⟨n / 8, hbyte⟩, rfl, hbit⟩

theorem getLsbD_shifted (p : Payload) {start : UInt64} {count i : Nat}
    (hin : start.toNat + count ≤ 64) (hstart : start.toNat < 64) (hi : i < 64) :
    ((raw p >>> start) &&& bitMask count).toBitVec.getLsbD i =
      (decide (i < count) && bit p (start.toNat + i)) := by
  rw [UInt64.toBitVec_and, BitVec.getLsbD_and, getLsbD_bitMask hi, Bool.and_comm]
  by_cases hlt : i < count
  · have hmod : (start.toBitVec % 64).toNat = start.toNat := by
      rw [BitVec.toNat_umod]
      exact Nat.mod_eq_of_lt hstart
    rw [UInt64.toBitVec_shiftRight, BitVec.ushiftRight_eq', hmod, BitVec.getLsbD_ushiftRight,
      getLsbD_raw p (by omega)]
  · rw [decide_eq_false hlt, Bool.false_and, Bool.false_and]

/-- The bit test of the C connector, inside the payload. -/
theorem byteBit_eq (p : Payload) {byteIdx bitIdx : Nat} (hbyte : byteIdx < 8) (hbit : bitIdx < 8) :
    byteBit p byteIdx bitIdx = some (if bit p (8 * byteIdx + bitIdx) then 1 else 0) := by
  have hnat : (UInt8.ofNat bitIdx).toNat % 8 = bitIdx := by
    rw [UInt8.toNat_ofNat_of_lt' (show bitIdx < 2 ^ 8 by omega), Nat.mod_eq_of_lt hbit]
  have hdiv : (8 * byteIdx + bitIdx) / 8 = byteIdx := by omega
  have hmod : (8 * byteIdx + bitIdx) % 8 = bitIdx := by omega
  unfold byteBit bit
  rw [hdiv, hmod, Vector.getElem?_eq_getElem hbyte]
  simp only [if_pos hbit, Option.getD_some, Option.some.injEq]
  apply UInt8.toNat_inj.mp
  have htest : (p[byteIdx]).toBitVec.getLsbD bitIdx =
      decide (p[byteIdx].toNat / 2 ^ bitIdx % 2 = 1) := Nat.testBit_eq_decide_div_mod_eq
  rw [UInt8.toNat_and, UInt8.toNat_shiftRight, hnat, UInt8.toNat_one, Nat.and_one_is_mod,
    Nat.shiftRight_eq_div_pow]
  simp only [htest]
  rcases Nat.mod_two_eq_zero_or_one (p[byteIdx].toNat / 2 ^ bitIdx) with h | h
  · simp [h]
  · simp [h]

/-- A loop that shifts in one bit a round, the most significant one first. -/
def collect (take : Nat → Option UInt8) (count : Nat) : Option UInt64 :=
  (List.range count).foldlM (fun result i => do
    let bitVal ← take i
    return (result <<< 1) ||| bitVal.toUInt64) 0

section Collect

variable {take : Nat → Option UInt8} {count : Nat}

theorem collect_succ : collect take (count + 1) = (do
    let result ← collect take count
    let bitVal ← take count
    return (result <<< 1) ||| bitVal.toUInt64) := by
  unfold collect
  rw [List.range_succ, List.foldlM_append]
  simp only [List.foldlM_cons, List.foldlM_nil, bind_pure]

/-- A loop that takes the bits most significant first. -/
theorem collect_bits {bits : Nat → Bool}
    (htake : ∀ i < count, take i = some (if bits i then 1 else 0)) :
    ∃ v, collect take count = some v ∧
      ∀ i < 64, v.toBitVec.getLsbD i = (decide (i < count) && bits (count - 1 - i)) := by
  induction count with
  | zero => exact ⟨0, rfl, fun i _ => by simp⟩
  | succ count ih =>
    obtain ⟨v, hv, hbits⟩ := ih fun i hi => htake i (Nat.lt_succ_of_lt hi)
    refine ⟨(v <<< 1) ||| (if bits count then 1 else 0 : UInt8).toUInt64, ?_, ?_⟩
    · rw [collect_succ, hv, htake count (Nat.lt_succ_self count)]
      rfl
    · intro i hi
      have hlow : (if bits count then 1 else 0 : UInt8).toUInt64.toBitVec.getLsbD i =
          (decide (i = 0) && bits count) := by
        cases bits count <;> cases i <;> simp [BitVec.getLsbD_one]
      have hshift : (v <<< 1).toBitVec.getLsbD i =
          (decide (1 ≤ i) && v.toBitVec.getLsbD (i - 1)) := by
        rw [UInt64.toBitVec_shiftLeft, BitVec.shiftLeft_eq', BitVec.getLsbD_shiftLeft]
        simp [hi, Nat.one_le_iff_ne_zero]
      rw [UInt64.toBitVec_or, BitVec.getLsbD_or, hlow, hshift]
      cases i with
      | zero => simp
      | succ i =>
        have hlt : (i + 1 < count + 1) = (i < count) := by simp
        have hround : count - (i + 1) = count - 1 - i := by omega
        simp only [Nat.succ_ne_zero, decide_false, Bool.false_and, Bool.or_false, hlt,
          Nat.add_sub_cancel, hbits i (by omega), Nat.le_add_left, decide_true, Bool.true_and,
          hround]

theorem collect_zeros (htake : ∀ i < count, ∀ b, take i = some b → b = 0) {v : UInt64}
    (hv : collect take count = some v) : v = 0 := by
  induction count generalizing v with
  | zero => exact (Option.some.inj hv).symm
  | succ count ih =>
    rw [collect_succ] at hv
    simp only [Option.bind_eq_bind, Option.bind_eq_some_iff, Option.pure_def,
      Option.some.injEq] at hv
    obtain ⟨result, hresult, b, hb, rfl⟩ := hv
    rw [ih (fun i hi => htake i (Nat.lt_succ_of_lt hi)) hresult,
      htake count (Nat.lt_succ_self count) b hb]
    rfl

end Collect

/-! ## The signals that are laid out -/

section LaidOut

variable {s : Signal} {p : Payload}

theorem dbcPosition_straight (hstraight : s.Straight) {i : Nat} (hi : i < s.count) :
    s.dbcPosition i = s.position i := by
  unfold Signal.Straight at hstraight
  unfold Signal.dbcPosition Signal.position Signal.before
  cases horder : s.order with
  | intel => rfl
  | motorola =>
    rw [horder] at hstraight
    simp only at hstraight ⊢
    omega

theorem inPayload_of_straight (hin : s.InFrame) (hstraight : s.Straight) (hcount : 0 < s.count) :
    s.InPayload := by
  unfold Signal.InFrame Signal.before at hin
  unfold Signal.Straight at hstraight
  unfold Signal.InPayload
  cases horder : s.order with
  | intel =>
    rw [horder] at hin
    exact hin
  | motorola =>
    rw [horder] at hin hstraight
    simp only at hin hstraight ⊢
    omega

theorem sets_of_writes (hstraight : s.Straight) {value : UInt64} {p' : Payload}
    (hwrites : Writes s value p p') : Sets s value p p' := by
  constructor
  · intro i hi
    rw [dbcPosition_straight hstraight hi]
    exact hwrites.written i hi
  · intro n hn
    apply hwrites.kept n
    rintro ⟨i, hi, heq⟩
    exact hn i hi (by rw [heq, dbcPosition_straight hstraight hi])

theorem payload_ext {p q : Payload} (h : ∀ n < 64, bit p n = bit q n) : p = q := by
  apply Vector.ext
  intro k hk
  apply UInt8.toBitVec_inj.mp
  apply BitVec.eq_of_getLsbD_eq
  intro j hj
  have hbit := h (8 * k + j) (by omega)
  unfold bit at hbit
  rwa [show (8 * k + j) / 8 = k by omega, show (8 * k + j) % 8 = j by omega,
    Vector.getElem?_eq_getElem hk, Vector.getElem?_eq_getElem hk] at hbit

theorem Writes.unique {value : UInt64} {p₁ p₂ : Payload} (h₁ : Writes s value p p₁)
    (h₂ : Writes s value p p₂) : p₁ = p₂ := by
  apply payload_ext
  intro n _
  by_cases hn : s.Has n
  · obtain ⟨i, hi, rfl⟩ := hn
    rw [h₁.written i hi, h₂.written i hi]
  · rw [h₁.kept n hn, h₂.kept n hn]

theorem encode_empty (hcount : s.count = 0) (value : UInt64) :
    Rust.encodeCanSignal p s value = p ∧ C.encodeSignal p s value = p := by
  unfold Rust.encodeCanSignal C.encodeSignal
  rw [hcount]
  cases s.order <;> exact ⟨rfl, rfl⟩

theorem encoded_of_straight (hin : s.InFrame) (hstraight : s.Straight) (p : Payload)
    (value : UInt64) : Rust.encodeCanSignal p s value = C.encodeSignal p s value ∧
      Sets s value p (Rust.encodeCanSignal p s value) := by
  rcases Nat.eq_zero_or_pos s.count with hcount | hcount
  · obtain ⟨hrust, hc⟩ := @encode_empty s p hcount value
    rw [hrust, hc]
    exact ⟨rfl, fun i hi => absurd hi (by omega), fun n _ => rfl⟩
  · have hpayload := inPayload_of_straight hin hstraight hcount
    have hrust := @Rust.writes s value p hpayload
    exact ⟨hrust.unique (C.writes hpayload), sets_of_writes hstraight hrust⟩

theorem back_of_forms {value v : UInt64} {p' : Payload} (hcount : s.count ≤ 64)
    (hsets : Sets s value p p') (hforms : Forms s p' v) :
    v.toNat = value.toNat % 2 ^ s.count := by
  apply Nat.eq_of_testBit_eq
  intro i
  rw [Nat.testBit_mod_two_pow]
  by_cases hi : i < s.count
  · have hbit : v.toNat.testBit i = _ := hforms i (by omega)
    rw [hbit, decide_eq_true hi, Bool.true_and, Bool.true_and, hsets.written i hi]
    rfl
  · rw [decide_eq_false hi, Bool.false_and]
    by_cases h64 : i < 64
    · have hbit : v.toNat.testBit i = _ := hforms i h64
      rw [hbit, decide_eq_false hi, Bool.false_and]
    · exact Nat.testBit_lt_two_pow
        (Nat.lt_of_lt_of_le v.toNat_lt (Nat.pow_le_pow_right (by decide) (by omega)))

theorem motorolaPlace_eq {start i : Nat} (hstart : start < 2 ^ 16) (hi : i ≤ start) :
    Rust.motorolaPlace (start - i) = ((start - i) / 8, (start - i) % 8) := by
  have hcurrent : (start : Int) - i = ((start - i : Nat) : Int) := by omega
  unfold Rust.motorolaPlace
  rw [hcurrent, Int.tdiv_eq_ediv_of_nonneg (by omega), Int.tmod_eq_emod_of_nonneg (by omega)]
  apply Prod.ext
  · show ((((start - i : Nat) : Int) / 8) % 2 ^ 64).toNat = (start - i) / 8
    omega
  · show ((((start - i : Nat) : Int) % 8) % 2 ^ 32).toNat = (start - i) % 8
    omega

/-- No cast of the start or the length of a signal inside the frame loses anything. -/
theorem narrowed (hin : s.InFrame) :
    (UInt16.ofNat s.start).toNat = s.start ∧ (UInt8.ofNat s.count).toNat = s.count ∧
    (UInt32.ofNat s.start).toNat = s.start ∧ (UInt32.ofNat s.count).toNat = s.count ∧
    (UInt32.ofNat s.start).toInt32.toInt = s.start ∧ s.start ≤ 71 ∧ s.count ≤ 64 := by
  have hbounds : s.start ≤ 71 ∧ s.count ≤ 64 := by
    unfold Signal.InFrame Signal.before at hin
    cases horder : s.order with
    | intel =>
      rw [horder] at hin
      simp only at hin
      omega
    | motorola =>
      rw [horder] at hin
      simp only at hin
      omega
  obtain ⟨hstart, hcount⟩ := hbounds
  exact ⟨UInt16.toNat_ofNat_of_lt' (show s.start < 65536 by omega),
    UInt8.toNat_ofNat_of_lt' (show s.count < 256 by omega),
    UInt32.toNat_ofNat_of_lt' (show s.start < 2 ^ 32 by omega),
    UInt32.toNat_ofNat_of_lt' (show s.count < 2 ^ 32 by omega),
    Int32.toInt_ofNat_of_lt (show s.start < 2 ^ 31 by omega), hstart, hcount⟩

/-- A signal that does not run across a byte boundary downwards is extracted as it is laid out. -/
theorem extracted_of_straight (hin : s.InFrame) (hstraight : s.Straight) (p : Payload) :
    ∃ v, Rust.extractCanSignal p s = some v ∧ C.extractSignal p s = some v ∧ Forms s p v := by
  obtain ⟨h16, h8, h32start, h32count, hint, -, -⟩ := narrowed hin
  unfold Rust.extractCanSignal C.extractSignal
  cases horder : s.order with
  | intel =>
    have hlt : s.start < 64 := by
      rw [Signal.Straight, horder] at hstraight
      exact hstraight
    have hbound : s.start + s.count ≤ 64 := by
      rw [Signal.InFrame, horder] at hin
      exact hin
    have hsame : (UInt16.ofNat s.start).toUInt64 = (UInt32.ofNat s.start).toUInt64 := by
      apply UInt64.toNat_inj.mp
      rw [UInt16.toNat_toUInt64, UInt32.toNat_toUInt64, h16, h32start]
    have hstart : (UInt32.ofNat s.start).toUInt64.toNat = s.start := by
      rw [UInt32.toNat_toUInt64, h32start]
    simp only [Rust.extractIntel, C.extractIntel, h16, h8, h32start, h32count, hsame, if_pos hlt]
    refine ⟨_, rfl, rfl, ?_⟩
    intro i hi
    rw [getLsbD_shifted p (by omega) (by omega) hi, hstart, Signal.dbcPosition, horder]
  | motorola =>
    have hcount : s.count ≤ s.start % 8 + 1 := by
      rw [Signal.Straight, horder] at hstraight
      exact hstraight
    have hframe : s.before + s.count ≤ 64 := by
      rw [Signal.InFrame, horder] at hin
      exact hin
    unfold Signal.before at hframe
    -- both loops take the bits down from the start, all of them in one byte
    have hrust : ∀ i < s.count,
        byteBit p (Rust.motorolaPlace (s.start - i)).1 (Rust.motorolaPlace (s.start - i)).2 =
          some (if bit p (s.start - i) then 1 else 0) := by
      intro i hi
      rw [motorolaPlace_eq (by omega) (by omega), byteBit_eq p (by omega) (by omega), Nat.div_add_mod]
    have hc : ∀ i < s.count, C.motorolaBit p (s.start - i) =
        some (if bit p (s.start - i) then 1 else 0) := by
      intro i hi
      have hcurrent : (s.start : Int) - i = ((s.start - i : Nat) : Int) := by omega
      have hdiv : (((s.start - i : Nat) : Int) / 8) = ((s.start - i) / 8 : Nat) := by omega
      have hmod : (((s.start - i : Nat) : Int) % 8) = ((s.start - i) % 8 : Nat) := by omega
      unfold C.motorolaBit
      rw [hcurrent, Int.tdiv_eq_ediv_of_nonneg (by omega), Int.tmod_eq_emod_of_nonneg (by omega),
        hdiv, hmod]
      simp only [Int.toNat_natCast]
      rw [if_pos (by omega), if_pos (by omega), byteBit_eq p (by omega) (by omega),
        Nat.div_add_mod]
    obtain ⟨v, hv, hbits⟩ := @collect_bits _ s.count _ hrust
    obtain ⟨w, hw, hbits'⟩ := @collect_bits _ s.count _ hc
    have hvw : w = v := by
      apply UInt64.toBitVec_inj.mp
      apply BitVec.eq_of_getLsbD_eq
      intro i hi
      rw [hbits i hi, hbits' i hi]
    refine ⟨v, ?_, ?_, ?_⟩
    · simp only [Rust.extractMotorola, h16, h8]
      exact hv
    · simp only [C.extractMotorola, h32count, hint]
      exact hw.trans (congrArg some hvw)
    · intro i hi
      rw [hbits i hi]
      by_cases hlt : i < s.count
      · have hpos : s.start - (s.count - 1 - i) = s.start + 1 - s.count + i := by omega
        rw [decide_eq_true hlt, dbcPosition_straight hstraight hlt, Signal.position, horder, hpos]
      · rw [decide_eq_false hlt, Bool.false_and, Bool.false_and]

/-- Its shifts are in range. -/
theorem shifts_of_straight (hin : s.InFrame) (hstraight : s.Straight) :
    Rust.ShiftsInRange s ∧ C.ShiftsInRange s := by
  obtain ⟨h16, h8, h32start, h32count, hint, hbound, hcount⟩ := narrowed hin
  unfold Rust.ShiftsInRange C.ShiftsInRange
  simp only [h16, h8, h32count, hint]
  cases horder : s.order with
  | intel =>
    constructor
    · intro i hi
      rw [UInt16.toNat_mod]
      exact ⟨by omega, Nat.mod_lt _ (by decide)⟩
    · intro i hi
      rw [UInt32.toNat_mod]
      exact ⟨by omega, Nat.lt_of_lt_of_le (Nat.mod_lt _ (by decide)) (by decide)⟩
  | motorola =>
    have hstart : s.count ≤ s.start % 8 + 1 := by
      rw [Signal.Straight, horder] at hstraight
      exact hstraight
    constructor
    · intro i hi
      rw [motorolaPlace_eq (by omega) (by omega)]
      exact ⟨by omega, fun _ => Nat.mod_lt _ (by decide)⟩
    · intro i hi
      refine ⟨by omega, fun _ _ => ?_⟩
      rw [Int.tmod_eq_emod_of_nonneg (by omega)]
      exact Int.emod_nonneg _ (by decide)

/-! ## The signals that are not -/

/-- Counting down from the start, no place lies above it. -/
theorem motorolaPlace_le {start i : Nat}
    (hbyte : (Rust.motorolaPlace (start - i)).1 < 8)
    (hbit : (Rust.motorolaPlace (start - i)).2 < 8) (hstart : start < 2 ^ 16) (hi : i < 2 ^ 16) :
    8 * (Rust.motorolaPlace (start - i)).1 + (Rust.motorolaPlace (start - i)).2 ≤ start := by
  by_cases hle : i ≤ start
  · rw [motorolaPlace_eq hstart hle]
    omega
  · -- below bit 0 the division rounds towards zero, and both casts wrap
    have hdiv : ((start : Int) - i).tdiv 8 = -(((i - start) / 8 : Nat) : Int) := by
      rw [show (start : Int) - i = -((i - start : Nat) : Int) by omega, Int.neg_tdiv,
        Int.tdiv_eq_ediv_of_nonneg (by omega)]
      omega
    have hmod : ((start : Int) - i).tmod 8 = -(((i - start) % 8 : Nat) : Int) := by
      rw [show (start : Int) - i = -((i - start : Nat) : Int) by omega, Int.neg_tmod,
        Int.tmod_eq_emod_of_nonneg (by omega)]
      omega
    unfold Rust.motorolaPlace at hbyte hbit ⊢
    rw [hdiv] at hbyte ⊢
    rw [hmod] at hbit ⊢
    simp only at hbyte hbit ⊢
    omega

/-- A Motorola signal that runs across a byte boundary is not extracted as it is laid out. -/
theorem not_laidOut_motorola (horder : s.order = .motorola) (hin : s.InFrame)
    (hcount : s.start % 8 + 1 < s.count) : ¬ LaidOut s := by
  intro h
  obtain ⟨h16, h8, -, -, -, hbound, -⟩ := narrowed hin
  have hframe : s.before + s.count ≤ 64 := by
    rw [Signal.InFrame, horder] at hin
    exact hin
  -- bit 7 of the next byte, which is a bit of the signal
  let q := 8 * (s.start / 8 + 1) + 7
  have hq : q < 64 := by
    unfold Signal.before at hframe
    show 8 * (s.start / 8 + 1) + 7 < 64
    omega
  have hposition : s.dbcPosition (s.count - 2 - s.start % 8) = q := by
    unfold Signal.dbcPosition Signal.before
    rw [horder]
    show _ = 8 * (s.start / 8 + 1) + 7
    simp only
    omega
  let p := setBit Payload.zero (q / 8, q % 8) 1
  have hzero : ∀ n, bit Payload.zero n = false := by
    intro n
    unfold bit Payload.zero
    rw [Vector.getElem?_replicate]
    split <;> simp
  have hbits : ∀ n, bit p n = decide (n = q) := by
    intro n
    show bit (setBit Payload.zero (q / 8, q % 8) 1) n = _
    rw [bit_setBit hq (.inr rfl), hzero]
    by_cases hn : n = q
    · rw [if_pos hn, decide_eq_true hn]
      rfl
    · rw [if_neg hn, decide_eq_false hn]
  obtain ⟨v, hv, -, hforms⟩ := h.extracted p
  have hset : v.toBitVec.getLsbD (s.count - 2 - s.start % 8) = true := by
    rw [hforms _ (by omega), decide_eq_true (by omega), hposition, hbits, decide_eq_true rfl]
    rfl
  -- every bit that is taken lies at the start or before, where the payload is zero
  have hread : v = 0 := by
    unfold Rust.extractCanSignal at hv
    rw [horder] at hv
    simp only [Rust.extractMotorola, h16, h8] at hv
    refine collect_zeros (fun i hi b hb => ?_) hv
    by_cases hbyte : (Rust.motorolaPlace (s.start - i)).1 < 8
    · by_cases hbit : (Rust.motorolaPlace (s.start - i)).2 < 8
      · have hle := motorolaPlace_le hbyte hbit (by omega) (by omega)
        have hne : 8 * (Rust.motorolaPlace (s.start - i)).1 +
            (Rust.motorolaPlace (s.start - i)).2 ≠ q := by
          show _ ≠ 8 * (s.start / 8 + 1) + 7
          omega
        rw [byteBit_eq p hbyte hbit, hbits, decide_eq_false hne] at hb
        exact (Option.some.inj hb).symm
      · unfold byteBit at hb
        rw [Vector.getElem?_eq_getElem hbyte] at hb
        simp only [if_neg hbit, reduceCtorEq] at hb
    · unfold byteBit at hb
      rw [Vector.getElem?_eq_none (Nat.not_lt.mp hbyte)] at hb
      exact (Option.some.inj hb).symm
  rw [hread] at hset
  simp at hset

end LaidOut

/-- **The layout**: a signal inside the frame is read and written in the layout of a DBC file, by both
connectors and with every shift in range, exactly when it is an Intel signal that begins inside the
frame or a Motorola signal that ends in the byte it begins in. -/
theorem laid_out_iff (s : Signal) (hin : s.InFrame) : LaidOut s ↔ s.Straight := by
  constructor
  · intro h
    unfold Signal.Straight
    cases horder : s.order with
    | intel =>
      obtain ⟨v, hv, -⟩ := h.extracted Payload.zero
      unfold Rust.extractCanSignal at hv
      rw [horder] at hv
      simp only [Rust.extractIntel, (narrowed hin).1] at hv
      by_contra hnot
      rw [if_neg hnot] at hv
      exact absurd hv (Option.some_ne_none v).symm
    | motorola =>
      by_contra hnot
      exact not_laidOut_motorola horder hin (Nat.not_le.mp hnot) h
  · intro hstraight
    have hextracted := extracted_of_straight hin hstraight
    have hencoded := encoded_of_straight hin hstraight
    refine ⟨hextracted, hencoded, ?_, shifts_of_straight hin hstraight⟩
    intro p value
    obtain ⟨v, hv, -, hforms⟩ := hextracted (Rust.encodeCanSignal p s value)
    obtain ⟨-, -, -, -, -, -, hcount⟩ := narrowed hin
    exact ⟨v, hv, back_of_forms hcount (hencoded p value).2 hforms⟩

/-- A Motorola signal in the low bits of the fourth byte. -/
theorem laid_out_iff_nibble : LaidOut ⟨0x1A0, 27, 4, .motorola⟩ ↔
    Signal.Straight ⟨0x1A0, 27, 4, .motorola⟩ :=
  laid_out_iff ⟨0x1A0, 27, 4, .motorola⟩ (by decide)

/-- The signal of sixteen bits from bit 7 down fills the first two bytes of the frame. Reading it counts
down past bit 0, to a shift by a negative amount. -/
theorem laid_out_not_across : Signal.InFrame ⟨0x1A0, 7, 16, .motorola⟩ ∧
    ¬ LaidOut ⟨0x1A0, 7, 16, .motorola⟩ := by
  refine ⟨by decide, fun h => ?_⟩
  obtain ⟨v, hv, -, -⟩ := h.extracted Payload.zero
  have hnone : Rust.extractCanSignal Payload.zero ⟨0x1A0, 7, 16, .motorola⟩ = none := by
    decide +kernel
  exact absurd (hnone.symm.trans hv) (Option.some_ne_none v).symm

end TedgeDot.Canbus
