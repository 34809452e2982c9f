import TedgeDot.Modbus.ReadBack

/-!
# Writing a bit-field

A bit-field point reads some bits of the value that its registers form. The Rust connector writes
them into the first register, as they stand there; the C connector writes the encoded value over the
registers.

- `contained_iff`: the points at which a write changes the bits that a read extracts, and no others.
-/

namespace TedgeDot.Modbus

open Codec Binary64

/-! ## The bits of a point -/

/-- The place of bit `j` of register `i` in the value of `count` registers. -/
def place (e : Endianness) (w : WordOrder) (count i j : Nat) : Nat :=
  16 * (if w = .little then i else count - 1 - i) + (if e = .little then (j + 8) % 16 else j)

/-- A bit of a register belongs to the bit-field of a point. -/
def InField (pt : Point) (count : Nat) (sb bc : UInt32) (a j : Nat) : Prop :=
  ∃ i < count, a = pt.address.toNat + i ∧ sb.toNat ≤ place pt.endianness pt.wordOrder count i j ∧
    place pt.endianness pt.wordOrder count i j < sb.toNat + bc.toNat

/-- The registers agree on every bit outside the bit-field. -/
def KeptOutside (pt : Point) (count : Nat) (sb bc : UInt32) (regs regs' : Registers) : Prop :=
  ∀ a j, j < 16 → ¬ InField pt count sb bc a j →
    (regs' a).toNat.testBit j = (regs a).toNat.testBit j

/-- The point is a bit-field. -/
structure Point.IsField (pt : Point) (sb bc : UInt32) : Prop where
  start : pt.startBit = some sb
  count : pt.bitCount = some bc

namespace Rust

/-- A write is refused, or leaves the requested value in the bit-field and every other bit as it was;
no shift overflows. -/
def Contained (pt : Point) (sb bc : UInt32) : Prop :=
  ∀ regs value, ∃ result, writePoint regs pt value = some result ∧
    ∀ regs', result = .ok regs' →
      (∃ v, readOne regs' pt = some (.ok v) ∧ v.exact = value.exact) ∧
        KeptOutside pt (registerCount pt) sb bc regs regs'

/-- The bit-field lies in the first register, in the order of its bits: a register that is the only
one, or the least significant one. A bit-field of the whole of a single register may be given too
wide. -/
def InFirstRegister (pt : Point) (sb bc : UInt32) : Prop :=
  let n := registerCount pt
  pt.endianness = .big ∧ 1 ≤ bc.toNat ∧ InTable pt.address n ∧ n ≤ MAX_READ_REGISTERS ∧
    (sb.toNat + bc.toNat ≤ 16 ∧ (n = 1 ∨ pt.wordOrder = .little) ∨
      n = 1 ∧ sb.toNat = 0 ∧ bc.toNat < 32)

end Rust

namespace C

/-- A write is refused, or leaves the requested value in the bit-field and every other bit as it was;
no shift is undefined. -/
def Contained (pt : Point) (sb bc : UInt32) : Prop :=
  ∀ undefined stack regs value tdot regs', TdotCodec.Same value tdot →
    writePoint undefined stack regs pt tdot = .ok regs' →
      (∃ c v, readPoint regs' pt = some (.ok c) ∧ TdotCodec.Same v c ∧ v.exact = value.exact) ∧
        KeptOutside pt (min (count pt) MAX_READ_REGISTERS) sb bc regs regs'

/-- Every write of the point is refused. -/
def Refused (pt : Point) : Prop :=
  pt.datatype = .bytes ∨
    pt.datatype.byteLen.isSome = true ∧ 65536 < pt.address.toNat + filled pt.datatype

end C

/-! ## Merging and extracting -/

/-- The register after a field write: the field at its bits, the rest as it was. -/
theorem Rust.merge_spec {sb bc : UInt32} (hsb : sb.toNat < 32) (hbc : bc.toNat < 32) (cur : UInt16)
    {field : Nat} (hfield : field < 2 ^ 32) :
    ∃ m, merge cur sb bc field = some m ∧ ∀ j < 16, m.toNat.testBit j =
      if sb.toNat ≤ j ∧ j < sb.toNat + bc.toNat then field.testBit (j - sb.toNat)
      else cur.toNat.testBit j := by
  have hcond : bc < 32 ∧ sb < 32 :=
    ⟨UInt32.lt_iff_toNat_lt.mpr hbc, UInt32.lt_iff_toNat_lt.mpr hsb⟩
  have hpow : 2 ^ bc.toNat < 2 ^ 32 := Nat.pow_lt_pow_right (by decide) hbc
  have hone : ((1 : UInt32) <<< bc).toNat = 2 ^ bc.toNat := by
    rw [UInt32.toNat_shiftLeft, Nat.mod_eq_of_lt hbc]
    show (1 <<< bc.toNat) % 2 ^ 32 = _
    rw [Nat.shiftLeft_eq, Nat.one_mul, Nat.mod_eq_of_lt hpow]
  have hlow : ((1 : UInt32) <<< bc - 1).toNat = 2 ^ bc.toNat - 1 := by
    rw [UInt32.toNat_sub_of_le, hone]
    · rfl
    · rw [UInt32.le_iff_toNat_le, hone]
      exact Nat.one_le_two_pow
  -- the mask covers the field's bits in the register
  have hmask : ∀ j < 16, (((1 : UInt32) <<< bc - 1) <<< sb).toNat.testBit j =
      decide (sb.toNat ≤ j ∧ j < sb.toNat + bc.toNat) := by
    intro j hj
    rw [UInt32.toNat_shiftLeft, Nat.mod_eq_of_lt hsb, hlow, Nat.testBit_mod_two_pow,
      Nat.testBit_shiftLeft, Nat.testBit_two_pow_sub_one, decide_eq_true (show j < 32 by omega),
      Bool.true_and, ← Bool.decide_and]
    apply decide_eq_decide.mpr
    show sb.toNat ≤ j ∧ _ ↔ _
    omega
  have hshifted : ∀ j < 16, (UInt32.ofNat field <<< sb).toNat.testBit j =
      (decide (sb.toNat ≤ j) && field.testBit (j - sb.toNat)) := by
    intro j hj
    rw [UInt32.toNat_shiftLeft, Nat.mod_eq_of_lt hsb, UInt32.toNat_ofNat_of_lt' hfield,
      Nat.testBit_mod_two_pow, Nat.testBit_shiftLeft, decide_eq_true (show j < 32 by omega),
      Bool.true_and]
  unfold merge
  rw [if_pos hcond]
  refine ⟨_, rfl, ?_⟩
  intro j hj
  have hnot : ∀ x : UInt32, (~~~x).toNat.testBit j = !x.toNat.testBit j := by
    intro x
    have hbit : (~~~x).toBitVec.getLsbD j = !x.toBitVec.getLsbD j := by
      rw [UInt32.toBitVec_not, BitVec.getLsbD_not, decide_eq_true (show j < 32 by omega),
        Bool.true_and]
    exact hbit
  rw [UInt32.toNat_toUInt16, Nat.testBit_mod_two_pow, decide_eq_true hj, Bool.true_and,
    UInt32.toNat_or, Nat.testBit_or, UInt32.toNat_and, Nat.testBit_and, UInt32.toNat_and,
    Nat.testBit_and, hnot, hmask j hj, hshifted j hj, UInt16.toNat_toUInt32]
  by_cases hin : sb.toNat ≤ j ∧ j < sb.toNat + bc.toNat
  · rw [if_pos hin, decide_eq_true hin, decide_eq_true hin.1]
    simp
  · rw [if_neg hin, decide_eq_false hin]
    simp

/-- The accumulator of the field reader, bit by bit. -/
theorem getLsbD_accumulate (be : List UInt8) (k : Nat) :
    (accumulate be).getLsbD k = (decide (k < 128) && (fromBeBytes be).testBit k) := by
  induction be using List.reverseRecOn generalizing k with
  | nil => simp [accumulate]
  | append_singleton be b ih =>
    have hstep : accumulate (be ++ [b]) = (accumulate be <<< 8) ||| b.toBitVec.setWidth 128 := by
      simp [accumulate]
    have hb : b.toNat < 2 ^ 8 := b.toNat_lt
    rw [hstep, BitVec.getLsbD_or, BitVec.getLsbD_shiftLeft, BitVec.getLsbD_setWidth, ih,
      fromBeBytes_concat, Nat.mul_comm _ 256]
    show _ = (decide (k < 128) && (2 ^ 8 * fromBeBytes be + b.toNat).testBit k)
    rw [Nat.testBit_two_pow_mul_add _ hb]
    have hlow : b.toBitVec.getLsbD k = b.toNat.testBit k := rfl
    rw [hlow]
    by_cases hk : k < 8
    · rw [if_pos hk]
      simp [hk]
    · have hzero : b.toNat.testBit k = false :=
        Nat.testBit_lt_two_pow (Nat.lt_of_lt_of_le hb (Nat.pow_le_pow_right (by decide) (by omega)))
      rw [if_neg hk, hzero]
      by_cases h128 : k < 128
      · have hless : k - 8 < 128 := by omega
        simp [hk, h128, hless]
      · simp [h128]

/-- The field that is read: the bits from the start on of the reordered bytes. -/
theorem extract_spec (bytes : List UInt8) (e : Endianness) (w : WordOrder) {sb bc : UInt32}
    (hsb : sb.toNat < 32) (hpos : 1 ≤ bc.toNat) (hbc : bc.toNat < 32) :
    ∃ n, extractBitfield true bytes e w sb bc = some n ∧
      ∀ i, n.toNat.testBit i =
        (decide (i < bc.toNat) && (Bitfield.canonical bytes e w).testBit (sb.toNat + i)) := by
  have hcond : ¬ (bc = 0 ∨ 64 ≤ bc) := by
    rintro (rfl | hge)
    · exact absurd hpos (by decide)
    · have hge : 64 ≤ bc.toNat := UInt32.le_iff_toNat_le.mp hge
      omega
  unfold extractBitfield shiftRight128
  rw [if_neg hcond, if_pos (by omega)]
  refine ⟨_, rfl, ?_⟩
  intro i
  show (BitVec.setWidth 64 _).getLsbD i = _
  -- with fewer than 64 bits no part of the mask is lost
  have hmask : ((1#128 <<< bc.toNat) - 1#128).getLsbD i = decide (i < bc.toNat) := by
    have hpow : 2 ^ bc.toNat < 2 ^ 128 := Nat.pow_lt_pow_right (by decide) (by omega)
    have hshift : (1#128 <<< bc.toNat).toNat = 2 ^ bc.toNat := by
      rw [BitVec.toNat_shiftLeft]
      show (1 <<< bc.toNat) % 2 ^ 128 = _
      rw [Nat.shiftLeft_eq, Nat.one_mul, Nat.mod_eq_of_lt hpow]
    have hsub : ((1#128 <<< bc.toNat) - 1#128).toNat = 2 ^ bc.toNat - 1 := by
      rw [BitVec.toNat_sub_of_le, hshift]
      · rfl
      · rw [BitVec.le_def, hshift]
        exact Nat.one_le_two_pow
    rw [BitVec.getLsbD, hsub, Nat.testBit_two_pow_sub_one]
  rw [BitVec.getLsbD_setWidth, BitVec.getLsbD_and, BitVec.getLsbD_ushiftRight, getLsbD_accumulate,
    hmask]
  by_cases hi : i < bc.toNat
  · rw [decide_eq_true hi, decide_eq_true (show i < 64 by omega),
      decide_eq_true (show sb.toNat + i < 128 by omega)]
    simp [Bitfield.canonical]
  · rw [decide_eq_false hi]
    simp

/-! ## A write of the Rust connector -/

/-- The word of a value at a place, of a list of registers. -/
def word (w : WordOrder) (regs : List UInt16) (q : Nat) : UInt16 :=
  ((orient w regs).reverse[q]?).getD 0

theorem word_eq {w : WordOrder} {regs : List UInt16} {q : Nat} (hq : q < regs.length) :
    word w regs q = (regs[if w = .little then q else regs.length - 1 - q]?).getD 0 := by
  unfold word orient
  cases w with
  | little => simp only [if_true, List.reverse_reverse]
  | big =>
    simp only [reduceCtorEq, if_false]
    rw [List.getElem?_reverse hq]

theorem word_past {w : WordOrder} {regs : List UInt16} {q : Nat} (hq : regs.length ≤ q) :
    word w regs q = 0 := by
  unfold word orient
  rw [List.getElem?_eq_none, Option.getD_none]
  cases w <;> simpa using hq

/-- Byte order within a register moves its bits by eight. -/
theorem testBit_swapRegister (e : Endianness) (r : UInt16) {j : Nat} (hj : j < 16) :
    (swapRegister e r).toNat.testBit j =
      r.toNat.testBit (if e = .little then (j + 8) % 16 else j) := by
  cases e with
  | big => rfl
  | little =>
    have hlt := r.toNat_lt
    have hhigh : ((r >>> 8).toUInt8).toNat = r.toNat / 256 := by
      rw [UInt16.toNat_toUInt8, UInt16.toNat_shiftRight]
      show r.toNat >>> 8 % 2 ^ 8 = _
      rw [Nat.shiftRight_eq_div_pow]
      omega
    have hlow : r.toUInt8.toNat = r.toNat % 2 ^ 8 := UInt16.toNat_toUInt8 r
    have hdiv : r.toNat / 256 < 2 ^ 8 := by omega
    show (fromBeRegister r.toUInt8 (r >>> 8).toUInt8).toNat.testBit j = r.toNat.testBit ((j + 8) % 16)
    rw [toNat_fromBeRegister, hhigh, hlow, Nat.mul_comm _ 256]
    show (2 ^ 8 * (r.toNat % 2 ^ 8) + r.toNat / 256).testBit j = _
    rw [Nat.testBit_two_pow_mul_add _ hdiv]
    by_cases hj8 : j < 8
    · rw [if_pos hj8, Nat.mod_eq_of_lt (show j + 8 < 16 by omega)]
      show (r.toNat / 2 ^ 8).testBit j = _
      rw [Nat.testBit_div_two_pow]
    · rw [if_neg hj8, Nat.testBit_mod_two_pow, decide_eq_true (show j - 8 < 8 by omega),
        Bool.true_and, show (j + 8) % 16 = j - 8 by omega]

theorem testBit_canonical_word (regs : List UInt16) (e : Endianness) (w : WordOrder) (k : Nat) :
    (Bitfield.canonical (registerBytes regs) e w).testBit k =
      (word w regs (k / 16)).toNat.testBit (if e = .little then (k % 16 + 8) % 16 else k % 16) := by
  rw [testBit_canonical, ← testBit_swapRegister e _ (Nat.mod_lt k (by decide))]
  rfl

section FieldWrite

variable {pt : Point} {sb bc : UInt32} {regs : Registers} {value : Value} {field : Nat}

/-- The registers of a point after a write of its first one. -/
def after (pt : Point) (regs : Registers) (m : UInt16) : List UInt16 :=
  (List.range (Rust.registerCount pt)).map fun i =>
    Function.update regs pt.address.toNat m (pt.address.toNat + i)

theorem length_after (m : UInt16) : (after pt regs m).length = Rust.registerCount pt := by
  rw [after, List.length_map, List.length_range]

theorem getElem_after {m : UInt16} {i : Nat} (hi : i < Rust.registerCount pt) :
    ((after pt regs m)[i]?).getD 0 = if i = 0 then m else regs (pt.address.toNat + i) := by
  rw [after, List.getElem?_map, List.getElem?_range hi, Option.map_some, Option.getD_some,
    Function.update_apply]
  by_cases h : i = 0
  · rw [if_pos h, if_pos (by omega)]
  · rw [if_neg h, if_neg (by omega)]

/-- The register that is the word at a place of the value. -/
def Point.registerAt (pt : Point) (q : Nat) : Nat :=
  if pt.wordOrder = .little then q else Rust.registerCount pt - 1 - q

theorem word_after {m : UInt16} {q : Nat} (hq : q < Rust.registerCount pt) :
    word pt.wordOrder (after pt regs m) q =
      if pt.registerAt q = 0 then m else regs (pt.address.toNat + pt.registerAt q) := by
  have hregister : pt.registerAt q < Rust.registerCount pt := by
    unfold Point.registerAt
    split <;> omega
  rw [word_eq (by rw [length_after]; exact hq), length_after]
  exact getElem_after hregister

/-- A field write reads one register and writes it back merged. -/
theorem Rust.writePoint_field (hpt : pt.IsField sb bc)
    (hfield : fieldOf (2 ^ min bc.toNat 16 - 1) value = some field) :
    writePoint regs pt value = (merge (regs pt.address.toNat) sb bc field).map fun m =>
      .ok (Function.update regs pt.address.toNat m) := by
  have hread : readRegisters regs pt.address 1 = some [regs pt.address.toNat] :=
    readRegisters_eq_some (inTable_one _) (by decide)
  unfold writePoint
  simp only [hpt.start, hpt.count, hread, List.headD_cons, hfield]
  congr 1
  funext m
  have hwrite : writeRegisters regs pt.address [m] =
      some (Function.update regs pt.address.toNat m) := by
    unfold writeRegisters
    have hfits : InTable pt.address [m].length ∧ [m].length ≤ MAX_WRITE_REGISTERS :=
      ⟨inTable_one _, show 1 ≤ MAX_WRITE_REGISTERS by decide⟩
    rw [if_pos hfits, Option.some.injEq]
    funext a
    rw [Function.update_apply]
    by_cases ha : a = pt.address.toNat
    · subst ha
      simp
    · rw [if_neg ha]
      split
      · rw [List.getElem?_eq_none (by simp only [List.length_singleton]; omega), Option.getD_none]
      · rfl
  simp only [writeAll, hwrite]

theorem Rust.writePoint_refused (hpt : pt.IsField sb bc)
    (hfield : fieldOf (2 ^ min bc.toNat 16 - 1) value = none) :
    ∃ e, writePoint regs pt value = some (.error e) := by
  have hread : readRegisters regs pt.address 1 = some [regs pt.address.toNat] :=
    readRegisters_eq_some (inTable_one _) (by decide)
  unfold writePoint
  simp only [hpt.start, hpt.count, hread, hfield]
  exact ⟨_, rfl⟩

theorem Rust.readOne_field (hpt : pt.IsField sb bc) (m : UInt16) :
    readOne (Function.update regs pt.address.toNat m) pt =
      if InTable pt.address (registerCount pt) ∧ registerCount pt ≤ MAX_READ_REGISTERS then
        (extractBitfield true (registerBytes (after pt regs m)) pt.endianness pt.wordOrder sb bc).map
          fun n => .ok (.number (ofInt n.toNat))
      else some (.error .transport) := by
  unfold readOne readRegisters
  simp only [hpt.start, hpt.count]
  split
  · rename_i h
    split at h
    · cases h
    · rename_i hin
      rw [if_neg hin]
  · rename_i read h
    split at h
    · rename_i hin
      obtain rfl := Option.some.inj h
      rw [if_pos hin]
      rfl
    · cases h

/-- A value taken for a field is the number it stands for. -/
theorem Rust.fieldOf_spec {max : Nat} (hmax : max < 2 ^ 16) (h : fieldOf max value = some field) :
    value.exact = some ((field : Int) : ℚ) ∧ (field ≤ max ∨ field ≤ 1) := by
  cases value with
  | number n =>
    have h : (if integral n && (ofInt 0 ≤ n && n ≤ ofInt max) then some (toU64 n).toNat else none) =
      some field := h
    split at h
    · rename_i hcond
      rw [Bool.and_eq_true, Bool.and_eq_true, decide_eq_true_eq, decide_eq_true_eq] at hcond
      obtain ⟨hint, hlow, hhigh⟩ := hcond
      obtain ⟨k, hk⟩ := stands_of_integral hint
      have hzero : Stands (ofInt 0) 0 := stands_ofInt (by decide) (by decide)
      have hbound : Stands (ofInt max) max := stands_ofInt (by omega) (by omega)
      have hlow := (hzero.le_iff hk).mp hlow
      have hhigh := (hk.le_iff hbound).mp hhigh
      have hcast : ((toU64 n).toNat : Int) = k := toU64_of_integral hint hk.2 hlow (by omega)
      obtain rfl := Option.some.inj h
      refine ⟨?_, .inl (by omega)⟩
      rw [exact_number hk, hcast]
    · cases h
  | bool b =>
    obtain rfl := Option.some.inj h
    refine ⟨?_, .inr (by cases b <;> decide)⟩
    rw [exact_bool]
    cases b <;> rfl
  | text t =>
    obtain ⟨hparse, hle⟩ := Option.filter_eq_some_iff.mp h
    obtain ⟨n, hn, rfl⟩ := Option.map_eq_some_iff.mp hparse
    obtain ⟨hint, hlow, -⟩ := Decimal.parseU64_spec hn
    refine ⟨?_, .inl (of_decide_eq_true hle)⟩
    show Decimal.exact t = _
    rw [Decimal.exact_of_parseInt hint, Int.toNat_of_nonneg hlow]

theorem Rust.fieldOf_text {max k : Nat} (hmax : max < 2 ^ 16) (hk : k ≤ max) :
    fieldOf max (.text (toString (k : Int))) = some k := by
  show ((Decimal.parseU64 (toString (k : Int))).map Int.toNat).filter (· ≤ max) = some k
  rw [Decimal.parseU64_toString (by omega) (by omega), Option.map_some, Option.filter_some,
    Int.toNat_natCast, if_pos (decide_eq_true hk)]

/-! ## The points at which a write is not contained -/

theorem max_lt (bc : UInt32) : 2 ^ min bc.toNat 16 - 1 < 2 ^ 16 := by
  have hpow : 2 ^ min bc.toNat 16 ≤ 2 ^ 16 := Nat.pow_le_pow_right (by decide) (Nat.min_le_right _ _)
  have hpos := Nat.two_pow_pos (min bc.toNat 16)
  omega

/-- What a contained field write means: it succeeds where it should, and its field is read back. -/
theorem Rust.Contained.extract (h : Contained pt sb bc) (hpt : pt.IsField sb bc)
    (hfield : fieldOf (2 ^ min bc.toNat 16 - 1) value = some field) (regs : Registers) :
    sb.toNat < 32 ∧ bc.toNat < 32 ∧ InTable pt.address (registerCount pt) ∧
      registerCount pt ≤ MAX_READ_REGISTERS ∧
      ∃ m n, merge (regs pt.address.toNat) sb bc field = some m ∧
        extractBitfield true (registerBytes (after pt regs m)) pt.endianness pt.wordOrder sb bc =
          some n ∧ n.toNat = field := by
  obtain ⟨result, hresult, hcontained⟩ := h regs value
  rw [writePoint_field hpt hfield] at hresult
  obtain ⟨m, hm, rfl⟩ := Option.map_eq_some_iff.mp hresult
  obtain ⟨⟨v, hv, hexact⟩, -⟩ := hcontained _ rfl
  have hshifts : bc < 32 ∧ sb < 32 := by
    by_contra hnot
    unfold merge at hm
    rw [if_neg hnot] at hm
    cases hm
  rw [readOne_field hpt] at hv
  split at hv
  · rename_i hin
    obtain ⟨n, hn, hvalue⟩ := Option.map_eq_some_iff.mp hv
    refine ⟨UInt32.lt_iff_toNat_lt.mp hshifts.2, UInt32.lt_iff_toNat_lt.mp hshifts.1, hin.1, hin.2,
      m, n, hm, hn, ?_⟩
    obtain ⟨hspec, hsmall⟩ := fieldOf_spec (max_lt bc) hfield
    have hmax := max_lt bc
    rw [← Except.ok.inj hvalue, hspec] at hexact
    have hnumber := ofInt_spec (n := (n.toNat : Int))
      (moderate_of_lt (by omega) (by have := n.toNat_lt; omega))
    have hvalue : (Value.number (ofInt n.toNat)).exact = some (roundInt n.toNat : ℚ) := by
      show (if (ofInt n.toNat).isFinite then some (toRat (ofInt n.toNat)) else none) = _
      rw [hnumber.1, if_pos rfl, hnumber.2]
    rw [hvalue, Option.some.injEq] at hexact
    have hround : roundInt n.toNat = (field : Int) := by exact_mod_cast hexact
    have := eq_of_roundInt_eq (by omega) (by omega) hround
    omega
  · cases hv

theorem Rust.fieldOf_bool (max : Nat) (b : Bool) :
    fieldOf max (.bool b) = some (if b then 1 else 0) := rfl

/-- A field of no bits is not contained. -/
theorem Rust.not_contained_empty (hpt : pt.IsField sb bc) (hbc : bc.toNat = 0) :
    ¬ Contained pt sb bc := by
  intro h
  obtain ⟨hsb, hshift, hin, -, m, n, hm, hn, hzero⟩ :=
    h.extract hpt (fieldOf_bool _ false) fun _ => 0xFFFF
  have hbc : bc = 0 := UInt32.toNat_inj.mp hbc
  obtain ⟨m', hm', hbits⟩ := merge_spec hsb hshift 0xFFFF (show 0 < 2 ^ 32 by decide)
  obtain rfl : m' = m := Option.some.inj (hm'.symm.trans hm)
  have hword : (word pt.wordOrder (after pt (fun _ => 0xFFFF) m') 0).toNat.testBit 8 = true ∧
      (word pt.wordOrder (after pt (fun _ => 0xFFFF) m') 0).toNat.testBit 0 = true := by
    rw [word_after hin.1]
    by_cases hfirst : pt.registerAt 0 = 0
    · rw [if_pos hfirst, hbits 8 (by decide), hbits 0 (by decide), if_neg (by omega),
        if_neg (by omega)]
      decide
    · rw [if_neg hfirst]
      decide
  unfold extractBitfield at hn
  rw [if_pos (.inl hbc)] at hn
  have hbit : n.toNat.testBit 0 = true := by
    rw [← Option.some.inj hn]
    show (BitVec.setWidth 64 _).getLsbD 0 = true
    rw [BitVec.getLsbD_setWidth, getLsbD_accumulate]
    show (true && (true && (Bitfield.canonical _ _ _).testBit 0)) = true
    rw [testBit_canonical_word, Bool.true_and, Bool.true_and]
    split
    · exact hword.1
    · exact hword.2
  rw [hzero] at hbit
  exact absurd hbit (by decide)

/-- With bytes swapped or a wider type the bits written are not those read. -/
theorem Rust.not_contained_one (hpt : pt.IsField sb bc) (hbc : 1 ≤ bc.toNat) (hsb : sb.toNat < 16)
    (h : pt.endianness = .little ∨ pt.wordOrder = .big ∧ 2 ≤ registerCount pt) :
    ¬ Contained pt sb bc := by
  intro hcontained
  obtain ⟨hsb32, hshift, hin, -, m, n, hm, hn, hone⟩ :=
    hcontained.extract hpt (fieldOf_bool _ true) fun _ => 0
  obtain ⟨m', hm', hbits⟩ := merge_spec hsb32 hshift 0 (show 1 < 2 ^ 32 by decide)
  obtain rfl : m' = m := Option.some.inj (hm'.symm.trans hm)
  obtain ⟨n', hn', hextract⟩ := extract_spec (registerBytes (after pt (fun _ => 0) m'))
    pt.endianness pt.wordOrder hsb32 hbc hshift
  obtain rfl : n' = n := Option.some.inj (hn'.symm.trans hn)
  have hbit : n'.toNat.testBit 0 = true := by
    rw [hone]
    decide
  rw [hextract, testBit_canonical_word, Bool.and_eq_true] at hbit
  have hbit := hbit.2
  rw [Nat.add_zero, Nat.div_eq_of_lt hsb, Nat.mod_eq_of_lt hsb, word_after hin.1] at hbit
  -- the first register has the one bit of the field, every other none
  have hfirst : ∀ j < 16, m'.toNat.testBit j = true → j = sb.toNat := by
    intro j hj hset
    rw [hbits j hj] at hset
    split at hset
    · rename_i hfield
      by_contra hne
      rw [Nat.testBit_lt_two_pow (show 1 < 2 ^ (j - sb.toNat) from
        Nat.one_lt_two_pow (by omega))] at hset
      cases hset
    · simp at hset
  by_cases hregister : pt.registerAt 0 = 0
  · rcases h with hlittle | ⟨hbig, htwo⟩
    · rw [if_pos hregister, if_pos hlittle] at hbit
      have := hfirst _ (Nat.mod_lt _ (by decide)) hbit
      omega
    · unfold Point.registerAt at hregister
      rw [if_neg (by rw [hbig]; decide)] at hregister
      omega
  · rw [if_neg hregister] at hbit
    simp at hbit

/-- A field that leaves the first register is not contained: its upper bits are lost. -/
theorem Rust.not_contained_zero (hpt : pt.IsField sb bc) (hbc : 1 ≤ bc.toNat)
    (hwide : 16 < sb.toNat + bc.toNat) (htwo : 2 ≤ registerCount pt)
    (h : pt.wordOrder = .little ∨ 16 ≤ sb.toNat) : ¬ Contained pt sb bc := by
  intro hcontained
  obtain ⟨hsb32, hshift, hin, -, m, n, hm, hn, hzero⟩ :=
    hcontained.extract hpt (fieldOf_bool _ false) fun _ => 0xFFFF
  obtain ⟨m', hm', hbits⟩ := merge_spec hsb32 hshift 0xFFFF (show 0 < 2 ^ 32 by decide)
  obtain rfl : m' = m := Option.some.inj (hm'.symm.trans hm)
  obtain ⟨n', hn', hextract⟩ := extract_spec (registerBytes (after pt (fun _ => 0xFFFF) m'))
    pt.endianness pt.wordOrder hsb32 hbc hshift
  obtain rfl : n' = n := Option.some.inj (hn'.symm.trans hn)
  -- the first bit of the field in the second word
  have hbit : n'.toNat.testBit (max sb.toNat 16 - sb.toNat) = true := by
    have hplace : sb.toNat + (max sb.toNat 16 - sb.toNat) = max sb.toNat 16 := by omega
    rw [hextract, decide_eq_true (by omega), Bool.true_and, testBit_canonical_word, hplace,
      show max sb.toNat 16 / 16 = 1 by omega, word_after htwo]
    have hj : (if pt.endianness = .little then (max sb.toNat 16 % 16 + 8) % 16
        else max sb.toNat 16 % 16) < 16 := by
      split <;> omega
    have hones : ∀ j < 16, (0xFFFF : UInt16).toNat.testBit j = true := by decide
    by_cases hfirst : pt.registerAt 1 = 0
    · rw [if_pos hfirst, hbits _ hj]
      rcases h with hlittle | hsb
      · unfold Point.registerAt at hfirst
        rw [if_pos hlittle] at hfirst
        exact absurd hfirst (by decide)
      · rw [if_neg (by omega)]
        exact hones _ hj
    · rw [if_neg hfirst]
      exact hones _ hj
  rw [hzero] at hbit
  simp at hbit

theorem Rust.not_contained_single (hpt : pt.IsField sb bc) (hsb : 1 ≤ sb.toNat)
    (hbc : 1 ≤ bc.toNat) (hwide : 16 < sb.toNat + bc.toNat) (hone : registerCount pt = 1) :
    ¬ Contained pt sb bc := by
  intro hcontained
  have hmax := max_lt bc
  obtain ⟨hsb32, hshift, hin, -, m, n, hm, hn, hvalue⟩ :=
    hcontained.extract hpt (fieldOf_text hmax (Nat.le_refl _)) fun _ => 0
  obtain ⟨n', hn', hextract⟩ := extract_spec (registerBytes (after pt (fun _ => 0) m))
    pt.endianness pt.wordOrder hsb32 hbc hshift
  obtain rfl : n' = n := Option.some.inj (hn'.symm.trans hn)
  have hlen := @length_after pt (fun _ => 0) m
  -- the last bit of the greatest value that is taken
  have hlast : n'.toNat.testBit (min bc.toNat 16 - 1) = true := by
    rw [hvalue, Nat.testBit_two_pow_sub_one]
    exact decide_eq_true (by omega)
  rw [hextract, testBit_canonical_word, word_past (by rw [hlen, hone]; omega)] at hlast
  simp at hlast

/-! ## The points at which it is -/

/-- A field inside the first register, in big-endian order, is contained. -/
theorem Rust.contained_of_first (hpt : pt.IsField sb bc) (h : InFirstRegister pt sb bc) :
    Contained pt sb bc := by
  obtain ⟨hbig, hbc, hin, hmax, hplace⟩ := h
  have hshifts : sb.toNat < 32 ∧ bc.toNat < 32 := by omega
  -- the register written is the first one in the words as well
  have hfirst : pt.registerAt 0 = 0 := by
    unfold Point.registerAt
    split
    · rfl
    · rename_i hword
      have hone : registerCount pt = 1 := by
        rcases hplace with ⟨-, hone | hlittle⟩ | ⟨hone, -⟩
        · exact hone
        · exact absurd hlittle hword
        · exact hone
      omega
  have hnot : ¬ pt.endianness = .little := by
    rw [hbig]
    decide
  intro regs value
  cases hfield : fieldOf (2 ^ min bc.toNat 16 - 1) value with
  | none =>
    obtain ⟨e, he⟩ := @writePoint_refused pt sb bc regs value hpt hfield
    exact ⟨_, he, fun regs' h => by cases h⟩
  | some field =>
    obtain ⟨hexact, hsmall⟩ := fieldOf_spec (max_lt bc) hfield
    have hpow : 2 ^ 1 ≤ 2 ^ min bc.toNat 16 := Nat.pow_le_pow_right (by decide) (by omega)
    have hlt : field < 2 ^ min bc.toNat 16 := by omega
    have hlt16 : field < 2 ^ 16 :=
      Nat.lt_of_lt_of_le hlt (Nat.pow_le_pow_right (by decide) (by omega))
    obtain ⟨m, hm, hbits⟩ := merge_spec hshifts.1 hshifts.2 (regs pt.address.toNat)
      (show field < 2 ^ 32 by omega)
    obtain ⟨n, hn, hextract⟩ := extract_spec (registerBytes (after pt regs m)) pt.endianness
      pt.wordOrder hshifts.1 hbc hshifts.2
    have hvalue : n.toNat = field := by
      apply Nat.eq_of_testBit_eq
      intro i
      rw [hextract]
      by_cases hi : i < bc.toNat
      · rw [decide_eq_true hi, Bool.true_and, testBit_canonical_word, if_neg hnot]
        by_cases hlow : sb.toNat + i < 16
        · rw [Nat.div_eq_of_lt hlow, Nat.mod_eq_of_lt hlow, word_after hin.1, if_pos hfirst,
            hbits _ hlow, if_pos (by omega), Nat.add_sub_cancel_left]
        · -- a single register, whose field is given too wide
          have hone : registerCount pt = 1 := by omega
          have hpast : (after pt regs m).length ≤ (sb.toNat + i) / 16 := by
            rw [length_after, hone]
            omega
          rw [word_past hpast, Nat.testBit_lt_two_pow (Nat.lt_of_lt_of_le hlt16
            (Nat.pow_le_pow_right (by decide) (show 16 ≤ i by omega)))]
          simp
      · rw [decide_eq_false hi, Bool.false_and]
        exact (Nat.testBit_lt_two_pow (Nat.lt_of_lt_of_le hlt
          (Nat.pow_le_pow_right (by decide) (by omega)))).symm
    refine ⟨.ok (Function.update regs pt.address.toNat m), ?_, ?_⟩
    · rw [writePoint_field hpt hfield, hm]
      rfl
    · intro regs' h
      obtain rfl := Except.ok.inj h
      constructor
      · refine ⟨.number (ofInt n.toNat), ?_, ?_⟩
        · rw [readOne_field hpt, if_pos ⟨hin, hmax⟩, hn]
          rfl
        · rw [hexact, hvalue]
          exact exact_number (stands_ofInt (by omega) (by omega))
      · intro a j hj hout
        rw [Function.update_apply]
        split
        · rename_i ha
          subst ha
          rw [hbits j hj, if_neg]
          intro hinside
          apply hout
          refine ⟨0, hin.1, rfl, ?_⟩
          have hat : place pt.endianness pt.wordOrder (registerCount pt) 0 j = j := by
            unfold place
            unfold Point.registerAt at hfirst
            rw [if_neg hnot]
            split
            · omega
            · rename_i hword
              rw [if_neg hword] at hfirst
              omega
          rw [hat]
          exact hinside
        · rfl

/-- And no other. -/
theorem Rust.contained_iff_first (hpt : pt.IsField sb bc) :
    Contained pt sb bc ↔ InFirstRegister pt sb bc := by
  refine ⟨fun h => ?_, contained_of_first hpt⟩
  have hbc : 1 ≤ bc.toNat := by
    by_contra hnot
    exact not_contained_empty hpt (by omega) h
  obtain ⟨hsb32, hshift, hin, hmax, -⟩ := h.extract hpt (fieldOf_bool _ false) fun _ => 0
  have hone := hin.1
  have hbig : pt.endianness = .big := by
    cases hlittle : pt.endianness with
    | big => rfl
    | little =>
      by_cases hsb : sb.toNat < 16
      · exact absurd h (not_contained_one hpt hbc hsb (.inl hlittle))
      · by_cases hsingle : registerCount pt = 1
        · exact absurd h (not_contained_single hpt (by omega) hbc (by omega) hsingle)
        · exact absurd h (not_contained_zero hpt hbc (by omega) (by omega) (.inr (by omega)))
  refine ⟨hbig, hbc, hin, hmax, ?_⟩
  -- over one register the field has to end in it; over more, to begin in the first as well
  by_cases hsingle : registerCount pt = 1
  · by_cases hnarrow : sb.toNat + bc.toNat ≤ 16
    · exact .inl ⟨hnarrow, .inl hsingle⟩
    · by_cases hsb : sb.toNat = 0
      · exact .inr ⟨hsingle, hsb, hshift⟩
      · exact absurd h (not_contained_single hpt (by omega) hbc (by omega) hsingle)
  · cases hword : pt.wordOrder with
    | little =>
      by_cases hnarrow : sb.toNat + bc.toNat ≤ 16
      · exact .inl ⟨hnarrow, .inr rfl⟩
      · exact absurd h (not_contained_zero hpt hbc (by omega) (by omega) (.inl hword))
    | big =>
      by_cases hsb : sb.toNat < 16
      · exact absurd h (not_contained_one hpt hbc hsb (.inr ⟨hword, by omega⟩))
      · exact absurd h (not_contained_zero hpt hbc (by omega) (by omega) (.inr (by omega)))

end FieldWrite

/-! ## A write of the C connector -/

namespace C

section Write

variable {pt : Point} {sb bc : UInt32} {dt : DataType} {e : Endianness} {w : WordOrder}

theorem length_registersOf (stack : UInt8) (bytes : List UInt8) :
    (registersOf stack bytes).length = (bytes.length + 1) / 2 := by
  induction bytes using registersOf.induct with
  | case1 hi lo rest ih =>
    rw [registersOf, List.length_cons, ih]
    simp only [List.length_cons]
    omega
  | case2 hi => simp [registersOf]
  | case3 => rfl

/-- An encoded value has the width of its type. -/
theorem length_encode (hfixed : dt.byteLen.isSome = true) {undefined : TdotCodec.Undefined}
    {tdot : TdotValue} {bytes : List UInt8}
    (hok : TdotCodec.encode undefined dt tdot e w 16 = .ok bytes) : bytes.length = width dt := by
  have hstring : dt ≠ .string := by
    rintro rfl
    cases hfixed
  have hbytes : dt ≠ .bytes := by
    rintro rfl
    cases hfixed
  rw [TdotCodec.encode_fixed hstring hbytes (by decide)] at hok
  cases hbe : TdotCodec.encodeFixed undefined dt tdot with
  | error err =>
    rw [hbe] at hok
    cases hok
  | ok be =>
    rw [hbe] at hok
    have hlen : dt.byteLen = some be.length := by
      by_cases hbool : dt = .bool
      · subst hbool
        cases tdot <;> cases hbe <;> rfl
      · exact (TdotCodec.encodeFixed_spec hbool hfixed hbe).1
    obtain rfl : TdotCodec.reorder be e w = bytes := Except.ok.inj hok
    rw [TdotCodec.reorder_eq (whole_of_byteLen hlen), length_reorder, width, hlen, Option.getD_some]

/-- A request that every write but one of `bytes` takes, and that no bit-field reads as: a text that
is no number, or a negative number. -/
def request (dt : DataType) : Value × TdotValue :=
  match dt with
  | .bool | .float32 | .float64 => (.number (ofInt (-1)), .num (ofInt (-1)))
  | _ => (.text "1x", .str (Utf8.encode "1x"))

theorem same_request (dt : DataType) : TdotCodec.Same (request dt).1 (request dt).2 := by
  have htext : TdotCodec.Same (.text "1x") (.str (Utf8.encode "1x")) := by
    show Utf8.encode "1x" = TdotCodec.cString (Utf8.encode "1x")
    decide +kernel
  cases dt <;> first | exact htext | rfl

/-- For every type there is a request that asks for no number of it. -/
theorem exact_request (dt : DataType) (n : UInt64) :
    (Value.number (ofInt n.toNat)).exact ≠ (request dt).1.exact := by
  have hlt := n.toNat_lt
  have hspec := ofInt_spec (n := (n.toNat : Int)) (moderate_of_lt (by omega) (by omega))
  have hvalue : (Value.number (ofInt n.toNat)).exact = some (roundInt n.toNat : ℚ) := by
    show (if (ofInt n.toNat).isFinite then some (toRat (ofInt n.toNat)) else none) = _
    rw [hspec.1, if_pos rfl, hspec.2]
  have htext : (Value.text "1x").exact = none := by
    show Decimal.exact "1x" = none
    decide +kernel
  have hnegative : (Value.number (ofInt (-1))).exact = some (((-1 : Int)) : ℚ) :=
    exact_number (stands_ofInt (by decide) (by decide))
  have hmono : 0 ≤ roundInt n.toNat := by
    have := roundInt_mono (show (0 : Int) ≤ n.toNat by omega)
    rwa [roundInt_of_le (n := 0) (by decide) (by decide)] at this
  rw [hvalue]
  have hnot : some (roundInt n.toNat : ℚ) ≠ some (((-1 : Int)) : ℚ) := by
    intro h
    have hcast : roundInt n.toNat = -1 := by exact_mod_cast Option.some.inj h
    omega
  cases dt with
  | bool | float32 | float64 =>
    show _ ≠ (Value.number (ofInt (-1))).exact
    rw [hnegative]
    exact hnot
  | int8 | uint8 | int16 | uint16 | int32 | uint32 | int64 | uint64 | string | bytes =>
    show _ ≠ (Value.text "1x").exact
    rw [htext]
    exact Option.some_ne_none _

/-- The C encoder accepts it. -/
theorem encode_request (undefined : TdotCodec.Undefined) (hbytes : dt ≠ .bytes) (e : Endianness)
    (w : WordOrder) : ∃ bytes, TdotCodec.encode undefined dt (request dt).2 e w 16 = .ok bytes ∧
      (dt = .string → bytes = [0x31, 0x78]) := by
  -- an integer is taken from the digit the text begins with
  by_cases hint : dt.isInteger = true
  · have htaken : TdotCodec.taken undefined dt (.str (Utf8.encode "1x")) = some 1 := by
      have hsigned : (TdotCodec.strtoll (TdotCodec.cString (Utf8.encode "1x"))).toInt = 1 := by
        decide +kernel
      have hunsigned : (TdotCodec.strtoull (TdotCodec.cString (Utf8.encode "1x"))).toNat = 1 := by
        decide +kernel
      show (if TdotCodec.isSigned dt then
          some (TdotCodec.strtoll (TdotCodec.cString (Utf8.encode "1x"))).toInt
        else some ((TdotCodec.strtoull (TdotCodec.cString (Utf8.encode "1x"))).toNat : Int)) = some 1
      rw [hsigned, hunsigned]
      split <;> rfl
    have hrange : InRange dt 1 := by
      unfold InRange
      cases dt <;> first | decide | cases hint
    have hrequest : (request dt).2 = .str (Utf8.encode "1x") := by
      cases dt <;> first | rfl | cases hint
    have hsome : (TdotCodec.encode undefined dt (.str (Utf8.encode "1x")) e w 16).toOption = _ :=
      TdotCodec.encode_toOption hint (by decide)
    rw [htaken, Option.filter_some, if_pos (decide_eq_true hrange)] at hsome
    refine ⟨_, by rw [hrequest]; exact toOption_eq_some_iff.mp hsome, ?_⟩
    rintro rfl
    cases hint
  · cases dt with
    | bool =>
      obtain ⟨be, hbe⟩ : ∃ be, TdotCodec.encodeFixed undefined .bool (.num (ofInt (-1))) = .ok be :=
        ⟨_, rfl⟩
      refine ⟨TdotCodec.reorder be e w, ?_, fun h => by cases h⟩
      rw [TdotCodec.encode_fixed (by decide) (by decide) (by decide), request, hbe]
      rfl
    | float32 =>
      obtain ⟨be, hbe⟩ : ∃ be, TdotCodec.encodeFixed undefined .float32 (.num (ofInt (-1))) = .ok be :=
        ⟨_, rfl⟩
      refine ⟨TdotCodec.reorder be e w, ?_, fun h => by cases h⟩
      rw [TdotCodec.encode_fixed (by decide) (by decide) (by decide), request, hbe]
      rfl
    | float64 =>
      obtain ⟨be, hbe⟩ : ∃ be, TdotCodec.encodeFixed undefined .float64 (.num (ofInt (-1))) = .ok be :=
        ⟨_, rfl⟩
      refine ⟨TdotCodec.reorder be e w, ?_, fun h => by cases h⟩
      rw [TdotCodec.encode_fixed (by decide) (by decide) (by decide), request, hbe]
      rfl
    | string =>
      refine ⟨[0x31, 0x78], ?_, fun _ => rfl⟩
      have htext : TdotCodec.cString (Utf8.encode "1x") = [0x31, 0x78] := by decide +kernel
      show (if (TdotCodec.cString (Utf8.encode "1x")).length > 16 then Except.error "buffer too small"
        else .ok (TdotCodec.cString (Utf8.encode "1x"))) = _
      rw [htext]
      rfl
    | bytes => contradiction
    | int8 | uint8 | int16 | uint16 | int32 | uint32 | int64 | uint64 => exact absurd rfl hint

/-- **C**: where not every write is refused, the request is carried out. -/
theorem exists_write (h : ¬ Refused pt) : ∃ r rest, ∀ regs : Registers,
    ∃ regs', writePoint TdotCodec.zeros 0 regs pt (request pt.datatype).2 = .ok regs' ∧
      writeRegisters regs pt.address (r :: rest) = some regs' := by
  have hbytes : pt.datatype ≠ .bytes := fun heq => h (.inl heq)
  obtain ⟨bytes, hok, hstring⟩ :=
    encode_request TdotCodec.zeros hbytes pt.endianness pt.wordOrder
  have hlen : 1 ≤ (registersOf 0 bytes).length ∧ (registersOf 0 bytes).length ≤ 4 ∧
      pt.address.toNat + (registersOf 0 bytes).length ≤ 65536 := by
    have hlt := pt.address.toNat_lt
    rw [length_registersOf]
    by_cases hfixed : pt.datatype.byteLen.isSome = true
    · have hwidth : 1 ≤ width pt.datatype ∧ width pt.datatype ≤ 8 := by
        revert hfixed
        cases pt.datatype <;> decide
      have hin : ¬ 65536 < pt.address.toNat + filled pt.datatype := fun heq => h (.inr ⟨hfixed, heq⟩)
      unfold filled at hin
      rw [length_encode hfixed hok]
      omega
    · have hdt : pt.datatype = .string := by
        cases hdt : pt.datatype with
        | string => rfl
        | bytes => exact absurd hdt hbytes
        | _ => exact absurd (by rw [hdt]; rfl) hfixed
      rw [hstring hdt]
      show 1 ≤ 1 ∧ 1 ≤ 4 ∧ pt.address.toNat + 1 ≤ 65536
      omega
  obtain ⟨r, rest, hregs⟩ := List.exists_cons_of_length_pos hlen.1
  refine ⟨r, rest, ?_⟩
  intro regs
  rw [hregs] at hlen
  obtain ⟨regs', hwrite⟩ := @Rust.exists_written regs pt.address (r :: rest) ⟨hlen.1, hlen.2.2⟩
    (Nat.le_trans hlen.2.1 (by decide))
  refine ⟨regs', ?_, hwrite⟩
  unfold writePoint
  simp only [hok, hregs, hwrite]

/-- So the C connector contains a field only where it refuses every write. -/
theorem contained_iff_refused (hpt : pt.IsField sb bc) : Contained pt sb bc ↔ Refused pt := by
  constructor
  · intro h
    by_contra hrefused
    -- a write that is not refused overwrites the whole register with its value
    obtain ⟨r, rest, hwrite⟩ := exists_write hrefused
    have hsame := same_request pt.datatype
    by_cases hbc : bc = 0
    · -- an empty field: the first register takes the same content, whatever it held
      have hkept : ∀ regs : Registers, ∀ j < 16,
          r.toNat.testBit j = (regs pt.address.toNat).toNat.testBit j := by
        intro regs j hj
        obtain ⟨regs', hok, hregs⟩ := hwrite regs
        have hfirst := (writeRegisters_eq_some hregs).2.1 0 (by simp)
        rw [Nat.add_zero, List.getElem_cons_zero] at hfirst
        have hout : ¬ InField pt (min (count pt) MAX_READ_REGISTERS) sb bc pt.address.toNat j := by
          rintro ⟨i, -, -, hlow, hhigh⟩
          have hzero : bc.toNat = 0 := by rw [hbc]; rfl
          omega
        rw [← (h _ _ _ _ _ _ hsame hok).2 _ _ hj hout, hfirst]
      have hzero := hkept (fun _ => 0) 0 (by decide)
      have hone := hkept (fun _ => 1) 0 (by decide)
      rw [hzero] at hone
      exact absurd hone (by decide)
    · obtain ⟨regs', hok, -⟩ := hwrite fun _ => 0
      obtain ⟨⟨c, v, hread, hsame', hexact⟩, -⟩ := h _ _ _ _ _ _ hsame hok
      unfold readPoint at hread
      have hpos : (0 : UInt32) < pt.bitCount.getD 0 := by
        rw [hpt.count, Option.getD_some]
        exact UInt32.pos_iff_ne_zero.mpr hbc
      simp only [if_pos hpos] at hread
      split at hread
      · cases hread
      · obtain ⟨n, -, hn⟩ := Option.map_eq_some_iff.mp hread
        obtain rfl := Except.ok.inj hn
        cases v with
        | number f =>
          obtain rfl : f = ofInt n.toNat := hsame'
          exact exact_request _ _ hexact
        | bool b => exact hsame'.elim
        | text t => exact hsame'.elim
  · intro hrefused undefined stack regs value tdot regs' _ hok
    exfalso
    unfold writePoint at hok
    split at hok
    · cases hok
    · rename_i bytes hencode
      rcases hrefused with hbytes | ⟨hfixed, hbeyond⟩
      · rw [hbytes] at hencode
        cases hencode
      · split at hok
        · rename_i hregs
          have hin := (writeRegisters_eq_some hregs).1
          unfold InTable at hin
          unfold filled at hbeyond
          rw [length_registersOf, length_encode hfixed hencode] at hin
          omega
        · cases hok

end Write

end C

/-- **Bit-fields**: where a typed write of a bit-field point is refused, or changes the bits that a
read extracts to the requested value, and no others, for all contents of the registers and all
values: in the Rust connector where the field lies in the first register in the order of its bits,
in the C connector only where every write is refused. -/
theorem contained_iff (pt : Point) (sb bc : UInt32) (hpt : pt.IsField sb bc) :
    (Rust.Contained pt sb bc ↔ Rust.InFirstRegister pt sb bc) ∧
      (C.Contained pt sb bc ↔ C.Refused pt) :=
  ⟨Rust.contained_iff_first hpt, C.contained_iff_refused hpt⟩

/-- Four bits of a register. -/
theorem contained_iff_nibble :
    (Rust.Contained ⟨0, some 1, some 5, some 4, .uint16, .big, .big⟩ 5 4 ↔
      Rust.InFirstRegister ⟨0, some 1, some 5, some 4, .uint16, .big, .big⟩ 5 4) ∧
    (C.Contained ⟨0, some 1, some 5, some 4, .uint16, .big, .big⟩ 5 4 ↔
      C.Refused ⟨0, some 1, some 5, some 4, .uint16, .big, .big⟩) :=
  contained_iff _ 5 4 ⟨rfl, rfl⟩

/-- The low byte of two registers, of which the first is the high one: a write of 1 goes to the high
register, and 0 is read. -/
theorem field_in_other_register :
    (∃ regs', Rust.writePoint (fun _ => 0) ⟨0, some 2, some 0, some 8, .uint32, .big, .big⟩
        (.text "1") = some (.ok regs') ∧ regs' 0 = 1 ∧
      Rust.readOne regs' ⟨0, some 2, some 0, some 8, .uint32, .big, .big⟩ =
        some (.ok (.number (ofInt 0)))) ∧
    ¬ ∀ (pt : Point) (sb bc : UInt32), pt.IsField sb bc →
      Rust.Contained pt sb bc ∧ C.Contained pt sb bc := by
  have hpt : Point.IsField ⟨0, some 2, some 0, some 8, .uint32, .big, .big⟩ 0 8 := ⟨rfl, rfl⟩
  have hfield : Rust.fieldOf (2 ^ min (8 : UInt32).toNat 16 - 1) (.text "1") = some 1 := by
    decide +kernel
  have hmerge : Rust.merge 0 0 8 1 = some 1 := by decide
  -- the field is looked for in the second register, where nothing was written
  have hextract : extractBitfield true (registerBytes [1, 0]) .big .big 0 8 = some 0 := by decide
  have hwrite : Rust.writePoint (fun _ => 0) ⟨0, some 2, some 0, some 8, .uint32, .big, .big⟩
      (.text "1") = some (.ok (Function.update (fun _ => 0) 0 1)) := by
    rw [Rust.writePoint_field hpt hfield]
    show (Rust.merge 0 0 8 1).map _ = _
    rw [hmerge]
    rfl
  have hread : Rust.readOne (Function.update (fun _ => 0) 0 1)
      ⟨0, some 2, some 0, some 8, .uint32, .big, .big⟩ = some (.ok (.number (ofInt 0))) := by
    have hin : InTable 0 2 ∧ 2 ≤ MAX_READ_REGISTERS := by decide
    refine (Rust.readOne_field hpt 1).trans ((if_pos hin).trans ?_)
    show (extractBitfield true (registerBytes [1, 0]) .big .big 0 8).map _ = _
    rw [hextract]
    rfl
  refine ⟨⟨_, hwrite, rfl, hread⟩, ?_⟩
  intro h
  obtain ⟨result, hresult, hcontained⟩ := (h _ 0 8 hpt).1 (fun _ => 0) (.text "1")
  obtain rfl : .ok _ = result := Option.some.inj (hwrite.symm.trans hresult)
  obtain ⟨⟨v, hv, hexact⟩, -⟩ := hcontained _ rfl
  rw [hread] at hv
  obtain rfl : .number (ofInt 0) = v := Except.ok.inj (Option.some.inj hv)
  rw [exact_number (stands_ofInt (by decide) (by decide))] at hexact
  have htext : (Value.text "1").exact = some (((1 : Int)) : ℚ) := by
    show Decimal.exact "1" = _
    exact Decimal.exact_toString 1
  rw [htext, Option.some.injEq] at hexact
  exact absurd hexact (by decide)

end TedgeDot.Modbus
