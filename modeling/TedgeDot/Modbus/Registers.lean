import TedgeDot.Sdk.Bitfield
import TedgeDot.Sdk.Taken

/-!
# Registers of a Modbus device

The holding registers, the points that lie in them, and how the connectors read and write a typed
point: `read_one_unbounded` and `write_point` of the Rust connector, `read_point` and `write_point`
of the C connector. The device carries out every request that the protocol allows: up to 125
registers read or 123 written, none past the last address.

- `testBit_canonical`: where the bits of a point's value lie in its registers.
-/

namespace TedgeDot.Modbus

open Codec Binary64

/-! ## The device -/

/-- The holding registers, by their address. -/
abbrev Registers := Nat → UInt16

def MAX_READ_REGISTERS : Nat := 125

def MAX_WRITE_REGISTERS : Nat := 123

/-- A request reaches registers that there are. -/
def InTable (address : UInt16) (count : Nat) : Prop := 1 ≤ count ∧ address.toNat + count ≤ 65536

instance instDecidableInTable (address : UInt16) (count : Nat) : Decidable (InTable address count) :=
  inferInstanceAs (Decidable (_ ∧ _))

/-- `read_holding_registers`. -/
def readRegisters (regs : Registers) (address : UInt16) (count : Nat) : Option (List UInt16) :=
  if InTable address count ∧ count ≤ MAX_READ_REGISTERS then
    some ((List.range count).map fun i => regs (address.toNat + i))
  else none

/-- `write_single_register`, `write_multiple_registers`. -/
def writeRegisters (regs : Registers) (address : UInt16) (values : List UInt16) :
    Option Registers :=
  if InTable address values.length ∧ values.length ≤ MAX_WRITE_REGISTERS then
    some fun a =>
      if address.toNat ≤ a then (values[a - address.toNat]?).getD (regs a) else regs a
  else none

/-! ## Points -/

/-- A typed point of the holding registers. -/
structure Point where
  address : UInt16
  count : Option UInt16
  startBit : Option UInt32
  bitCount : Option UInt32
  datatype : DataType
  endianness : Endianness
  wordOrder : WordOrder

/-- `to_be_bytes`. -/
def beRegister (r : UInt16) : List UInt8 := [(r >>> 8).toUInt8, r.toUInt8]

/-- `u16::from_be_bytes`. -/
def fromBeRegister (hi lo : UInt8) : UInt16 := (hi.toUInt16 <<< 8) ||| lo.toUInt16

def registerBytes (regs : List UInt16) : List UInt8 := regs.flatMap beRegister

def bytesToRegisters : List UInt8 → List UInt16
  | hi :: lo :: rest => fromBeRegister hi lo :: bytesToRegisters rest
  | [hi] => [fromBeRegister hi 0]
  | [] => []

/-! ## The Rust connector -/

namespace Rust

inductive ConnectorError where
  | decode (e : DecodeError)
  /-- `bit-field value must be an integer 0..={max}` -/
  | bitField (max : Nat)
  /-- The device refused the request. -/
  | transport
deriving DecidableEq

/-- `register_count` of a typed point. -/
def registerCount (pt : Point) : Nat :=
  match pt.count with
  | some c => c.toNat
  | none =>
    match pt.datatype.byteLen with
    | some bytes => max ((bytes + 1) / 2) 1
    | none => 1

/-- `read_one_unbounded` of a register point: its value, if no shift overflows. -/
def readOne (regs : Registers) (pt : Point) : Option (Except ConnectorError Value) :=
  match readRegisters regs pt.address (registerCount pt) with
  | none => some (.error .transport)
  | some regs =>
    let bytes := registerBytes regs
    match pt.startBit, pt.bitCount with
    | some sb, some bc =>
      (extractBitfield true bytes pt.endianness pt.wordOrder sb bc).map fun n =>
        .ok (.number (ofInt n.toNat))
    | _, _ =>
      match decodePrimitive bytes pt.datatype pt.endianness pt.wordOrder with
      | .ok v => some (.ok v)
      | .error e => some (.error (.decode e))

/-- The integer of a bit-field, of a value that fits it. -/
def fieldOf (max : Nat) : Value → Option Nat
  | .number n =>
    if integral n && (ofInt 0 ≤ n && n ≤ ofInt max) then some (toU64 n).toNat else none
  | .bool b => some (if b then 1 else 0)
  | .text t => ((Decimal.parseU64 t).map Int.toNat).filter (· ≤ max)

/-- The register with the field in it, if no shift overflows. -/
def merge (cur : UInt16) (sb bc : UInt32) (field : Nat) : Option UInt16 :=
  if bc < 32 ∧ sb < 32 then
    let mask : UInt32 := ((1 <<< bc) - 1) <<< sb
    let merged := (cur.toUInt32 &&& ~~~mask) ||| ((UInt32.ofNat field <<< sb) &&& mask)
    some merged.toUInt16
  else none

/-- The end of `write_point`. -/
def writeAll (regs : Registers) (address : UInt16) (values : List UInt16) :
    Except ConnectorError Registers :=
  match writeRegisters regs address values with
  | some regs => .ok regs
  | none => .error .transport

/-- `write_point` of a typed value: the registers after it, if no shift overflows. -/
def writePoint (regs : Registers) (pt : Point) (value : Value) :
    Option (Except ConnectorError Registers) :=
  match pt.startBit, pt.bitCount with
  | some sb, some bc =>
    -- bit-field write: read-modify-write of a single register
    match readRegisters regs pt.address 1 with
    | none => some (.error .transport)
    | some current =>
      let cur := current.headD 0
      let max := 2 ^ min bc.toNat 16 - 1
      match fieldOf max value with
      | none => some (.error (.bitField max))
      | some field => (merge cur sb bc field).map fun merged => writeAll regs pt.address [merged]
  | _, _ =>
    match encodePrimitive value pt.datatype pt.endianness pt.wordOrder with
    | .ok bytes => some (writeAll regs pt.address (bytesToRegisters bytes))
    | .error e => some (.error (.decode e))

end Rust

/-! ## The C connector -/

namespace C

/-- `mp->count`, of a register point. -/
def count (pt : Point) : Nat :=
  match pt.count with
  | some c => c.toNat
  | none => (TdotCodec.datatypeLen pt.datatype + 1) / 2

/-- `read_point` of a holding register point: its value before the transform, where it is defined. -/
def readPoint (regs : Registers) (pt : Point) : Option (Except String TdotValue) :=
  let n := min (count pt) MAX_READ_REGISTERS
  match readRegisters regs pt.address n with
  | none => some (.error "modbus exception")
  | some regs =>
    let raw := registerBytes regs
    let startBit := pt.startBit.getD 0
    let bitCount := pt.bitCount.getD 0
    if 0 < bitCount then
      (TdotCodec.bitfieldExtract raw pt.endianness pt.wordOrder startBit bitCount).map fun v =>
        .ok (.num (ofInt v.toNat))
    else some (TdotCodec.decode pt.datatype raw pt.endianness pt.wordOrder)

/-- The registers of encoded bytes. The byte after the last of an odd number is one of the stack. -/
def registersOf (stack : UInt8) : List UInt8 → List UInt16
  | hi :: lo :: rest => fromBeRegister hi lo :: registersOf stack rest
  | [hi] => [fromBeRegister hi stack]
  | [] => []

/-- `write_point` of a holding register point. It does not look at a bit-field. -/
def writePoint (undefined : TdotCodec.Undefined) (stack : UInt8) (regs : Registers) (pt : Point)
    (value : TdotValue) : Except String Registers :=
  match TdotCodec.encode undefined pt.datatype value pt.endianness pt.wordOrder 16 with
  | .error e => .error e
  | .ok bytes =>
    match writeRegisters regs pt.address (registersOf stack bytes) with
    | some regs => .ok regs
    | none => .error "modbus exception"

end C

/-! ## Reading and writing registers -/

section Device

variable {regs regs' : Registers} {address : UInt16} {count : Nat} {values : List UInt16}

theorem readRegisters_eq_some (h : InTable address count) (hmax : count ≤ MAX_READ_REGISTERS) :
    readRegisters regs address count =
      some ((List.range count).map fun i => regs (address.toNat + i)) := if_pos ⟨h, hmax⟩

theorem writeRegisters_eq_some (h : writeRegisters regs address values = some regs') :
    InTable address values.length ∧
      (∀ i (hi : i < values.length), regs' (address.toNat + i) = values[i]) ∧
      ∀ a, a < address.toNat ∨ address.toNat + values.length ≤ a → regs' a = regs a := by
  unfold writeRegisters at h
  split at h
  · rename_i hin
    obtain rfl := Option.some.inj h
    refine ⟨hin.1, ?_, ?_⟩
    · intro i hi
      simp only [Nat.le_add_right, if_true, Nat.add_sub_cancel_left,
        List.getElem?_eq_getElem hi, Option.getD_some]
    · intro a ha
      simp only
      split
      · rw [List.getElem?_eq_none (by omega), Option.getD_none]
      · rfl
  · cases h

theorem read_written (h : writeRegisters regs address values = some regs')
    (hmax : values.length ≤ MAX_READ_REGISTERS) :
    readRegisters regs' address values.length = some values := by
  obtain ⟨hin, hvalues, -⟩ := writeRegisters_eq_some h
  rw [readRegisters_eq_some hin hmax, Option.some.injEq]
  apply List.ext_getElem
  · rw [List.length_map, List.length_range]
  · intro i hi hi'
    rw [List.getElem_map, List.getElem_range, hvalues i hi']

end Device

/-! ## Bytes of registers -/

theorem toNat_fromBeRegister (hi lo : UInt8) :
    (fromBeRegister hi lo).toNat = hi.toNat * 256 + lo.toNat := by
  have hhi := hi.toNat_lt
  have hlo := lo.toNat_lt
  have hshift : (hi.toUInt16 <<< 8).toNat = hi.toNat <<< 8 := by
    rw [UInt16.toNat_shiftLeft, UInt8.toNat_toUInt16]
    show hi.toNat <<< 8 % 2 ^ 16 = _
    rw [Nat.shiftLeft_eq]
    omega
  unfold fromBeRegister
  rw [UInt16.toNat_or, hshift, UInt8.toNat_toUInt16, ← Nat.shiftLeft_add_eq_or_of_lt hlo,
    Nat.shiftLeft_eq]

theorem beRegister_fromBeRegister (hi lo : UInt8) : beRegister (fromBeRegister hi lo) = [hi, lo] := by
  have hhi := hi.toNat_lt
  have hlo := lo.toNat_lt
  have hnat := toNat_fromBeRegister hi lo
  have hhigh : ((fromBeRegister hi lo) >>> 8).toUInt8 = hi := by
    apply UInt8.toNat_inj.mp
    rw [UInt16.toNat_toUInt8, UInt16.toNat_shiftRight, hnat]
    show (hi.toNat * 256 + lo.toNat) >>> 8 % 2 ^ 8 = _
    rw [Nat.shiftRight_eq_div_pow]
    omega
  have hlow : (fromBeRegister hi lo).toUInt8 = lo := by
    apply UInt8.toNat_inj.mp
    rw [UInt16.toNat_toUInt8, hnat]
    omega
  rw [beRegister, hhigh, hlow]

theorem length_registerBytes (regs : List UInt16) : (registerBytes regs).length = 2 * regs.length := by
  induction regs with
  | nil => rfl
  | cons r regs ih =>
    rw [registerBytes, List.flatMap_cons, List.length_append]
    show 2 + (registerBytes regs).length = _
    rw [ih, List.length_cons]
    omega

theorem length_bytesToRegisters (bytes : List UInt8) :
    (bytesToRegisters bytes).length = (bytes.length + 1) / 2 := by
  induction bytes using bytesToRegisters.induct with
  | case1 hi lo rest ih =>
    rw [bytesToRegisters, List.length_cons, ih]
    simp only [List.length_cons]
    omega
  | case2 hi => simp [bytesToRegisters]
  | case3 => rfl

theorem registerBytes_bytesToRegisters {bytes : List UInt8} (heven : bytes.length % 2 = 0) :
    registerBytes (bytesToRegisters bytes) = bytes := by
  induction bytes using bytesToRegisters.induct with
  | case1 hi lo rest ih =>
    simp only [List.length_cons] at heven
    have hrest := ih (by omega)
    unfold registerBytes at hrest ⊢
    rw [bytesToRegisters, List.flatMap_cons, beRegister_fromBeRegister, hrest]
    rfl
  | case2 hi => cases heven
  | case3 => rfl

/-! ## The value of registers -/

/-- The bytes of a register in the byte order. -/
def swapRegister (e : Endianness) (r : UInt16) : UInt16 :=
  if e = .little then fromBeRegister r.toUInt8 (r >>> 8).toUInt8 else r

/-- Registers, the most significant one first. -/
def orient (w : WordOrder) (regs : List UInt16) : List UInt16 :=
  if w = .little then regs.reverse else regs

theorem chunks_registerBytes (regs : List UInt16) : chunks (registerBytes regs) =
    regs.map beRegister := by
  induction regs with
  | nil => rfl
  | cons r regs ih =>
    show chunks ((r >>> 8).toUInt8 :: r.toUInt8 :: registerBytes regs) = _
    rw [chunks, ih]
    rfl

theorem swapWord_beRegister (e : Endianness) (r : UInt16) :
    swapWord e (beRegister r) = beRegister (swapRegister e r) := by
  cases e with
  | big => rfl
  | little =>
    show [r.toUInt8, (r >>> 8).toUInt8] = beRegister (fromBeRegister r.toUInt8 (r >>> 8).toUInt8)
    rw [beRegister_fromBeRegister]

theorem reorder_registerBytes (regs : List UInt16) (e : Endianness) (w : WordOrder) :
    reorder (registerBytes regs) e w = registerBytes ((orient w regs).map (swapRegister e)) := by
  have hwords : ∀ words : List UInt16, (words.map beRegister).flatMap (swapWord e) =
      registerBytes (words.map (swapRegister e)) := by
    intro words
    unfold registerBytes
    rw [List.flatMap_map, List.flatMap_map]
    simp only [swapWord_beRegister]
  unfold reorder orient
  rw [chunks_registerBytes]
  cases w with
  | big => exact hwords regs
  | little =>
    show ((regs.map beRegister).reverse).flatMap (swapWord e) = _
    rw [← List.map_reverse]
    exact hwords regs.reverse

theorem fromBeBytes_registerBytes_concat (regs : List UInt16) (r : UInt16) :
    fromBeBytes (registerBytes (regs ++ [r])) = fromBeBytes (registerBytes regs) * 65536 +
      r.toNat := by
  have hlt := r.toNat_lt
  have hbytes : registerBytes (regs ++ [r]) =
      registerBytes regs ++ [(r >>> 8).toUInt8] ++ [r.toUInt8] := by
    simp [registerBytes, beRegister]
  have hhigh : ((r >>> 8).toUInt8).toNat = r.toNat / 256 := by
    rw [UInt16.toNat_toUInt8, UInt16.toNat_shiftRight]
    show r.toNat >>> 8 % 2 ^ 8 = _
    rw [Nat.shiftRight_eq_div_pow]
    omega
  have hlow : r.toUInt8.toNat = r.toNat % 256 := UInt16.toNat_toUInt8 r
  rw [hbytes, fromBeBytes_concat, fromBeBytes_concat, hhigh, hlow]
  omega

theorem testBit_registerBytes (regs : List UInt16) (k : Nat) :
    (fromBeBytes (registerBytes regs)).testBit k =
      ((regs.reverse[k / 16]?).getD 0).toNat.testBit (k % 16) := by
  induction regs using List.reverseRecOn generalizing k with
  | nil => simp [registerBytes]
  | append_singleton regs r ih =>
    have hlt : r.toNat < 2 ^ 16 := r.toNat_lt
    rw [fromBeBytes_registerBytes_concat, List.reverse_append, List.reverse_singleton,
      List.singleton_append, Nat.mul_comm _ 65536]
    show (2 ^ 16 * fromBeBytes (registerBytes regs) + r.toNat).testBit k = _
    rw [Nat.testBit_two_pow_mul_add _ hlt]
    by_cases hk : k < 16
    · rw [if_pos hk, Nat.div_eq_of_lt hk, Nat.mod_eq_of_lt hk]
      rfl
    · have hdiv : k / 16 = (k - 16) / 16 + 1 := by omega
      have hmod : k % 16 = (k - 16) % 16 := by omega
      rw [if_neg hk, ih, hdiv, hmod, List.getElem?_cons_succ]

/-- **The layout**: the bits of a point's value in its registers. -/
theorem testBit_canonical (regs : List UInt16) (e : Endianness) (w : WordOrder) (k : Nat) :
    (Bitfield.canonical (registerBytes regs) e w).testBit k =
      (swapRegister e (((orient w regs).reverse[k / 16]?).getD 0)).toNat.testBit (k % 16) := by
  have hswap : swapRegister e 0 = 0 := by cases e <;> rfl
  unfold Bitfield.canonical
  rw [reorder_registerBytes, testBit_registerBytes, ← List.map_reverse, List.getElem?_map]
  cases (orient w regs).reverse[k / 16]? with
  | some r => rfl
  | none => simp only [Option.map_none, Option.getD_none, hswap]

end TedgeDot.Modbus
