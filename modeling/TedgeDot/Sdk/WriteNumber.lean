import TedgeDot.Map.WriteBack
import TedgeDot.Sdk.EncodeAgreement

/-!
# Writing a number

The value of a `write` command, from its text in the payload to the bytes of a point of an integer
datatype that has neither a transform nor a map. The connectors make a double of a JSON number
before the encoder sees it (`json_to_value`); a string is carried as text.

- `connector_exact_iff`, `c_exact_iff`: for which requests a write that succeeds has written the
  number that was asked for, in a connector of the Rust runtime and on the C path;
  `numbers_exact_iff` has both.
-/

namespace TedgeDot.WriteNumber

open Binary64 Codec

/-- The value of a `write` command: the text of a JSON number, or a string. -/
inductive Asked where
  | number (text : String)
  | string (text : String)

def Asked.exact : Asked → Option ℚ
  | .number text | .string text => Decimal.exact text

/-! ## The Rust connectors -/

section Rust

-- the double that `serde_json` reads, of what is no integer of 64 bits; none where it is too large
variable (float : String → Option Float)

/-- A number as `serde_json` reads it: integers of 64 bits are kept as such. -/
def parseNumber (text : String) : Option Number :=
  match Decimal.parseU64 text with
  | some n => some (.posInt (UInt64.ofNat n.toNat))
  | none =>
    match Decimal.parseInt text with
    | some n =>
      if -2 ^ 63 ≤ n ∧ n < 0 then some (.negInt (Int64.ofInt n))
      -- the digits fit, and the number is negated as a double
      else if -2 ^ 64 < n ∧ n ≤ 0 then some (.float (-(UInt64.ofNat n.natAbs).toFloat))
      else (float text).map .float
    | none => (float text).map .float

/-- The request's value as the connector gets it; nothing where the payload is no JSON. -/
def Asked.json : Asked → Option Json
  | .number text => (parseNumber float text).map .number
  | .string text => some (.string text)

inductive Connector where
  | modbus
  | canopen
  | profibus
deriving DecidableEq

/-- The byte order in which a connector encodes. -/
def Connector.order (c : Connector) (e : Endianness) (w : WordOrder) : Endianness × WordOrder :=
  match c with
  | .modbus | .profibus => (e, w)
  | .canopen => (.little, .big)

/-- The byte order on the wire: that of the point, and little-endian for CANopen. -/
def Connector.wireOrder (c : Connector) (e : Endianness) (w : WordOrder) :
    Endianness × WordOrder :=
  match c with
  | .modbus | .profibus => (e, w)
  | .canopen => (.little, .little)

/-- `write_point`, `platform_execute` and `encode_point`, up to the bytes of the value. -/
def Connector.encode (c : Connector) (dt : DataType) (e : Endianness) (w : WordOrder)
    (asked : Asked) : Option (List UInt8) := do
  let json ← asked.json float
  let value ← TedgeDot.Connector.jsonToValue json
  (encodePrimitive value dt (c.order e w).1 (c.order e w).2).toOption

/-- A write that succeeds has written the number that was asked for. -/
def Connector.Exact (c : Connector) (dt : DataType) (e : Endianness) (w : WordOrder)
    (asked : Asked) : Prop :=
  ∀ bytes, c.encode float dt e w asked = some bytes → asked.exact =
    some (ofBytes dt (Codec.reorder bytes (c.wireOrder e w).1 (c.wireOrder e w).2) : ℚ)

/-- An integer with its 16-bit words in reverse order. -/
def turned (dt : DataType) (n : Int) : Int :=
  ofBytes dt (chunks (intBytes (width dt) n)).reverse.flatten

/-- The integer on the wire of one that is encoded. -/
def Connector.onWire (c : Connector) (dt : DataType) (n : Int) : Int :=
  match c with
  | .modbus | .profibus => n
  | .canopen => turned dt n

/-- The JSON numbers that a connector in Rust takes for what they are, as they are parsed. -/
def Connector.KeepsNumber (c : Connector) (dt : DataType) (text : String) : Number → Prop
  -- the double of an integer is out of range, or the integer itself
  | .posInt n => InRange dt (roundInt n.toNat) → c.onWire dt (roundInt n.toNat) = n.toNat
  | .negInt n => InRange dt (roundInt n.toInt) → c.onWire dt (roundInt n.toInt) = n.toInt
  | .float f => ∀ n, InRange dt n → Stands f n → Decimal.exact text = some (c.onWire dt n : ℚ)

/-- The requests that a connector in Rust takes for what they are. -/
def Connector.Keeps (c : Connector) (dt : DataType) : Asked → Prop
  | .number text => ∀ number, parseNumber float text = some number → c.KeepsNumber dt text number
  | .string text =>
    match dt with
    | .int64 => ∀ n, Decimal.parseI64 text = some n → c.onWire dt n = n
    | .uint64 => ∀ n, Decimal.parseU64 text = some n → c.onWire dt n = n
    | _ => ∀ n, InRange dt n → TdotCodec.ReadsAs text n →
      Decimal.exact text = some (c.onWire dt n : ℚ)

end Rust

/-! ## The C write path -/

/-- `valuedouble`, of a number that `strtod` reads. -/
def valuedouble (text : String) : Option Float := Decimal.parseF64 text

/-- `json_to_value` of `runtime.c`: a string is cut to the size of the buffer. -/
def tdotValue : Asked → Option TdotValue
  | .number text => (valuedouble text).map .num
  | .string text =>
    some (.str ((TdotCodec.cString (Utf8.encode text)).take (TdotCodec.STR_SIZE - 1)))

/-- `do_write`, up to the bytes of the value. -/
def cEncode (undefined : TdotCodec.Undefined) (dt : DataType) (e : Endianness) (w : WordOrder)
    (asked : Asked) : Option (List UInt8) := do
  let value ← tdotValue asked
  (TdotCodec.encode undefined dt value e w 16).toOption

/-- A write that succeeds has written the number that was asked for, whatever the conversions give
that C leaves undefined. -/
def CExact (dt : DataType) (e : Endianness) (w : WordOrder) (asked : Asked) : Prop :=
  ∀ undefined bytes, cEncode undefined dt e w asked = some bytes →
    asked.exact = some (ofBytes dt (Codec.reorder bytes e w) : ℚ)

/-- The integer that the C SDK takes a string for: that at its start, as far as the buffer goes. -/
def readInteger (dt : DataType) (text : String) : Int :=
  let str := (TdotCodec.cString (Utf8.encode text)).take (TdotCodec.STR_SIZE - 1)
  if isSigned dt then (TdotCodec.strtoll str).toInt else (TdotCodec.strtoull str).toNat

/-- The requests that the C write path takes for what they are. -/
def CKeeps (dt : DataType) : Asked → Prop
  | .number text => ∀ f, Decimal.parseF64 text = some f → TdotCodec.Castable dt f ∧
      ∀ n, InRange dt n → Stands f n → Decimal.exact text = some (n : ℚ)
  | .string text =>
    InRange dt (readInteger dt text) → Decimal.exact text = some (readInteger dt text : ℚ)

/-! ## Rust -/

section

variable {dt : DataType} {e : Endianness} {w : WordOrder}

theorem onWire_spec (h : dt.isInteger = true) (c : Connector) {n : Int} (hrange : InRange dt n) :
    ofBytes dt (Codec.reorder (TdotCodec.wire dt (c.order e w).1 (c.order e w).2 n)
      (c.wireOrder e w).1 (c.wireOrder e w).2) = c.onWire dt n := by
  cases c with
  | modbus => exact TdotCodec.ofBytes_wire h hrange
  | profibus => exact TdotCodec.ofBytes_wire h hrange
  | canopen =>
    have hwhole : Whole (intBytes (width dt) n) := whole_of_integer h (length_toBeBytes _ _)
    show ofBytes dt (Codec.reorder (Codec.reorder (intBytes (width dt) n) .little .big)
      .little .little) = turned dt n
    unfold turned
    generalize intBytes (width dt) n = be at hwhole
    rcases hwhole.cases with ⟨a, rfl⟩ | ⟨a, b, rfl⟩ | ⟨a, b, c, d, rfl⟩ |
      ⟨a, b, c, d, i, j, k, l, rfl⟩ <;> rfl

theorem encodes_iff (h : dt.isInteger = true) (c : Connector) {value : Value} {q : Option ℚ} :
    (∀ bytes, (encodePrimitive value dt (c.order e w).1 (c.order e w).2).toOption = some bytes →
      q = some (ofBytes dt (Codec.reorder bytes (c.wireOrder e w).1 (c.wireOrder e w).2) : ℚ)) ↔
      ∀ n, integerOf value dt = .ok n → q = some (c.onWire dt n : ℚ) := by
  rw [TdotCodec.encodePrimitive_toOption h]
  constructor
  · intro hbytes n hn
    have hq := hbytes (TdotCodec.wire dt (c.order e w).1 (c.order e w).2 n)
      (by rw [toOption_eq_some_iff.mpr hn, Option.map_some])
    rwa [onWire_spec h c (integerOf_spec h hn).1] at hq
  · intro hinteger bytes hbytes
    obtain ⟨n, hn, rfl⟩ := Option.map_eq_some_iff.mp hbytes
    have hok := toOption_eq_some_iff.mp hn
    rw [onWire_spec h c (integerOf_spec h hok).1]
    exact hinteger n hok

theorem stands_round {v n : Int} (hlow : -2 ^ 64 < v) (hhigh : v < 2 ^ 64) :
    Stands (ofInt v) n ↔ roundInt v = n := by
  obtain ⟨hfinite, hrat⟩ := ofInt_spec (moderate_of_lt hlow hhigh)
  constructor
  · rintro ⟨-, hn⟩
    exact_mod_cast hrat.symm.trans hn
  · rintro rfl
    exact ⟨hfinite, hrat⟩

theorem number_iff (h : dt.isInteger = true) (g : Int → Int) {f : Float} {q : Option ℚ} :
    (∀ n, integerOf (.number f) dt = .ok n → q = some (g n : ℚ)) ↔
      ∀ n, InRange dt n → Stands f n → q = some (g n : ℚ) := by
  constructor
  · intro hok n hrange hstands
    exact hok n ((TdotCodec.integerOf_number h).mpr ⟨hstands, hrange⟩)
  · intro hstands n hn
    obtain ⟨hn, hrange⟩ := (TdotCodec.integerOf_number h).mp hn
    exact hstands n hrange hn

theorem integer_iff (h : dt.isInteger = true) (g : Int → Int) {v : Int} (hlow : -2 ^ 64 < v)
    (hhigh : v < 2 ^ 64) :
    (∀ n, integerOf (.number (ofInt v)) dt = .ok n → some (v : ℚ) = some (g n : ℚ)) ↔
      (InRange dt (roundInt v) → g (roundInt v) = v) := by
  rw [number_iff h]
  constructor
  · intro hexact hrange
    have hv := Option.some.inj (hexact _ hrange ((stands_round hlow hhigh).mpr rfl))
    exact_mod_cast hv.symm
  · intro hround n hrange hstands
    obtain rfl := (stands_round hlow hhigh).mp hstands
    rw [hround hrange]

theorem asF64_posInt (n : UInt64) : (Number.posInt n).asF64 = ofInt n.toNat := rfl

theorem asF64_negInt {n : Int64} (hn : n.toInt < 0) : (Number.negInt n).asF64 = ofInt n.toInt := by
  have hlow := n.le_toInt
  have habs : (UInt64.ofNat n.toInt.natAbs).toNat = n.toInt.natAbs :=
    UInt64.toNat_ofNat_of_lt' (show n.toInt.natAbs < 2 ^ 64 by omega)
  show -ofInt (UInt64.ofNat n.toInt.natAbs).toNat = _
  rw [habs, neg_ofInt (by omega) (moderate_of_lt (by omega) (by omega))]
  congr 1
  omega

/-- A JSON number is unsigned, negative or a double. -/
theorem parseNumber_cases {float : String → Option Float} {text : String} {number : Number}
    (h : parseNumber float text = some number) :
    (∃ n : UInt64, number = .posInt n ∧ Decimal.exact text = some ((n.toNat : Int) : ℚ)) ∨
      (∃ n : Int64, number = .negInt n ∧ n.toInt < 0 ∧
        Decimal.exact text = some (n.toInt : ℚ)) ∨
      ∃ f, number = .float f := by
  unfold parseNumber at h
  cases hunsigned : Decimal.parseU64 text with
  | some v =>
    simp only [hunsigned, Option.some.injEq] at h
    obtain ⟨hint, hlow, hhigh⟩ := Decimal.parseU64_spec hunsigned
    refine .inl ⟨_, h.symm, ?_⟩
    rw [Decimal.exact_of_parseInt hint,
      UInt64.toNat_ofNat_of_lt' (show v.toNat < 2 ^ 64 by omega), Int.toNat_of_nonneg hlow]
  | none =>
    cases hint : Decimal.parseInt text with
    | none =>
      simp only [hunsigned, hint, Option.map_eq_some_iff] at h
      obtain ⟨f, -, rfl⟩ := h
      exact .inr (.inr ⟨f, rfl⟩)
    | some v =>
      simp only [hunsigned, hint] at h
      by_cases hneg : -2 ^ 63 ≤ v ∧ v < 0
      · rw [if_pos hneg] at h
        have hv : (Int64.ofInt v).toInt = v := Int64.toInt_ofInt_of_le (by omega) (by omega)
        refine .inr (.inl ⟨_, (Option.some.inj h).symm, ?_, ?_⟩)
        · rw [hv]
          exact hneg.2
        · rw [hv, Decimal.exact_of_parseInt hint]
      · rw [if_neg hneg] at h
        split at h
        · exact .inr (.inr ⟨_, (Option.some.inj h).symm⟩)
        · obtain ⟨f, -, rfl⟩ := Option.map_eq_some_iff.mp h
          exact .inr (.inr ⟨f, rfl⟩)

/-- A number in a text is kept where the connector's type reads it exactly. -/
theorem string_iff (h : dt.isInteger = true) (float : String → Option Float) (c : Connector)
    {text : String} :
    (∀ n, integerOf (.text text) dt = .ok n → Decimal.exact text = some (c.onWire dt n : ℚ)) ↔
      c.Keeps float dt (.string text) := by
  -- a text that is parsed as the type itself is exact or refused
  have hparsed : ∀ {parse : Option Int}, (integerOf (.text text) dt).toOption = parse →
      (∀ n, parse = some n → Decimal.exact text = some (n : ℚ)) →
      ((∀ n, integerOf (.text text) dt = .ok n →
          Decimal.exact text = some (c.onWire dt n : ℚ)) ↔
        ∀ n, parse = some n → c.onWire dt n = n) := by
    intro parse hparse hexact
    constructor
    · intro hok n hn
      have hq := hok n (toOption_eq_some_iff.mp (hparse.trans hn))
      rw [hexact n hn] at hq
      exact_mod_cast (Option.some.inj hq).symm
    · intro hkeeps n hn
      have hn := hparse.symm.trans (toOption_eq_some_iff.mpr hn)
      rw [hexact n hn, hkeeps n hn]
  by_cases h64 : dt = .int64
  · subst h64
    refine hparsed (TdotCodec.integerOf_text_int64 text) fun n hn => ?_
    exact Decimal.exact_of_parseInt (Option.filter_eq_some_iff.mp hn).1
  · by_cases hu64 : dt = .uint64
    · subst hu64
      refine hparsed (TdotCodec.integerOf_text_uint64 text) fun n hn => ?_
      exact Decimal.exact_of_parseInt (Decimal.parseU64_spec hn).1
    · have hkeeps : c.Keeps float dt (.string text) ↔ ∀ n, InRange dt n →
          TdotCodec.ReadsAs text n → Decimal.exact text = some (c.onWire dt n : ℚ) := by
        cases dt <;> first | contradiction | rfl
      rw [hkeeps]
      constructor
      · intro hok n hrange hreads
        exact hok n ((TdotCodec.integerOf_text_small h h64 hu64).mpr ⟨hreads, hrange⟩)
      · intro hkeeps n hn
        obtain ⟨hreads, hrange⟩ := (TdotCodec.integerOf_text_small h h64 hu64).mp hn
        exact hkeeps n hrange hreads

/-- What each Rust connector keeps. -/
theorem connector_exact_iff (h : dt.isInteger = true) (float : String → Option Float)
    (c : Connector) (asked : Asked) :
    c.Exact float dt e w asked ↔ c.Keeps float dt asked := by
  cases asked with
  | string text => exact (encodes_iff h c).trans (string_iff h float c)
  | number text =>
    cases hparse : parseNumber float text with
    | none => simp [Connector.Exact, Connector.encode, Asked.json, Connector.Keeps, hparse]
    | some number =>
      have hexact : c.Exact float dt e w (.number text) ↔
          ∀ n, integerOf (.number number.asF64) dt = .ok n →
            Decimal.exact text = some (c.onWire dt n : ℚ) := by
        rw [← @encodes_iff dt e w h c]
        unfold Connector.Exact Connector.encode
        rw [show Asked.json float (.number text) = some (.number number) by
          rw [Asked.json, hparse, Option.map_some]]
        rfl
      have hkeeps : c.Keeps float dt (.number text) ↔ c.KeepsNumber dt text number := by
        simp only [Connector.Keeps, hparse, Option.some.injEq, forall_eq']
      rw [hexact, hkeeps]
      rcases parseNumber_cases hparse with ⟨n, rfl, hn⟩ | ⟨n, rfl, hneg, hn⟩ | ⟨f, rfl⟩
      · have hhigh := n.toNat_lt
        rw [hn, asF64_posInt]
        exact integer_iff h _ (by omega) (by omega)
      · have hlow := n.le_toInt
        rw [hn, asF64_negInt hneg]
        exact integer_iff h _ (by omega) (by omega)
      · exact number_iff h _

/-! ## C -/

theorem c_encodes_iff (h : dt.isInteger = true) {undefined : TdotCodec.Undefined}
    {value : TdotValue} {q : Option ℚ} :
    (∀ bytes, (TdotCodec.encode undefined dt value e w 16).toOption = some bytes →
      q = some (ofBytes dt (Codec.reorder bytes e w) : ℚ)) ↔
      ∀ n, InRange dt n → TdotCodec.taken undefined dt value = some n → q = some (n : ℚ) := by
  rw [TdotCodec.encode_toOption h (by decide)]
  constructor
  · intro hbytes n hrange hn
    have hq := hbytes (TdotCodec.wire dt e w n)
      (by rw [hn, Option.filter_some, if_pos (decide_eq_true hrange), Option.map_some])
    rwa [TdotCodec.ofBytes_wire h hrange] at hq
  · intro hinteger bytes hbytes
    obtain ⟨n, hn, rfl⟩ := Option.map_eq_some_iff.mp hbytes
    obtain ⟨hn, hrange⟩ := Option.filter_eq_some_iff.mp hn
    have hrange := of_decide_eq_true hrange
    rw [TdotCodec.ofBytes_wire h hrange]
    exact hinteger n hrange hn

/-- Where every conversion that is left open gives one value. -/
def always (k : Nat) : TdotCodec.Undefined := ⟨fun _ => Int64.ofNat k, fun _ => UInt64.ofNat k⟩

/-- A number that C cannot cast is taken for anything. -/
theorem taken_always {f : Float} (hcast : ¬ TdotCodec.Castable dt f) {k : Nat} (hk : k < 2) :
    TdotCodec.taken (always k) dt (.num f) = some (k : Int) := by
  unfold TdotCodec.Castable at hcast
  rw [not_or, Bool.not_eq_false] at hcast
  obtain ⟨hfloor, hout⟩ := hcast
  cases hsigned : TdotCodec.isSigned dt with
  | true =>
    rw [hsigned, if_pos rfl] at hout
    rw [TdotCodec.taken_signed hsigned hfloor, TdotCodec.castI64, if_neg hout]
    interval_cases k <;> rfl
  | false =>
    rw [hsigned, if_neg Bool.false_ne_true] at hout
    have hneg : ¬ f < ofInt 0 := by
      intro hneg
      apply hout
      have hzero : Stands (ofInt 0) 0 := stands_ofInt (by omega) (by omega)
      rcases TdotCodec.isFloor_cases hfloor with ⟨n, hn⟩ | ⟨s, hs⟩
      · have hn0 := (hn.lt_iff hzero).mp hneg
        exact (hn.lt_iff stands_bounds.2.2).mpr (by omega)
      · exact (infinite_lt hs stands_bounds.2.2.1).mpr ((infinite_lt hs hzero.1).mp hneg)
    rw [TdotCodec.taken_unsigned hsigned hfloor, if_neg hneg, TdotCodec.castU64,
      if_neg fun hin => hout hin.2]
    interval_cases k <;> rfl

theorem taken_castable (h : dt.isInteger = true) {undefined : TdotCodec.Undefined} {f : Float}
    (hcast : TdotCodec.Castable dt f) {n : Int} :
    (InRange dt n ∧ TdotCodec.taken undefined dt (.num f) = some n) ↔
      InRange dt n ∧ Stands f n := by
  have hagree := (TdotCodec.agree_number h).mpr hcast undefined
  have hfilter : (TdotCodec.taken undefined dt (.num f)).filter (InRange dt ·) = some n ↔
      TdotCodec.taken undefined dt (.num f) = some n ∧ InRange dt n := by
    rw [Option.filter_eq_some_iff, decide_eq_true_iff]
  rw [and_comm, ← hfilter, ← hagree, toOption_eq_some_iff, TdotCodec.integerOf_number h,
    and_comm]

theorem c_number_iff (h : dt.isInteger = true) {f : Float} {q : Option ℚ} :
    (∀ undefined n, InRange dt n → TdotCodec.taken undefined dt (.num f) = some n →
      q = some (n : ℚ)) ↔
      TdotCodec.Castable dt f ∧ ∀ n, InRange dt n → Stands f n → q = some (n : ℚ) := by
  constructor
  · intro htaken
    have hcast : TdotCodec.Castable dt f := by
      by_contra hcast
      -- the conversion may give 0 and may give 1
      have hsmall : InRange dt (0 : Nat) ∧ InRange dt (1 : Nat) := by
        cases dt <;> first | decide | cases h
      have hzero := htaken _ _ hsmall.1 (taken_always hcast (by decide))
      rw [htaken _ _ hsmall.2 (taken_always hcast (by decide))] at hzero
      simp at hzero
    refine ⟨hcast, fun n hrange hstands => ?_⟩
    obtain ⟨-, hn⟩ := (taken_castable h hcast).mpr ⟨hrange, hstands⟩
    exact htaken (always 0) n hrange hn
  · rintro ⟨hcast, hstands⟩ undefined n hrange hn
    exact hstands n hrange ((taken_castable h hcast).mp ⟨hrange, hn⟩).2

theorem taken_string (undefined : TdotCodec.Undefined) (text : String) :
    TdotCodec.taken undefined dt
        (.str ((TdotCodec.cString (Utf8.encode text)).take (TdotCodec.STR_SIZE - 1))) =
      some (readInteger dt text) := by
  have hstring : TdotCodec.cString
      ((TdotCodec.cString (Utf8.encode text)).take (TdotCodec.STR_SIZE - 1)) =
      (TdotCodec.cString (Utf8.encode text)).take (TdotCodec.STR_SIZE - 1) := by
    apply TdotCodec.cString_of_ne_zero
    intro b hb
    have hb := List.mem_takeWhile_imp (List.mem_of_mem_take hb)
    simpa using hb
  unfold TdotCodec.taken readInteger
  simp only [hstring, TdotCodec.isSigned_eq]
  exact (apply_ite some _ _ _).symm

/-- What the C connectors keep. -/
theorem c_exact_iff (h : dt.isInteger = true) (asked : Asked) :
    CExact dt e w asked ↔ CKeeps dt asked := by
  cases asked with
  | number text =>
    cases hparse : Decimal.parseF64 text with
    | none => simp [CExact, cEncode, tdotValue, valuedouble, CKeeps, hparse]
    | some f =>
      have hkeeps : CKeeps dt (.number text) ↔ TdotCodec.Castable dt f ∧
          ∀ n, InRange dt n → Stands f n → Decimal.exact text = some (n : ℚ) := by
        simp only [CKeeps, hparse, Option.some.injEq, forall_eq']
      rw [hkeeps, ← c_number_iff h]
      apply forall_congr'
      intro undefined
      rw [← @c_encodes_iff dt e w h]
      unfold cEncode
      rw [show tdotValue (.number text) = some (.num f) by
        rw [tdotValue, valuedouble, hparse, Option.map_some]]
      rfl
  | string text =>
    have hkeeps : CKeeps dt (.string text) ↔ ∀ undefined n, InRange dt n →
        TdotCodec.taken undefined dt
          (.str ((TdotCodec.cString (Utf8.encode text)).take (TdotCodec.STR_SIZE - 1))) = some n →
        Decimal.exact text = some (n : ℚ) := by
      simp only [TedgeDot.WriteNumber.CKeeps, taken_string, Option.some.injEq]
      constructor
      · rintro hkeeps _ n hrange rfl
        exact hkeeps hrange
      · intro hkeeps hrange
        exact hkeeps (always 0) _ hrange rfl
    rw [hkeeps]
    apply forall_congr'
    intro undefined
    rw [← @c_encodes_iff dt e w h]
    rfl

/-! ## The write paths -/

/-- A write that succeeds has written the number that was asked for, in each connector and on the C
path, exactly where the number survives the double and, in CANopen, the order of its words. -/
theorem numbers_exact_iff (h : dt.isInteger = true) (float : String → Option Float)
    (e : Endianness) (w : WordOrder) (asked : Asked) :
    ((∀ c : Connector, c.Exact float dt e w asked) ∧ CExact dt e w asked) ↔
      (∀ c : Connector, c.Keeps float dt asked) ∧ CKeeps dt asked := by
  apply and_congr _ (c_exact_iff h asked)
  exact forall_congr' fun c => connector_exact_iff h float c asked

end

theorem parseNumber_toString (float : String → Option Float) {v : Int} (hlow : 0 ≤ v)
    (hhigh : v < 2 ^ 64) :
    parseNumber float (toString v) = some (.posInt (UInt64.ofNat v.toNat)) := by
  unfold parseNumber
  rw [Decimal.parseU64_toString hlow hhigh]

/-- The number 5, by every connector. -/
theorem numbers_exact_five :
    (∀ c : Connector, c.Exact (fun _ => none) .uint16 .big .big (.number (toString (5 : Int)))) ∧
      CExact .uint16 .big .big (.number (toString (5 : Int))) := by
  refine (numbers_exact_iff rfl _ _ _ _).mpr ⟨?_, ?_⟩
  · intro c number hnumber
    rw [parseNumber_toString _ (by decide) (by decide)] at hnumber
    obtain rfl := Option.some.inj hnumber
    intro _
    cases c <;> decide
  · intro f hf
    rw [Decimal.parseF64_toString] at hf
    obtain rfl := Option.some.inj hf
    refine ⟨Or.inr (by decide), fun n _ hstands => ?_⟩
    rw [Decimal.exact_toString, ← (stands_round (by decide) (by decide)).mp hstands]
    rfl

/-- 2 ^ 53 + 1 is written as 2 ^ 53 and the write succeeds; in CANopen 65536 is written as 1. -/
theorem neighbour_written :
    (¬ Connector.modbus.Exact (fun _ => none) .uint64 .big .big
      (.number (toString (9007199254740993 : Int)))) ∧
    (¬ CExact .uint64 .big .big (.number (toString (9007199254740993 : Int)))) ∧
    ¬ Connector.canopen.Exact (fun _ => none) .uint32 .big .big
      (.number (toString (65536 : Int))) := by
  refine ⟨?_, ?_, ?_⟩
  · rw [connector_exact_iff rfl]
    intro hkeeps
    have hround := hkeeps _ (parseNumber_toString _ (by decide) (by decide))
    exact absurd (hround (by decide)) (by decide)
  · rw [c_exact_iff rfl]
    intro hkeeps
    obtain ⟨-, hexact⟩ := hkeeps _ (Decimal.parseF64_toString _)
    have heq := hexact 9007199254740992 (by decide)
      ((stands_round (by decide) (by decide)).mpr (by decide))
    rw [Decimal.exact_toString] at heq
    norm_num at heq
  · rw [connector_exact_iff rfl]
    intro hkeeps
    have hturned := hkeeps _ (parseNumber_toString _ (by decide) (by decide))
    exact absurd (hturned (by decide)) (by decide)

end TedgeDot.WriteNumber
