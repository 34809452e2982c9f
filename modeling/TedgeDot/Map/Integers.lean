import TedgeDot.Lib.Except
import TedgeDot.Map.TdotMap
import TedgeDot.Map.ValueMap

/-!
# 64-bit integers in maps

A 64-bit integer of a device is matched exactly by an `eq` integer, at any size. A bound, and an
`eq` that is written as a float, is compared as a double, in both SDKs: an integer that no double
holds is rounded first. So a case matches exactly what it encloses, unless the value is outside it
and the doubles do not tell (`Confused`).

The case is read from the TOML table, the source of both SDKs' maps: `Encloses` compares the numbers
as they are written.
-/

namespace TedgeDot.Map

open Binary64

/-! ## Numbers as they are written -/

def exactly : Toml → Option ℚ
  | .integer n => some n.toInt
  | .float f => if f.isFinite then some (toRat f) else none
  | _ => none

def rounded : Toml → Option ℚ
  | .integer n => some (roundInt n.toInt)
  | .float f => if f.isFinite then some (toRat f) else none
  | _ => none

def Equals (x : Toml) (v : Int) : Prop := exactly x = some (v : ℚ)

def AtMost (x : Toml) (v : Int) : Prop := ∃ q, exactly x = some q ∧ q ≤ v

def AtLeast (x : Toml) (v : Int) : Prop := ∃ q, exactly x = some q ∧ (v : ℚ) ≤ q

/-- The value and an integer have the same double. -/
def SameDouble (x : Toml) (v : Int) : Prop := rounded x = some (roundInt v : ℚ)

/-- The values of an `eq`: a scalar is a list of one. -/
def entries : Toml → List Toml
  | .array items => items
  | x => [x]

/-- An `eq` list contains the integer, or the bounds enclose it. -/
def Encloses (case : TomlTable) (v : Int) : Prop :=
  match case.get "eq" with
  | some eq => ∃ x ∈ entries eq, Equals x v
  | none => (∀ lo, case.get "min" = some lo → AtMost lo v) ∧
      ∀ hi, case.get "max" = some hi → AtLeast hi v

/-- The case does not enclose the integer, and doubles do not tell: a float of the `eq` list has the
integer's double, or every bound that the integer violates has. -/
def Confused (case : TomlTable) (v : Int) : Prop :=
  ¬ Encloses case v ∧
  match case.get "eq" with
  | some eq => ∃ f, .float f ∈ entries eq ∧ SameDouble (.float f) v
  | none => (∀ lo, case.get "min" = some lo → ¬ AtMost lo v → SameDouble lo v) ∧
      ∀ hi, case.get "max" = some hi → ¬ AtLeast hi v → SameDouble hi v

/-- A 64-bit integer, signed or unsigned. -/
def Is64 (v : Int) : Prop := -2 ^ 63 ≤ v ∧ v < 2 ^ 64

instance (v : Int) : Decidable (Is64 v) := inferInstanceAs (Decidable (_ ∧ _))

variable {v : Int} {x : Toml} {case : TomlTable} {key : String} {bound : Option Float}

theorem Is64.moderate (h : Is64 v) : Moderate v := by
  obtain ⟨hlow, hhigh⟩ := h
  exact moderate_of_lt (by omega) hhigh

theorem moderate_int64 (i : Int64) : Moderate i.toInt := by
  have := i.le_toInt
  have := i.toInt_lt
  exact moderate_of_lt (by omega) (by omega)

/-! ## Bounds -/

/-- A TOML number with the double it is read as. -/
structure Reads (x : Toml) (d : Float) : Prop where
  finite : d.isFinite = true
  rounded : rounded x = some (toRat d)
  value : ∃ q, exactly x = some q ∧ (∀ v : Int, q ≤ v → toRat d ≤ roundInt v) ∧
    ∀ v : Int, (v : ℚ) ≤ q → roundInt v ≤ toRat d

/-- What the C parser takes for a finite bound is the number written. -/
theorem reads_of_finite {d : Float} (h : TdotMap.finite x = some d) : Reads x d := by
  cases x with
  | integer i =>
    obtain rfl := Option.some.inj h
    obtain ⟨hfinite, hrat⟩ := ofInt_spec (moderate_int64 i)
    refine ⟨hfinite, by rw [hrat]; rfl, i.toInt, rfl, fun v hv => ?_, fun v hv => ?_⟩
    · rw [hrat]
      exact_mod_cast roundInt_mono (by exact_mod_cast hv)
    · rw [hrat]
      exact_mod_cast roundInt_mono (by exact_mod_cast hv)
  | float f =>
    have h : (if f.isFinite = true then some f else none) = some d := h
    split at h
    · rename_i hf
      obtain rfl := Option.some.inj h
      exact ⟨hf, by simp [rounded, hf], toRat f, by simp [exactly, hf],
        fun v hv => toRat_le_roundInt hf hv, fun v hv => roundInt_le_toRat hf hv⟩
    · cases h
  | _ => cases h

theorem Reads.le_iff {d : Float} (h : Reads x d) (hv : Moderate v) :
    d ≤ ofInt v ↔ AtMost x v ∨ SameDouble x v := by
  obtain ⟨q, hq, hbelow, habove⟩ := h.value
  obtain ⟨hfinite, hrat⟩ := ofInt_spec hv
  rw [Binary64.le_iff h.finite hfinite, hrat]
  unfold AtMost SameDouble
  rw [h.rounded, hq]
  constructor
  · intro hle
    rcases le_or_gt q v with hqv | hqv
    · exact .inl ⟨q, rfl, hqv⟩
    · exact .inr (congrArg some (le_antisymm hle (habove v hqv.le)))
  · rintro (⟨q', hq', hqv⟩ | hsame)
    · obtain rfl := Option.some.inj hq'
      exact hbelow v hqv
    · exact (Option.some.inj hsame).le

theorem Reads.ge_iff {d : Float} (h : Reads x d) (hv : Moderate v) :
    ofInt v ≤ d ↔ AtLeast x v ∨ SameDouble x v := by
  obtain ⟨q, hq, hbelow, habove⟩ := h.value
  obtain ⟨hfinite, hrat⟩ := ofInt_spec hv
  rw [Binary64.le_iff hfinite h.finite, hrat]
  unfold AtLeast SameDouble
  rw [h.rounded, hq]
  constructor
  · intro hle
    rcases le_or_gt (v : ℚ) q with hqv | hqv
    · exact .inl ⟨q, rfl, hqv⟩
    · exact .inr (congrArg some (le_antisymm (hbelow v hqv.le) hle))
  · rintro (⟨q', hq', hqv⟩ | hsame)
    · obtain rfl := Option.some.inj hq'
      exact habove v hqv
    · exact (Option.some.inj hsame).ge

theorem numberIn_spec (h : TdotMap.numberIn case key = .ok bound) :
    (case.get key = none ∧ bound = none) ∨
      ∃ x d, case.get key = some x ∧ bound = some d ∧ Reads x d := by
  unfold TdotMap.numberIn at h
  split at h
  · rename_i hnone
    exact .inl ⟨hnone, (Except.ok.inj h).symm⟩
  · rename_i x hx
    split at h
    · rename_i d hd
      exact .inr ⟨x, d, hx, (Except.ok.inj h).symm, reads_of_finite hd⟩
    · cases h

theorem all_le_iff (h : TdotMap.numberIn case key = .ok bound) (hv : Moderate v) :
    bound.all (fun lo => lo ≤ ofInt v) = true ↔
      ∀ lo, case.get key = some lo → AtMost lo v ∨ SameDouble lo v := by
  rcases numberIn_spec h with ⟨hnone, rfl⟩ | ⟨x, d, hx, rfl, hreads⟩
  · simp [hnone]
  · simp [hx, hreads.le_iff hv]

theorem all_ge_iff (h : TdotMap.numberIn case key = .ok bound) (hv : Moderate v) :
    bound.all (fun hi => ofInt v ≤ hi) = true ↔
      ∀ hi, case.get key = some hi → AtLeast hi v ∨ SameDouble hi v := by
  rcases numberIn_spec h with ⟨hnone, rfl⟩ | ⟨x, d, hx, rfl, hreads⟩
  · simp [hnone]
  · simp [hx, hreads.ge_iff hv]

/-! ## The entries of an `eq` -/

/-- What both SDKs take an entry for: an integer exactly, a float as a double. -/
def Matches (x : Toml) (v : Int) : Prop :=
  (∃ i, x = .integer i ∧ i.toInt = v) ∨ ∃ f, x = .float f ∧ SameDouble x v

theorem roundInt_inj {a v : Int} (hlow : SAFE_INT_MIN ≤ v) (hhigh : v ≤ SAFE_INT_MAX)
    (h : roundInt a = roundInt v) : a = v := by
  unfold SAFE_INT_MIN at hlow
  unfold SAFE_INT_MAX at hhigh
  have hv : roundInt v = v := roundInt_of_le (by omega) (by omega)
  exact eq_of_roundInt_eq (by omega) (by omega) (h.trans hv)

theorem ofInt_beq {a v : Int} (ha : Moderate a) (hv : Moderate v) :
    (ofInt a == ofInt v) = true ↔ roundInt a = roundInt v := by
  rw [beq_iff (ofInt_spec ha).1 (ofInt_spec hv).1, (ofInt_spec ha).2, (ofInt_spec hv).2]
  exact Int.cast_inj

theorem float_beq {f : Float} (hf : f.isFinite = true) (hv : Moderate v) :
    (f == ofInt v) = true ↔ SameDouble (.float f) v := by
  have hrounded : rounded (.float f) = some (toRat f) := by simp [rounded, hf]
  rw [beq_iff hf (ofInt_spec hv).1, (ofInt_spec hv).2, SameDouble, hrounded, Option.some_inj]

theorem matches_integer {i : Int64} : Matches (.integer i) v ↔ i.toInt = v := by
  simp [Matches]

theorem matches_float {f : Float} : Matches (.float f) v ↔ SameDouble (.float f) v := by
  simp [Matches]

theorem matches_of_equals (h : Equals x v) : Matches x v := by
  cases x with
  | integer i =>
    have h : some ((i.toInt : Int) : ℚ) = some (v : ℚ) := h
    exact matches_integer.mpr (by exact_mod_cast Option.some.inj h)
  | float f =>
    have h : (if f.isFinite = true then some (toRat f) else none) = some (v : ℚ) := h
    split at h
    · rename_i hf
      have hv := Option.some.inj h
      have hround : toRat f = roundInt v :=
        le_antisymm (toRat_le_roundInt hf hv.le) (roundInt_le_toRat hf hv.ge)
      apply matches_float.mpr
      simp [SameDouble, rounded, hf, hround]
    · cases h
  | _ => cases h

theorem matches_iff : Matches x v ↔ Equals x v ∨ ∃ f, x = .float f ∧ SameDouble x v := by
  constructor
  · rintro (⟨i, rfl, hi⟩ | h)
    · exact .inl (by rw [Equals, exactly, hi])
    · exact .inr h
  · rintro (h | h)
    · exact matches_of_equals h
    · exact .inr h

/-! ## What a case comes to -/

def Taken (case : TomlTable) (v : Int) : Prop :=
  match case.get "eq" with
  | some eq => ∃ x ∈ entries eq, Matches x v
  | none => (∀ lo, case.get "min" = some lo → AtMost lo v ∨ SameDouble lo v) ∧
      ∀ hi, case.get "max" = some hi → AtLeast hi v ∨ SameDouble hi v

/-- A case is taken where it encloses the value, or where doubles confuse the two. -/
theorem taken_iff : Taken case v ↔ Encloses case v ∨ Confused case v := by
  unfold Taken Confused Encloses
  cases case.get "eq" with
  | some eq =>
    simp only [matches_iff]
    constructor
    · rintro ⟨x, hx, h | ⟨f, rfl, hf⟩⟩
      · exact .inl ⟨x, hx, h⟩
      · by_cases henc : ∃ x ∈ entries eq, Equals x v
        · exact .inl henc
        · exact .inr ⟨henc, f, hx, hf⟩
    · rintro (⟨x, hx, h⟩ | ⟨-, f, hx, hf⟩)
      · exact ⟨x, hx, .inl h⟩
      · exact ⟨_, hx, .inr ⟨f, rfl, hf⟩⟩
  | none =>
    constructor
    · rintro ⟨hmin, hmax⟩
      by_cases henc : (∀ lo, case.get "min" = some lo → AtMost lo v) ∧
          ∀ hi, case.get "max" = some hi → AtLeast hi v
      · exact .inl henc
      · exact .inr ⟨henc, fun lo hlo hnot => (hmin lo hlo).resolve_left hnot,
          fun hi hhi hnot => (hmax hi hhi).resolve_left hnot⟩
    · rintro (⟨hmin, hmax⟩ | ⟨-, hmin, hmax⟩)
      · exact ⟨fun lo hlo => .inl (hmin lo hlo), fun hi hhi => .inl (hmax hi hhi)⟩
      · exact ⟨fun lo hlo => or_iff_not_imp_left.mpr (hmin lo hlo),
          fun hi hhi => or_iff_not_imp_left.mpr (hmax hi hhi)⟩

theorem exact_iff_of_taken {P : Prop} (h : P ↔ Taken case v) :
    (P ↔ Encloses case v) ↔ ¬ Confused case v := by
  rw [h, taken_iff]
  constructor
  · intro h hconfused
    exact hconfused.1 (h.mp (.inr hconfused))
  · intro hnot
    exact ⟨fun h => h.resolve_right hnot, .inl⟩

/-! ## Integers as text -/

theorem unsigned_text (hv : 0 ≤ v) : ∃ c rest, (toString v).toList = c :: rest ∧
    c ≠ '-' ∧ c ≠ '+' ∧ c :: rest = Nat.toDigits 10 v.toNat := by
  obtain ⟨c, rest, h, hc⟩ := Decimal.toDigits_head v.toNat
  refine ⟨c, rest, by rw [Decimal.toList_toString_of_nonneg hv, h], ?_, ?_, h.symm⟩
  · rintro rfl
    revert hc
    decide
  · rintro rfl
    revert hc
    decide

theorem isI128_of_is64 (h : Is64 v) : isI128 v = true := by
  obtain ⟨hlow, hhigh⟩ := h
  simp only [isI128, Bool.decide_and, Bool.and_eq_true, decide_eq_true_eq]
  omega

/-- The text of a 64-bit integer is read back exactly. -/
theorem bigInteger_toString (h : Is64 v) : bigInteger (toString v) = some v := by
  have hkeep : (some v).filter isI128 = some v := by
    rw [Option.filter_some, if_pos (isI128_of_is64 h)]
  unfold bigInteger parseI128
  rcases le_or_gt 0 v with hv | hv
  · obtain ⟨c, rest, htext, hminus, hplus, hdigits⟩ := unsigned_text hv
    rw [htext]
    split
    · rename_i heq
      exact absurd (List.cons.inj heq).1 hminus
    · rename_i heq
      exact absurd (List.cons.inj heq).1 hplus
    · rw [hdigits, Decimal.digits_toDigits, Option.map_some, Int.toNat_of_nonneg hv]
      exact hkeep
  · rw [Decimal.toList_toString_of_neg hv]
    show ((Decimal.digits _).map fun n : Nat => -(n : Int)).filter isI128 = _
    rw [Decimal.digits_toDigits, Option.map_some, Int.toNat_of_nonneg (by omega), Int.neg_neg]
    exact hkeep

/-- The same in C, with the double next to it. -/
theorem big_spec (h : Is64 v) : ∃ which, TdotMap.bigInteger (toString v) = some which ∧
    which.toDouble = ofInt v ∧ ∀ i : Int64, which.equals i = true ↔ i.toInt = v := by
  obtain ⟨hlow, hhigh⟩ := h
  unfold TdotMap.bigInteger
  rcases le_or_gt 0 v with hv | hv
  · obtain ⟨c, rest, htext, hminus, hplus, hdigits⟩ := unsigned_text hv
    rw [htext]
    have hlt : v.toNat < 2 ^ 64 := by omega
    have hnat : (UInt64.ofNat v.toNat).toNat = v.toNat := UInt64.toNat_ofNat_of_lt' hlt
    refine ⟨.pos (UInt64.ofNat v.toNat), ?_, ?_, fun i => ?_⟩
    · split
      · rename_i heq
        exact absurd (List.cons.inj heq).1 hminus
      · rename_i heq
        exact absurd (List.cons.inj heq).1 hplus
      · rw [TdotMap.strtoull, hdigits, Decimal.digits_toDigits]
        show (if v.toNat < 2 ^ 64 then _ else none) = _
        rw [if_pos hlt]
    · show ofInt _ = _
      rw [hnat, Int.toNat_of_nonneg hv]
    · show (decide (0 ≤ i) && i.toUInt64 == UInt64.ofNat v.toNat) = true ↔ _
      rw [Bool.and_eq_true, decide_eq_true_eq, beq_iff_eq]
      constructor
      · rintro ⟨hi, heq⟩
        have hnat' := Int64.toNat_toUInt64_of_le hi
        rw [heq, hnat, Int64.toNatClampNeg] at hnat'
        have := Int64.le_iff_toInt_le.mp hi
        rw [Int64.toInt_zero] at this
        omega
      · intro hi
        have hi0 : 0 ≤ i := by
          rw [Int64.le_iff_toInt_le, Int64.toInt_zero]
          omega
        refine ⟨hi0, UInt64.toNat_inj.mp ?_⟩
        rw [Int64.toNat_toUInt64_of_le hi0, Int64.toNatClampNeg, hnat, hi]
  -- below zero it is read by `strtoll`
  · have hpos : 0 < (-v).toNat := by omega
    have hle : (-v).toNat ≤ 2 ^ 63 := by omega
    have hcast : -(((-v).toNat : Nat) : Int) = v := by omega
    have hint : (Int64.ofInt v).toInt = v := Int64.toInt_ofInt_of_le (by omega) (by omega)
    rw [Decimal.toList_toString_of_neg hv]
    refine ⟨.neg (Int64.ofInt v), ?_, ?_, fun i => ?_⟩
    · show TdotMap.strtollNeg _ = _
      unfold TdotMap.strtollNeg
      rw [Decimal.digits_toDigits]
      split
      · rename_i heq
        have := Option.some.inj heq
        omega
      · rename_i n _ heq
        obtain rfl := Option.some.inj heq
        rw [if_pos hle, hcast]
      · rename_i heq
        cases heq
    · show ofInt _ = _
      rw [hint]
    · show (i == Int64.ofInt v) = true ↔ _
      rw [beq_iff_eq]
      constructor
      · rintro rfl
        exact hint
      · intro hi
        rw [← hi, Int64.ofInt_toInt]

/-! ## The C SDK -/

theorem sameDouble_of_not_finite {f : Float} (hf : f.isFinite = false) (v : Int) :
    ¬ SameDouble (.float f) v := by
  simp [SameDouble, rounded, hf]

/-- C compares an integer with a listed value exactly. -/
theorem valMatches_iff {val : TdotMap.Val} (hx : TdotMap.scalar x = some val) (hv : Is64 v) :
    TdotMap.valMatches val (intValue v) true = true ↔ Matches x v := by
  -- beyond 2^53 the value is a text, and compared by its digits
  obtain ⟨which, hwhich, hdouble, hequals⟩ := big_spec hv
  have hfinite := (ofInt_spec hv.moderate).1
  cases x with
  | string s =>
    obtain rfl := Option.some.inj hx
    rcases intValue_cases v with ⟨h, -⟩ | h <;> rw [h] <;> simp [TdotMap.valMatches, Matches]
  | boolean b =>
    obtain rfl := Option.some.inj hx
    rcases intValue_cases v with ⟨h, -⟩ | h <;> rw [h] <;> simp [TdotMap.valMatches, Matches]
  | integer i =>
    obtain rfl := Option.some.inj hx
    rw [matches_integer]
    rcases intValue_cases v with ⟨h, hlow, hhigh⟩ | h
    · rw [h]
      show (ofInt i.toInt == ofInt v) = true ↔ _
      rw [ofInt_beq (moderate_int64 i) hv.moderate]
      exact ⟨roundInt_inj hlow hhigh, fun h => by rw [h]⟩
    · rw [h]
      simp only [TdotMap.valMatches, hwhich, Bool.true_and, if_true]
      exact hequals i
  | float f =>
    obtain rfl := Option.some.inj hx
    rw [matches_float]
    have hbeq : (f == ofInt v) = true ↔ SameDouble (.float f) v := by
      cases hf : f.isFinite with
      | true => exact float_beq hf hv.moderate
      | false =>
        rw [beq_of_not_finite hf hfinite]
        simp [sameDouble_of_not_finite hf v]
    rcases intValue_cases v with ⟨h, -⟩ | h
    · rw [h]
      exact hbeq
    · rw [h]
      simp only [TdotMap.valMatches, hwhich, hdouble, Bool.true_and, Bool.false_eq_true, if_false]
      exact hbeq
  | _ => cases hx

theorem asDouble_intValue (hv : Is64 v) : TdotMap.asDouble (intValue v) true = some (ofInt v) := by
  obtain ⟨which, hwhich, hdouble, -⟩ := big_spec hv
  rcases intValue_cases v with ⟨h, -⟩ | h
  · rw [h]
    rfl
  · rw [h]
    show (TdotMap.bigInteger (toString v)).map TdotMap.Big.toDouble = _
    rw [hwhich, Option.map_some, hdouble]

theorem parseEq_spec {eq : Toml} {values : List TdotMap.Val}
    (h : TdotMap.parseEq case eq = .ok values) :
    (entries eq).mapM TdotMap.scalar = some values := by
  have hscalars {items : List Toml} (h : TdotMap.scalars items = .ok values) :
      items.mapM TdotMap.scalar = some values := by
    unfold TdotMap.scalars at h
    split at h
    · rename_i heq
      rw [heq, Except.ok.inj h]
    · cases h
  unfold TdotMap.parseEq at h
  split at h
  · cases h
  · cases eq with
    | array items =>
      cases items with
      | nil => cases h
      | cons item rest => exact hscalars h
    | _ => exact hscalars h

/-- What a case of the C map holds. -/
theorem parseCase_spec {c : TdotMap.TdotCase} (h : TdotMap.parseCase case = .ok c) :
    (∃ eq, case.get "eq" = some eq ∧ c.range = false ∧
      (entries eq).mapM TdotMap.scalar = some c.eq) ∨
    (case.get "eq" = none ∧ c.range = true ∧ TdotMap.numberIn case "min" = .ok c.min ∧
      TdotMap.numberIn case "max" = .ok c.max) := by
  unfold TdotMap.parseCase at h
  split at h
  · cases h
  · split at h
    · cases h
    · obtain ⟨min, hmin, h⟩ := bind_ok h
      obtain ⟨max, hmax, h⟩ := bind_ok h
      split at h
      · cases h
      · cases h
      · rename_i eq heq _
        obtain ⟨values, hvalues, h⟩ := bind_ok h
        obtain rfl := Except.ok.inj h
        exact .inl ⟨eq, heq, rfl, parseEq_spec hvalues⟩
      · rename_i hnone _
        obtain ⟨write, _, h⟩ := bind_ok h
        obtain rfl := Except.ok.inj h
        exact .inr ⟨hnone, rfl, hmin, hmax⟩

theorem tdot_taken {c : TdotMap.TdotCase} (h : TdotMap.parseCase case = .ok c) (hv : Is64 v) :
    TdotMap.caseMatches c (intValue v) true = true ↔ Taken case v := by
  unfold TdotMap.caseMatches Taken
  rcases parseCase_spec h with ⟨eq, heq, hrange, hvalues⟩ | ⟨hnone, hrange, hmin, hmax⟩
  · rw [hrange, heq]
    exact any_of_forall₂ (forall₂_of_mapM hvalues) fun x val hx => valMatches_iff hx hv
  · rw [hrange, hnone, asDouble_intValue hv]
    show (c.min.all (fun lo => lo ≤ ofInt v) && c.max.all fun hi => ofInt v ≤ hi) = true ↔ _
    rw [Bool.and_eq_true, all_le_iff hmin hv.moderate, all_ge_iff hmax hv.moderate]

/-! ## The Rust SDK -/

/-- An integer bound as the double it is compared by. -/
theorem asF64_integer (i : Int64) : (Toml.integer i).toJson.asF64 = some (ofInt i.toInt) := by
  show some (Number.asF64 (if 0 ≤ i then .posInt i.toUInt64 else .negInt i)) = _
  split
  · rename_i hi
    have hpos := Int64.le_iff_toInt_le.mp hi
    rw [Int64.toInt_zero] at hpos
    show some (ofInt i.toUInt64.toNat) = _
    rw [Int64.toNat_toUInt64_of_le hi, Int64.toNatClampNeg, Int.toNat_of_nonneg hpos]
  · rename_i hi
    have hneg : i.toInt < 0 := by
      by_contra hge
      apply hi
      rw [Int64.le_iff_toInt_le, Int64.toInt_zero]
      omega
    have hlow := i.le_toInt
    have hlt : i.toInt.natAbs < 2 ^ 64 := by omega
    have habs : (UInt64.ofNat i.toInt.natAbs).toNat = i.toInt.natAbs :=
      UInt64.toNat_ofNat_of_lt' hlt
    show some (-ofInt (UInt64.ofNat i.toInt.natAbs).toNat) = _
    rw [habs, neg_ofInt (by omega) (moderate_of_lt (by omega) (by omega))]
    congr 2
    omega

theorem asF64_toJson (x : Toml) : x.toJson.asF64.filter Float.isFinite = TdotMap.finite x := by
  cases x with
  | integer i =>
    rw [asF64_integer, Option.filter_some, if_pos (ofInt_spec (moderate_int64 i)).1]
    rfl
  | float f =>
    show (Json.asF64 (if f.isFinite then .number (.float f) else .null)).filter Float.isFinite =
      if f.isFinite = true then some f else none
    cases hf : f.isFinite with
    | true =>
      show (some f).filter Float.isFinite = some f
      rw [Option.filter_some, if_pos hf]
    | false => rfl
  | _ => rfl

theorem number_entriesToJson (case : TomlTable) (key : String) :
    number (Toml.entriesToJson case) key = TdotMap.numberIn case key := by
  unfold number TdotMap.numberIn
  rw [Toml.get_entriesToJson]
  cases case.get key with
  | none => rfl
  | some x =>
    cases hx : TdotMap.finite x with
    | none => simp only [Option.map_some, asF64_toJson, hx]
    | some d => simp only [Option.map_some, asF64_toJson, hx]

/-- Rust compares an integer with a listed integer exactly. -/
theorem eqBig_integer {i : Int64} (hv : Is64 v) :
    eqBig (if 0 ≤ i then .posInt i.toUInt64 else .negInt i) (toString v) = true ↔ i.toInt = v := by
  have hasI64 : Number.asI64 (if 0 ≤ i then .posInt i.toUInt64 else .negInt i) = some i := by
    split
    · rename_i hi
      have hlt := i.toInt_lt
      have hpos := Int64.le_iff_toInt_le.mp hi
      rw [Int64.toInt_zero] at hpos
      have hnat : i.toUInt64.toNat = i.toInt.toNat := by
        rw [Int64.toNat_toUInt64_of_le hi, Int64.toNatClampNeg]
      show (if i.toUInt64.toNat < 2 ^ 63 then some (Int64.ofNat i.toUInt64.toNat) else none) = _
      rw [hnat, if_pos (by omega)]
      congr 1
      rw [← Int64.toInt_inj, Int64.toInt_ofNat_of_lt (by omega)]
      omega
    · rfl
  rw [eqBig, bigInteger_toString hv, hasI64]
  show (v == i.toInt) = true ↔ _
  rw [beq_iff_eq]
  exact eq_comm

/-- So it does with any listed value. -/
theorem eqMatches_iff (hx : (Kind.of x.toJson).isSome = true) (hv : Is64 v) :
    eqMatches x.toJson (intValue v) true = true ↔ Matches x v := by
  cases x with
  | string s =>
    rcases intValue_cases v with ⟨h, -⟩ | h <;> rw [h] <;> simp [eqMatches, Matches, Toml.toJson]
  | boolean b =>
    rcases intValue_cases v with ⟨h, -⟩ | h <;> rw [h] <;> simp [eqMatches, Matches, Toml.toJson]
  | integer i =>
    rw [matches_integer]
    rcases intValue_cases v with ⟨h, hlow, hhigh⟩ | h
    · rw [h]
      have hdouble := Option.some.inj (asF64_integer i)
      show (Number.asF64 (if 0 ≤ i then .posInt i.toUInt64 else .negInt i) == ofInt v) = true ↔ _
      rw [hdouble, ofInt_beq (moderate_int64 i) hv.moderate]
      exact ⟨roundInt_inj hlow hhigh, fun h => by rw [h]⟩
    · rw [h]
      show (true && eqBig _ (toString v)) = true ↔ _
      rw [Bool.true_and]
      exact eqBig_integer hv
  | float f =>
    cases hf : f.isFinite with
    | false => simp [Toml.toJson, hf, Kind.of] at hx
    | true =>
      have hjson : (Toml.float f).toJson = .number (.float f) := by simp [Toml.toJson, hf]
      rw [matches_float, ← float_beq hf hv.moderate, hjson]
      rcases intValue_cases v with ⟨h, -⟩ | h
      · rw [h]
        rfl
      · rw [h]
        show (true && eqBig (.float f) (toString v)) = true ↔ _
        rw [Bool.true_and, eqBig, bigInteger_toString hv]
        rfl
  | datetime s => cases hx
  | array items => cases hx
  | table entries => cases hx

theorem asNumber_intValue (hv : Is64 v) : asNumber (intValue v) true = some (ofInt v) := by
  rcases intValue_cases v with ⟨h, -⟩ | h
  · rw [h]
    rfl
  · rw [h]
    show (bigInteger (toString v)).map ofInt = _
    rw [bigInteger_toString hv, Option.map_some]

theorem itemsToJson_eq (items : List Toml) : Toml.itemsToJson items = items.map Toml.toJson := by
  induction items with
  | nil => rfl
  | cons item items ih => rw [Toml.itemsToJson, ih, List.map_cons]

theorem eqValues_spec {values : List Json} {m : Matcher} (h : eqValues values = .ok m) :
    m = .eq values ∧ ∀ v ∈ values, (Kind.of v).isSome = true := by
  unfold eqValues at h
  split at h
  · cases h
  · rename_i hall
    refine ⟨(Except.ok.inj h).symm, fun v hv => ?_⟩
    by_contra hnone
    apply hall
    exact List.any_eq_true.mpr ⟨v, hv, by simpa using hnone⟩

/-- The matcher of an `eq`: its entries. -/
theorem matcher_of_parseEq {case : JsonMap} {eq : Toml} {m : Matcher}
    (h : parseEq case eq.toJson = .ok m) :
    m = .eq ((entries eq).map Toml.toJson) ∧
      ∀ x ∈ entries eq, (Kind.of x.toJson).isSome = true := by
  have hvalues (items : List Toml) (h : eqValues (items.map Toml.toJson) = .ok m) :
      m = .eq (items.map Toml.toJson) ∧ ∀ x ∈ items, (Kind.of x.toJson).isSome = true := by
    obtain ⟨hm, hall⟩ := eqValues_spec h
    exact ⟨hm, fun x hx => hall x.toJson (List.mem_map_of_mem hx)⟩
  unfold parseEq at h
  split at h
  · cases h
  · cases eq with
    | array items =>
      have hjson : (Toml.array items).toJson = .array (items.map Toml.toJson) := by
        rw [Toml.toJson, itemsToJson_eq]
      rw [hjson] at h
      cases items with
      | nil => cases h
      | cons item rest => exact hvalues (item :: rest) h
    | float f =>
      refine hvalues [.float f] ?_
      rw [← h]
      show eqValues [(Toml.float f).toJson] = _
      cases hf : f.isFinite <;> simp [Toml.toJson, hf]
    | _ => exact hvalues [_] h

/-- The matcher of a case: its `eq`, or the range of its bounds. -/
theorem matcher_of_parseCase {c : Case} (h : parseCase (Toml.table case).toJson = .ok c) :
    (∃ eq, case.get "eq" = some eq ∧ parseEq (Toml.entriesToJson case) eq.toJson = .ok c.matcher) ∨
    (case.get "eq" = none ∧ ∃ min max write, c.matcher = .range min max write ∧
      TdotMap.numberIn case "min" = .ok min ∧ TdotMap.numberIn case "max" = .ok max) := by
  have hobject : (Toml.table case).toJson.asObject = some (Toml.entriesToJson case) := rfl
  unfold parseCase at h
  rw [hobject] at h
  -- the branches of the parser: `eq`, or a range with at least one bound
  split at h
  · cases h
  · rename_i members hmembers
    obtain rfl := Option.some.inj hmembers
    split at h
    · cases h
    · split at h
      · cases h
      · obtain ⟨min, hmin, h⟩ := bind_ok h
        obtain ⟨max, hmax, h⟩ := bind_ok h
        obtain ⟨matcher, hmatcher, h⟩ := bind_ok h
        obtain rfl := Except.ok.inj h
        rw [number_entriesToJson] at hmin hmax
        unfold parseMatcher at hmatcher
        rw [Toml.get_entriesToJson] at hmatcher
        cases heq : case.get "eq" with
        | some eq =>
          rw [heq] at hmatcher
          split at hmatcher
          · cases hmatcher
          · rename_i h' _
            cases h'
          · rename_i eq' _ heq' _
            obtain rfl := Option.some.inj heq'
            exact .inl ⟨eq, rfl, hmatcher⟩
          · rename_i h' _
            cases h'
        | none =>
          rw [heq] at hmatcher
          split at hmatcher
          · cases hmatcher
          · cases hmatcher
          · rename_i h' _
            cases h'
          · unfold parseRange at hmatcher
            split at hmatcher
            · cases hmatcher
            · split at hmatcher
              · exact .inr ⟨rfl, min, max, none, (Except.ok.inj hmatcher).symm, hmin, hmax⟩
              · split at hmatcher
                · cases hmatcher
                · split at hmatcher
                  · cases hmatcher
                  · exact .inr ⟨rfl, min, max, _, (Except.ok.inj hmatcher).symm, hmin, hmax⟩

theorem taken {c : Case} (h : parseCase (Toml.table case).toJson = .ok c) (hv : Is64 v) :
    caseMatches c.matcher (intValue v) true = true ↔ Taken case v := by
  unfold caseMatches Taken
  rcases matcher_of_parseCase h with ⟨eq, heq, hparse⟩ | ⟨hnone, min, max, write, hm, hmin, hmax⟩
  · obtain ⟨hm, hscalar⟩ := matcher_of_parseEq hparse
    rw [hm, heq]
    show ((entries eq).map Toml.toJson).any (fun eq => eqMatches eq (intValue v) true) = true ↔ _
    rw [List.any_map, List.any_eq_true]
    constructor
    · rintro ⟨x, hx, h⟩
      exact ⟨x, hx, (eqMatches_iff (hscalar x hx) hv).mp h⟩
    · rintro ⟨x, hx, h⟩
      exact ⟨x, hx, (eqMatches_iff (hscalar x hx) hv).mpr h⟩
  · rw [hm, hnone]
    simp only [asNumber_intValue hv]
    rw [Bool.and_eq_true, all_le_iff hmin hv.moderate, all_ge_iff hmax hv.moderate]

/-! ## Maps -/

theorem parseCases_get {items : List Json} {i : Nat} {cases : List Case}
    (h : parseCases i items = .ok cases) {k : Nat} {item : Json} (hitem : items[k]? = some item) :
    ∃ c, cases[k]? = some c ∧ parseCase item = .ok c := by
  induction items generalizing i cases k with
  | nil => simp at hitem
  | cons head rest ih =>
    unfold parseCases at h
    split at h
    · cases h
    · rename_i c hc
      obtain ⟨cases', hcases, h⟩ := bind_ok h
      obtain rfl := Except.ok.inj h
      cases k with
      | zero =>
        obtain rfl := Option.some.inj hitem
        exact ⟨c, rfl, hc⟩
      | succ k => exact ih hcases hitem

/-- The cases of the C map stand in their order. -/
theorem tdot_parseCases_get {items : List Toml} {i : Nat} {cases : List TdotMap.TdotCase}
    (h : TdotMap.parseCases i items = .ok cases) {k : Nat} (hitem : items[k]? = some (.table case)) :
    ∃ c, cases[k]? = some c ∧ TdotMap.parseCase case = .ok c := by
  induction items generalizing i cases k with
  | nil => simp at hitem
  | cons head rest ih =>
    unfold TdotMap.parseCases at h
    split at h
    · cases h
    · rename_i t ht
      split at h
      · cases h
      · rename_i c hc
        obtain ⟨cases', hcases, h⟩ := bind_ok h
        obtain rfl := Except.ok.inj h
        cases k with
        | zero =>
          obtain rfl := Option.some.inj hitem
          obtain rfl := Option.some.inj ht
          exact ⟨c, rfl, hc⟩
        | succ k => exact ih hcases hitem

/-- The case of a number of a map's table. -/
def CaseAt (table : TomlTable) (k : Nat) (case : TomlTable) : Prop :=
  ∃ items, table.get "cases" = some (.array items) ∧ items[k]? = some (.table case)

/-- So do those of the Rust map. -/
theorem parse_cases {table : TomlTable} {map : ValueMap}
    (h : ValueMap.parse (Toml.table table).toJson = .ok (some map)) {k : Nat}
    (hcase : CaseAt table k case) :
    ∃ c, map.cases[k]? = some c ∧ parseCase (Toml.table case).toJson = .ok c := by
  obtain ⟨items, hitems, hitem⟩ := hcase
  have hobject : (Toml.table table).toJson.asObject = some (Toml.entriesToJson table) := rfl
  have hget : JsonMap.get (Toml.entriesToJson table) "cases" =
      some (.array (items.map Toml.toJson)) := by
    rw [Toml.get_entriesToJson, hitems, Option.map_some, Toml.toJson, itemsToJson_eq]
  unfold ValueMap.parse at h
  rw [hobject] at h
  split at h
  · cases h
  · rename_i members hmembers
    obtain rfl := Option.some.inj hmembers
    split at h
    · cases h
    · obtain ⟨convert, _, h⟩ := bind_ok h
      obtain ⟨default, _, h⟩ := bind_ok h
      split at h
      · cases h
      · obtain ⟨items', hitems', h⟩ := bind_ok h
        obtain ⟨cases, hcases, h⟩ := bind_ok h
        split at h
        · cases h
        · obtain ⟨_, _, h⟩ := bind_ok h
          obtain rfl := Option.some.inj (Except.ok.inj h)
          rw [caseItems, hget] at hitems'
          obtain rfl := Except.ok.inj hitems'
          apply parseCases_get hcases
          rw [List.getElem?_map, hitem, Option.map_some]

/-- A case of the table is one of the parsed C map. -/
theorem tdot_parse_cases {table : TomlTable} {map : TdotMap.Tdot}
    (h : TdotMap.parse table = .ok (some map)) {k : Nat} (hcase : CaseAt table k case) :
    ∃ c, map.cases[k]? = some c ∧ TdotMap.parseCase case = .ok c := by
  obtain ⟨items, hitems, hitem⟩ := hcase
  unfold TdotMap.parse at h
  split at h
  · cases h
  · obtain ⟨convert, _, h⟩ := bind_ok h
    obtain ⟨default, _, h⟩ := bind_ok h
    split at h
    · cases h
    · obtain ⟨items', hitems', h⟩ := bind_ok h
      obtain ⟨cases, hcases, h⟩ := bind_ok h
      split at h
      · cases h
      · obtain ⟨_, _, h⟩ := bind_ok h
        obtain rfl := Option.some.inj (Except.ok.inj h)
        rw [TdotMap.caseItems, hitems] at hitems'
        obtain rfl := Except.ok.inj hitems'
        exact tdot_parseCases_get hcases hitem

/-- **64-bit integers in maps**: a case of an accepted map matches a 64-bit integer exactly when it
encloses it, unless doubles confuse the two. -/
theorem exact_iff {table : TomlTable} {k : Nat} {case : TomlTable} (hcase : CaseAt table k case)
    {datatype : DataType} (hdatatype : datatype = .int64 ∨ datatype = .uint64) {v : Int}
    (hv : Is64 v) :
    (∀ map, ValueMap.parse (Toml.table table).toJson = .ok (some map) →
      ∃ c, map.cases[k]? = some c ∧
        ((caseMatches c.matcher (intValue v) (isBig datatype) = true ↔ Encloses case v) ↔
          ¬ Confused case v)) ∧
    (∀ map, TdotMap.parse table = .ok (some map) →
      ∃ c, map.cases[k]? = some c ∧
        ((TdotMap.caseMatches c (intValue v) (TdotMap.isBig datatype) = true ↔ Encloses case v) ↔
          ¬ Confused case v)) := by
  have hbig : isBig datatype = true ∧ TdotMap.isBig datatype = true := by
    rcases hdatatype with rfl | rfl
    · exact ⟨rfl, rfl⟩
    · exact ⟨rfl, rfl⟩
  rw [hbig.1, hbig.2]
  constructor
  · intro map hmap
    obtain ⟨c, hc, hparse⟩ := parse_cases hmap hcase
    exact ⟨c, hc, exact_iff_of_taken (taken hparse hv)⟩
  · intro map hmap
    obtain ⟨c, hc, hparse⟩ := tdot_parse_cases hmap hcase
    exact ⟨c, hc, exact_iff_of_taken (tdot_taken hparse hv)⟩

/-! ## A bound beyond the doubles -/

/-- A case from `2 ^ 53 + 1` on. -/
def hugeCase : TomlTable := [("min", .integer 9007199254740993), ("to", .string "huge")]

def hugeMap : TomlTable := [("cases", .array [.table hugeCase]), ("default", .string "small")]

theorem caseAt_hugeMap : CaseAt hugeMap 0 hugeCase := ⟨_, rfl, rfl⟩

theorem parse_hugeMap : (∃ map, ValueMap.parse (Toml.table hugeMap).toJson = .ok (some map)) ∧
    ∃ map, TdotMap.parse hugeMap = .ok (some map) := by
  have haccepted {ε α : Type} {x : Except ε (Option α)} (h : x.toOption.join.isSome = true) :
      ∃ a, x = .ok (some a) := by
    cases x with
    | error e => cases h
    | ok map =>
      obtain ⟨a, rfl⟩ := Option.isSome_iff_exists.mp h
      exact ⟨a, rfl⟩
  exact ⟨haccepted (by decide +kernel), haccepted (by decide +kernel)⟩

/-- A map whose bounds lie beyond 2^53. -/
theorem exact_iff_hugeMap : ∃ map c, ValueMap.parse (Toml.table hugeMap).toJson = .ok (some map) ∧
    map.cases[0]? = some c ∧
      ((caseMatches c.matcher (intValue 7) (isBig DataType.int64) = true ↔ Encloses hugeCase 7) ↔
        ¬ Confused hugeCase 7) := by
  obtain ⟨⟨map, hmap⟩, -⟩ := parse_hugeMap
  obtain ⟨c, hc, h⟩ := (exact_iff caseAt_hugeMap (.inl rfl) (v := 7) (by decide)).1 map hmap
  exact ⟨map, c, hmap, hc, h⟩

/-- Both SDKs match `2 ^ 53` by a case that begins at `2 ^ 53 + 1`. -/
theorem below_min_matched : ¬ Encloses hugeCase 9007199254740992 ∧
    (∃ map c, ValueMap.parse (Toml.table hugeMap).toJson = .ok (some map) ∧
      map.cases[0]? = some c ∧
        caseMatches c.matcher (intValue 9007199254740992) (isBig DataType.int64) = true) ∧
    ∃ map c, TdotMap.parse hugeMap = .ok (some map) ∧ map.cases[0]? = some c ∧
      TdotMap.caseMatches c (intValue 9007199254740992) (TdotMap.isBig DataType.int64) = true := by
  have hv : Is64 9007199254740992 := by decide
  have htaken : Taken hugeCase 9007199254740992 := by
    refine ⟨fun lo hlo => .inr ?_, fun hi hhi => ?_⟩
    · obtain rfl := Option.some.inj hlo
      show some ((roundInt 9007199254740993 : Int) : ℚ) = some (roundInt 9007199254740992 : ℚ)
      decide
    · cases hhi
  obtain ⟨⟨map, hmap⟩, ⟨map', hmap'⟩⟩ := parse_hugeMap
  obtain ⟨c, hc, hparse⟩ := parse_cases hmap caseAt_hugeMap
  obtain ⟨c', hc', hparse'⟩ := tdot_parse_cases hmap' caseAt_hugeMap
  refine ⟨?_, ⟨map, c, hmap, hc, (taken hparse hv).mpr htaken⟩,
    ⟨map', c', hmap', hc', (tdot_taken hparse' hv).mpr htaken⟩⟩
  rintro ⟨hmin, -⟩
  obtain ⟨q, hq, hle⟩ := hmin (.integer 9007199254740993) rfl
  obtain rfl := Option.some.inj hq
  revert hle
  decide

end TedgeDot.Map
