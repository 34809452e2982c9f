import TedgeDot.Lib.FirstKept
import TedgeDot.Map.Integers
import TedgeDot.Map.Apply
import TedgeDot.Sdk.Model

/-!
# What maps produce and accept

`ValueMap::parse` and `ValueMap::check_point` check a map before a value goes through it. What they
leave is a `Sound` map, whose matchers fit the datatype (`Fits`).

- `kinds_kept`: a mapped value has the map's output kind, and a value to be written has the native
  kind of the datatype.
- `accepted_iff`: the outputs that are advertised are those that a write accepts, each of them once.

A JSON number is finite: `serde_json` has no others (`Json.Finite`).
-/

namespace TedgeDot

/-- A JSON scalar, as `serde_json` represents it: a floating-point number is finite. -/
def Json.Finite (v : Json) : Prop := ∀ f, v = .number (.float f) → f.isFinite = true

namespace Map

open Binary64

/-! ## The check of a point -/

/-- Why a map does not fit a point. -/
inductive PointError where
  /-- `map is not allowed on a raw-mode point` -/
  | rawMode
  /-- `map is not allowed on a bytes point` -/
  | bytes
  /-- `map.cases[{i}].eq {bad} can never match a {datatype} value` -/
  | neverMatches (i : Nat) (bad : Json) (datatype : DataType)
  /-- `map.cases[{i}] is a range, which needs a numeric datatype (got {datatype})` -/
  | rangeNeedsNumber (i : Nat) (datatype : DataType)

def checkCase (i : Nat) (case : Case) (datatype : DataType) : Except PointError Unit :=
  match case.matcher with
  | .eq values =>
    match values.find? fun v => Kind.of v != some (Kind.ofDatatype datatype) with
    | some bad => .error (.neverMatches i bad datatype)
    | none => .ok ()
  | .range _ _ _ =>
    if Kind.ofDatatype datatype ≠ .number then .error (.rangeNeedsNumber i datatype) else .ok ()

/-- `ValueMap::check_point`. A typed point without a datatype is refused elsewhere. -/
def ValueMap.checkPoint (map : ValueMap) (mode : Mode) (datatype : Option DataType) :
    Except PointError Unit :=
  match mode, datatype with
  | .raw, _ => .error .rawMode
  | .typed, some .bytes => .error .bytes
  | .typed, some dt => map.cases.zipIdx.forM fun c => checkCase c.2 c.1 dt
  | .typed, none => .ok ()

/-! ## Sound maps -/

/-- What a write can send: the entries of an `eq`, at least one, or the number of a range. -/
def Matcher.Sound : Matcher → Prop
  | .eq values => values ≠ [] ∧ ∀ v ∈ values, (Kind.of v).isSome = true
  | .range _ _ write => ∀ w, write = some w → Kind.of w = some .number

/-- Every output is of the map's kind. -/
structure Sound (map : ValueMap) : Prop where
  output : ∀ c ∈ map.cases, Kind.of c.output = some map.outputKind
  default : ∀ d, map.default = some d → Kind.of d = some map.outputKind
  matcher : ∀ c ∈ map.cases, c.matcher.Sound

/-- A value of a case can be one of the datatype. -/
def Matcher.Fits (datatype : DataType) : Matcher → Prop
  | .eq values => ∀ v ∈ values, Kind.of v = some (Kind.ofDatatype datatype)
  | .range _ _ _ => Kind.ofDatatype datatype = .number

theorem sound_of_parseEq {case : JsonMap} {eq : Json} {m : Matcher}
    (h : parseEq case eq = .ok m) : m.Sound := by
  have hvalues {values : List Json} (hne : values ≠ []) (h : eqValues values = .ok m) :
      m.Sound := by
    obtain ⟨rfl, hall⟩ := eqValues_spec h
    exact ⟨hne, hall⟩
  unfold parseEq at h
  split at h
  · cases h
  · split at h
    · cases h
    · rename_i items hitems
      exact hvalues hitems h
    · exact hvalues (by simp) h

theorem kind_of_asF64 {w : Json} {p : Float → Bool} {n : Float}
    (h : w.asF64.filter p = some n) : Kind.of w = some .number := by
  cases w with
  | number n => rfl
  | _ => simp [Json.asF64] at h

theorem sound_of_parseRange {case : JsonMap} {min max : Option Float} {m : Matcher}
    (h : parseRange case min max = .ok m) : m.Sound := by
  unfold parseRange at h
  split at h
  · cases h
  · split at h
    · obtain rfl := Except.ok.inj h
      intro w hw
      cases hw
    · split at h
      · cases h
      · rename_i w _ _ n hn
        split at h
        · cases h
        · obtain rfl := Except.ok.inj h
          intro w' hw
          obtain rfl := Option.some.inj hw
          exact kind_of_asF64 hn

/-- A parsed matcher is sound: its bounds are ordered and finite. -/
theorem sound_of_parseCase {item : Json} {c : Case} (h : parseCase item = .ok c) :
    c.matcher.Sound := by
  unfold parseCase at h
  split at h
  · cases h
  · split at h
    · cases h
    · split at h
      · cases h
      · obtain ⟨min, _, h⟩ := bind_ok h
        obtain ⟨max, _, h⟩ := bind_ok h
        obtain ⟨matcher, hmatcher, h⟩ := bind_ok h
        obtain rfl := Except.ok.inj h
        show matcher.Sound
        unfold parseMatcher at hmatcher
        split at hmatcher
        · cases hmatcher
        · cases hmatcher
        · exact sound_of_parseEq hmatcher
        · exact sound_of_parseRange hmatcher

theorem sound_of_parseCases {items : List Json} {i : Nat} {cases : List Case}
    (h : parseCases i items = .ok cases) : ∀ c ∈ cases, c.matcher.Sound := by
  induction items generalizing i cases with
  | nil =>
    obtain rfl := Except.ok.inj h
    simp
  | cons item items ih =>
    unfold parseCases at h
    split at h
    · cases h
    · rename_i c hc
      obtain ⟨rest, hrest, h⟩ := bind_ok h
      obtain rfl := Except.ok.inj h
      intro d hd
      rcases List.mem_cons.mp hd with rfl | hmem
      · exact sound_of_parseCase hc
      · exact ih hrest d hmem

theorem exists_mem_zipIdx {cases : List Case} {c : Case} (h : c ∈ cases) :
    ∃ i, (c, i) ∈ cases.zipIdx := by
  obtain ⟨i, hi⟩ := List.mem_iff_getElem?.mp h
  exact ⟨i, List.mk_mem_zipIdx_iff_getElem?.mpr hi⟩

theorem output_of_checkOutputKinds {map : ValueMap} (h : map.checkOutputKinds = .ok ()) :
    (∀ c ∈ map.cases, Kind.of c.output = some map.outputKind) ∧
      ∀ d, map.default = some d → Kind.of d = some map.outputKind := by
  unfold ValueMap.checkOutputKinds at h
  split at h
  · cases h
  · rename_i hnone
    constructor
    · intro c hc
      obtain ⟨i, hi⟩ := exists_mem_zipIdx hc
      simpa using List.find?_eq_none.mp hnone (c, i) hi
    · intro d hd
      rw [hd] at h
      by_contra hne
      simp [hne] at h

/-- So is a parsed map. -/
theorem sound_of_parse {table : Json} {map : ValueMap}
    (h : ValueMap.parse table = .ok (some map)) : Sound map := by
  unfold ValueMap.parse at h
  split at h
  · cases h
  · split at h
    · cases h
    · obtain ⟨convert, _, h⟩ := bind_ok h
      obtain ⟨default, _, h⟩ := bind_ok h
      split at h
      · cases h
      · obtain ⟨items, _, h⟩ := bind_ok h
        obtain ⟨cases, hcases, h⟩ := bind_ok h
        split at h
        · cases h
        · obtain ⟨_, hkinds, h⟩ := bind_ok h
          obtain rfl := Option.some.inj (Except.ok.inj h)
          obtain ⟨houtput, hdefault⟩ := output_of_checkOutputKinds hkinds
          exact ⟨houtput, hdefault, sound_of_parseCases hcases⟩

theorem fits_of_checkCase {i : Nat} {c : Case} {datatype : DataType}
    (h : checkCase i c datatype = .ok ()) : c.matcher.Fits datatype := by
  unfold checkCase at h
  split at h
  · rename_i values hvalues
    rw [hvalues]
    split at h
    · cases h
    · rename_i hnone
      intro v hv
      simpa using List.find?_eq_none.mp hnone v hv
  · rename_i hrange
    rw [hrange]
    split at h
    · cases h
    · rename_i hnumber
      exact not_not.mp hnumber

theorem fits_of_checkPoint {map : ValueMap} {mode : Mode} {datatype : DataType}
    (h : map.checkPoint mode (some datatype) = .ok ()) :
    ∀ c ∈ map.cases, c.matcher.Fits datatype := by
  intro c hc
  obtain ⟨i, hi⟩ := exists_mem_zipIdx hc
  unfold ValueMap.checkPoint at h
  split at h
  · cases h
  · cases h
  · rename_i dt _ hdt
    obtain rfl := Option.some.inj hdt
    exact fits_of_checkCase (forM_ok h (c, i) hi)
  · rename_i hdt
    cases hdt

/-! ## Kinds -/

def Kind.ofValue : Value → Kind
  | .number _ => .number
  | .text _ => .string
  | .bool _ => .bool

section Kinds

variable {compact : Json → String}

theorem ofValue_jsonToValue {v : Json} {kind : Kind} (h : Kind.of v = some kind) :
    Kind.ofValue (jsonToValue compact v) = kind := by
  cases v <;> simp only [Kind.of, Option.some.injEq, reduceCtorEq] at h <;> exact h

theorem ofValue_convert {value converted : Value} {kind : Kind} {big : Bool}
    (h : convert value kind big = .ok converted) : Kind.ofValue converted = kind := by
  unfold convert at h
  -- one branch for every kind and value; the ones that fail give no value
  split at h
  all_goals try (split at h)
  all_goals first | cases h; rfl | cases h

theorem ofValue_apply {map : ValueMap} (hsound : Sound map) {value out : Value}
    {datatype : Option DataType} (h : map.apply compact value datatype = .ok out) :
    Kind.ofValue out = map.outputKind := by
  unfold ValueMap.apply at h
  split at h
  · rename_i c hc
    obtain rfl := Except.ok.inj h
    exact ofValue_jsonToValue (hsound.output c (List.mem_of_find?_eq_some hc))
  · split at h
    · rename_i d hd
      obtain rfl := Except.ok.inj h
      exact ofValue_jsonToValue (hsound.default d hd)
    · split at h
      · rename_i kind hkind
        rw [ofValue_convert h, ValueMap.outputKind, hkind]
        rfl
      · cases h

def FiniteValue (value : Value) : Prop := ∀ n, value = .number n → n.isFinite = true

/-- A finite JSON number is a finite double. -/
theorem isFinite_asF64 {n : Number} (h : (Json.number n).Finite) : n.asF64.isFinite = true := by
  cases n with
  | posInt n =>
    have hlt := n.toNat_lt
    exact (ofInt_spec (n := n.toNat) (moderate_of_lt (by omega) (by omega))).1
  | negInt n =>
    have hlow := n.le_toInt
    have hhigh := n.toInt_lt
    have hlt : n.toInt.natAbs < 2 ^ 64 := by omega
    have habs : (UInt64.ofNat n.toInt.natAbs).toNat = n.toInt.natAbs :=
      UInt64.toNat_ofNat_of_lt' hlt
    show (-ofInt (UInt64.ofNat n.toInt.natAbs).toNat).isFinite = true
    rw [habs]
    rcases Nat.eq_zero_or_pos n.toInt.natAbs with hzero | hpos
    · rw [hzero]
      decide
    · rw [neg_ofInt (by omega) (moderate_of_lt (by omega) (by omega))]
      exact (ofInt_spec (moderate_of_lt (by omega) (by omega))).1
  | float f => exact h f rfl

theorem finite_jsonToValue {v : Json} (h : v.Finite) : FiniteValue (jsonToValue compact v) := by
  intro n hn
  cases v with
  | number m =>
    simp only [jsonToValue, Value.number.injEq] at hn
    rw [← hn]
    exact isFinite_asF64 h
  | _ => cases hn

theorem isFinite_parseNumber {t : String} {n : Float} (h : parseNumber t = some n) :
    n.isFinite = true := by
  unfold parseNumber at h
  simp only at h
  split at h
  · exact (Option.filter_eq_some_iff.mp h).2
  · cases h

/-- A conversion keeps values finite. -/
theorem finite_convert {value converted : Value} {kind : Kind} {big : Bool}
    (hvalue : FiniteValue value) (h : convert value kind big = .ok converted) :
    FiniteValue converted := by
  intro n hn
  subst hn
  unfold convert at h
  split at h
  · rename_i m
    cases h
    exact hvalue n rfl
  · rename_i b
    cases h
    cases b <;> decide
  · split at h
    · rename_i m hm
      cases h
      exact isFinite_parseNumber hm
    · cases h
  all_goals try (split at h)
  all_goals cases h

theorem of_valueToJson {value : Value} (h : FiniteValue value) :
    Kind.of (valueToJson value) = some (Kind.ofValue value) := by
  cases value with
  | bool b => rfl
  | text t => rfl
  | number n =>
    simp only [valueToJson]
    split
    · rfl
    · rw [if_pos (h n rfl)]
      rfl

theorem of_written {m : Matcher} {datatype : DataType} {device : Json} (hsound : m.Sound)
    (hfits : m.Fits datatype) (h : m.written = some device) :
    Kind.of device = some (Kind.ofDatatype datatype) := by
  cases m with
  | eq values => exact hfits device (List.mem_of_head? h)
  | range min max write =>
    have hnumber : Kind.ofDatatype datatype = .number := hfits
    rw [hnumber]
    exact hsound device h

/-- The device value a map inverts to has the kind of the datatype. -/
theorem of_invert {map : ValueMap} (hsound : Sound map) {datatype : DataType}
    (hfits : ∀ c ∈ map.cases, c.matcher.Fits datatype) {v device : Json} (hv : v.Finite)
    (h : map.invert compact v (some datatype) = .ok device) :
    Kind.of device = some (Kind.ofDatatype datatype) := by
  unfold ValueMap.invert at h
  split at h
  · cases h
  · split at h
    · rename_i sent hsent
      obtain rfl := Except.ok.inj h
      obtain ⟨c, hc, hwritten⟩ := List.exists_of_findSome?_eq_some hsent
      split at hwritten
      · exact of_written (hsound.matcher c hc) (hfits c hc) hwritten
      · cases hwritten
    · split at h
      · simp only [Option.map_some, Option.getD_some] at h
        split at h
        · rename_i converted hconverted
          obtain rfl := Except.ok.inj h
          rw [of_valueToJson (finite_convert (finite_jsonToValue hv) hconverted),
            ofValue_convert hconverted]
        · cases h
      · split at h <;> cases h

/-- **Value maps keep kinds.** Where `parse` and `check_point` accept a map, a mapped value has its
output kind, and a value that a write sends has the native kind of the datatype. -/
theorem kinds_kept {table : Json} {map : ValueMap}
    (hparse : ValueMap.parse table = .ok (some map)) {mode : Mode} {datatype : Option DataType}
    (hcheck : map.checkPoint mode datatype = .ok ()) :
    (∀ value out, map.apply compact value datatype = .ok out →
      Kind.ofValue out = map.outputKind) ∧
    ∀ dt, datatype = some dt → ∀ v : Json, v.Finite → ∀ device,
      map.invert compact v datatype = .ok device →
        Kind.of device = some (Kind.ofDatatype dt) := by
  have hsound := sound_of_parse hparse
  constructor
  · intro value out h
    exact ofValue_apply hsound h
  · intro dt hdt v hv device h
    rw [hdt] at hcheck h
    exact of_invert hsound (fits_of_checkPoint hcheck) hv h

/-- A valve that tells its state by a number. -/
def valveTable : Json :=
  .object [("cases", .array [
    .object [("eq", .number (.posInt 1)), ("to", .string "open")],
    .object [("eq", .number (.posInt 0)), ("to", .string "closed")]])]

def valveMap : ValueMap where
  cases := [⟨.eq [.number (.posInt 1)], .string "open"⟩,
    ⟨.eq [.number (.posInt 0)], .string "closed"⟩]
  default := none
  convert := none

theorem parse_valveTable : ValueMap.parse valveTable = .ok (some valveMap) := rfl

/-- A valve's positions. -/
theorem kinds_kept_valve : Kind.of (.number (.posInt 1)) = some (Kind.ofDatatype .uint8) := by
  have hcheck : valveMap.checkPoint .typed (some .uint8) = .ok () := rfl
  have hfinite : (Json.string "open").Finite := by
    intro f h
    cases h
  have hinvert : valveMap.invert (fun _ => "") (.string "open") (some .uint8) =
      .ok (.number (.posInt 1)) := rfl
  exact (kinds_kept parse_valveTable hcheck).2 .uint8 rfl (.string "open") hfinite _ hinvert

end Kinds

/-! ## Accepted values -/

theorem jsonEqual_comm (a b : Json) : jsonEqual a b = jsonEqual b a := by
  cases a <;> cases b <;> try rfl
  · exact BEq.comm
  · exact BEq.comm
  · exact BEq.comm

theorem jsonEqual_trans (a b c : Json) (hab : jsonEqual a b = true) (hbc : jsonEqual b c = true) :
    jsonEqual a c = true := by
  cases a <;> cases b <;> simp only [jsonEqual, Bool.false_eq_true] at hab <;>
    cases c <;> simp only [jsonEqual, Bool.false_eq_true] at hbc
  · simp only [jsonEqual, beq_iff_eq] at *
    rw [hab, hbc]
  · exact BEq.trans hab hbc
  · simp only [jsonEqual, beq_iff_eq] at *
    rw [hab, hbc]

theorem kind_of_jsonEqual {a b : Json} (h : jsonEqual a b = true) : Kind.of a = Kind.of b := by
  cases a <;> cases b <;> simp [jsonEqual] at h <;> rfl

/-- The outputs of the cases that a write accepts, as often as they are there. -/
def ValueMap.offered (map : ValueMap) : List Json :=
  (map.cases.filter (·.matcher.writable)).map Case.output

theorem foldl_writable (cases : List Case) (out : List Json) :
    cases.foldl (fun out case =>
      if case.matcher.writable && !out.any (jsonEqual · case.output) then out ++ [case.output]
      else out) out =
    ((cases.filter (·.matcher.writable)).map Case.output).foldl (keepNew jsonEqual) out := by
  induction cases generalizing out with
  | nil => rfl
  | cons c cases ih =>
    rw [List.foldl_cons, ih]
    cases hw : c.matcher.writable with
    | false => simp [hw]
    | true =>
      simp only [hw, List.filter_cons_of_pos, List.map_cons, List.foldl_cons, Bool.true_and,
        keepNew]
      cases out.any (jsonEqual · c.output) <;> rfl

theorem writableOutputs_eq (map : ValueMap) :
    map.writableOutputs = firstKept jsonEqual map.offered :=
  foldl_writable map.cases []

theorem isSome_written {m : Matcher} (h : m.Sound) : m.written.isSome = m.writable := by
  cases m with
  | eq values =>
    obtain ⟨hne, -⟩ := h
    cases values with
    | nil => exact (hne rfl).elim
    | cons v values => rfl
  | range min max write => rfl

section Accepted

variable {compact : Json → String}

theorem isSome_sent {map : ValueMap} (hsound : Sound map) (v : Json) :
    (map.cases.findSome? fun c => if jsonEqual c.output v then c.matcher.written else none).isSome =
        true ↔ ∃ o ∈ map.offered, jsonEqual o v = true := by
  rw [List.findSome?_isSome_iff]
  unfold ValueMap.offered
  constructor
  · rintro ⟨c, hc, hsome⟩
    split at hsome
    · rename_i hequal
      rw [isSome_written (hsound.matcher c hc)] at hsome
      exact ⟨c.output, by simpa using ⟨c, ⟨hc, hsome⟩, rfl⟩, hequal⟩
    · cases hsome
  · rintro ⟨o, ho, hequal⟩
    obtain ⟨c, hc, rfl⟩ := List.mem_map.mp ho
    obtain ⟨hmem, hw⟩ := List.mem_filter.mp hc
    refine ⟨c, hmem, ?_⟩
    rw [if_pos hequal, isSome_written (hsound.matcher c hmem)]
    exact hw

/-- **The advertised values are those a write accepts.** Without `as`, a write accepts a value
exactly when it equals one of the writable outputs, and no two of these are equal. -/
theorem accepted_iff {table : Json} {map : ValueMap}
    (hparse : ValueMap.parse table = .ok (some map)) (hconvert : map.convert = none)
    (datatype : Option DataType) :
    (∀ v : Json, (∃ device, map.invert compact v datatype = .ok device) ↔
      ∃ o ∈ map.writableOutputs, jsonEqual o v = true) ∧
    map.writableOutputs.Pairwise fun a b => jsonEqual a b = false ∧ jsonEqual b a = false := by
  have hsound := sound_of_parse hparse
  constructor
  · intro v
    rw [writableOutputs_eq, exists_firstKept jsonEqual_trans, ← isSome_sent hsound]
    constructor
    · rintro ⟨device, h⟩
      unfold ValueMap.invert at h
      split at h
      · cases h
      · rw [hconvert] at h
        split at h
        · rename_i hsent
          rw [hsent]
          rfl
        · simp only at h
          split at h <;> cases h
    · intro hsome
      -- an output that equals the value is of the map's kind, so the value is
      obtain ⟨o, ho, hequal⟩ := (isSome_sent hsound v).mp hsome
      obtain ⟨c, hc, rfl⟩ := List.mem_map.mp ho
      have hkind : Kind.of v = some map.outputKind := by
        rw [← kind_of_jsonEqual hequal]
        exact hsound.output c (List.mem_filter.mp hc).1
      obtain ⟨device, hdevice⟩ := Option.isSome_iff_exists.mp hsome
      refine ⟨device, ?_⟩
      unfold ValueMap.invert
      rw [if_neg (not_not.mpr hkind), hdevice]
  · rw [writableOutputs_eq]
    apply (pairwise_firstKept map.offered).imp
    intro a b h
    exact ⟨h, by rw [jsonEqual_comm, h]⟩

/-- The same map, of its outputs. -/
theorem accepted_iff_valve :
    (∃ device, valveMap.invert (fun _ => "") (.string "open") (some .uint8) = .ok device) ∧
      ¬ ∃ device, valveMap.invert (fun _ => "") (.string "ajar") (some .uint8) = .ok device := by
  obtain ⟨haccepted, -⟩ := accepted_iff parse_valveTable rfl (some .uint8)
  rw [haccepted, haccepted]
  decide

end Accepted

end Map

end TedgeDot
