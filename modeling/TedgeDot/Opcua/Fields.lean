import TedgeDot.Opcua.Skip

/-!
# Skipping the values of a type

A value of a type of the definitions is skipped by its encoding (`skipValue_meets`). The mask of a
structure with optional fields has 32 bits, and the one for the field after them is shifted out of
range: `overrun` are the byte strings that lead there.
-/

namespace TedgeDot.Opcua

open Reading

/-! ## Overruns -/

section Overruns

variable (field inside : Field → Language UInt8)

def overrunAll : List Field → Language UInt8
  | [] => 0
  | f :: fields => inside f + field f * overrunAll fields

/-- Within one of the fields that are present, or at the first one without a bit. -/
def overrunMasked (mask : UInt32) : Nat → List Field → Language UInt8
  | _, [] => 0
  | bit, f :: fields =>
    if f.isOptional then
      choice (bit < 32) (choice (hasBit mask bit) (inside f) 0 +
        choice (hasBit mask bit) (field f) 1 * overrunMasked mask (bit + 1) fields) 1
    else inside f + field f * overrunMasked mask bit fields

def overrunStruct (d : StructDef) : Language UInt8 :=
  match d.kind with
  | .struct => overrunAll field inside d.fields
  | .optionalFields => ⨆ mask, four mask * overrunMasked field inside mask 0 d.fields
  | .union => ⨆ s : UInt32, four s *
      choice (s = 0) 0 (⨆ f, only (d.fields[s.toNat - 1]? = some f) (inside f))

end Overruns

def overrunField (value inside : FieldType → Language UInt8) (f : Field) : Language UInt8 :=
  choice (f.array = true)
    (⨆ n, lengthPrefix n * roundsPanic (value f.ty) (inside f.ty) n) (inside f.ty)

/-- Within a value of a type, nested at most to a depth. -/
def overrun (types : TypeSet) : Nat → FieldType → Language UInt8
  | n + 1, .struct key =>
    ⨆ d, only (types.find key = some d) (overrunStruct (wireField (wireValue types n))
      (overrunField (wireValue types n) (overrun types n)) d)
  | _, _ => 0

/-! ## Values without bytes -/

/-- A type has only empty values, or only values of some bytes. -/
def Uniform (L : Language UInt8) : Prop := [] ∈ L → ∀ w ∈ L, w = []

theorem uniform_of_nil_notMem {L : Language UInt8} (h : [] ∉ L) : Uniform L :=
  fun hnil => absurd hnil h

theorem Uniform.mul {L M : Language UInt8} (hL : Uniform L) (hM : Uniform M) :
    Uniform (L * M) := by
  intro hnil w hw
  obtain ⟨u, hu, v, hv, huv⟩ := Language.mem_mul.mp hnil
  obtain ⟨rfl, rfl⟩ := List.append_eq_nil_iff.mp huv
  obtain ⟨u', hu', v', hv', rfl⟩ := Language.mem_mul.mp hw
  rw [hL hu u' hu', hM hv v' hv']
  rfl

theorem Uniform.eq_one {L : Language UInt8} (hL : Uniform L) (hnil : [] ∈ L) : L = 1 := by
  ext w
  constructor
  · exact hL hnil w
  · intro hw
    obtain rfl : w = [] := hw
    exact hnil

theorem nil_notMem_four (v : UInt32) : [] ∉ four v :=
  fun h => absurd (congrArg List.length (show [] = _ from h)) (by simp)

theorem nil_notMem_lengthPrefix (n : Nat) : [] ∉ lengthPrefix n := by
  rintro (⟨-, h⟩ | ⟨-, h⟩)
  · exact absurd (congrArg List.length h) (by simp)
  · exact absurd (congrArg List.length h) (by simp)

theorem uniform_wireField {value : FieldType → Language UInt8} (h : ∀ ty, Uniform (value ty))
    (f : Field) : Uniform (wireField value f) := by
  unfold wireField
  by_cases harray : f.array = true
  · rw [choice_pos harray]
    exact uniform_of_nil_notMem
      (nil_notMem_iSup fun n => nil_notMem_mul (nil_notMem_lengthPrefix n))
  · rw [choice_neg harray]
    exact h f.ty

theorem uniform_wireAll {field : Field → Language UInt8} (h : ∀ f, Uniform (field f))
    (fields : List Field) : Uniform (wireAll field fields) := by
  induction fields with
  | nil => exact fun _ w hw => hw
  | cons f fields ih => exact (h f).mul ih

theorem uniform_wireStruct {field : Field → Language UInt8} (h : ∀ f, Uniform (field f))
    (d : StructDef) : Uniform (wireStruct field d) := by
  unfold wireStruct
  split
  · exact uniform_wireAll h d.fields
  · exact uniform_of_nil_notMem (nil_notMem_iSup fun mask => nil_notMem_mul (nil_notMem_four mask))
  · exact uniform_of_nil_notMem (nil_notMem_iSup fun s => nil_notMem_mul (nil_notMem_four s))

/-- A type either always takes bytes or never does. -/
theorem uniform_wireValue (types : TypeSet) (n : Nat) (ty : FieldType) :
    Uniform (wireValue types n ty) := by
  have hfour : [] ∉ fixed 4 := fun hw => absurd (show 0 = 4 from hw) (by decide)
  induction n generalizing ty with
  | zero =>
    cases ty with
    | builtin b => exact uniform_of_nil_notMem (nil_notMem_wire 0 b)
    | enum name => exact uniform_of_nil_notMem hfour
    | struct key => exact uniform_of_nil_notMem (Language.notMem_zero [])
  | succ n ih =>
    cases ty with
    | builtin b => exact uniform_of_nil_notMem (nil_notMem_wire (n + 1) b)
    | enum name => exact uniform_of_nil_notMem hfour
    | struct key =>
      intro hnil w hw
      obtain ⟨d, hfind, hnil⟩ := Language.mem_iSup.mp hnil
      obtain ⟨d', hfind', hw⟩ := Language.mem_iSup.mp hw
      obtain rfl := Option.some.inj (hfind.symm.trans hfind')
      exact uniform_wireStruct (uniform_wireField ih) d hnil w hw

/-! ## Elements -/

section Elements

variable {x : Reading String Unit} {L P : Language UInt8}

/-- The elements after which a loop goes on, or stops. -/
def elementOf (L : Language UInt8) (more : Bool) : Language UInt8 :=
  {w | w ∈ L ∧ (more = true ↔ w ≠ [])}

theorem elementOf_of_notMem (hnil : [] ∉ L) :
    elementOf L true = L ∧ elementOf L false = 0 := by
  have hne : ∀ w ∈ L, w ≠ [] := fun w hw heq => hnil (heq ▸ hw)
  constructor
  · ext w
    exact ⟨fun hw => hw.1, fun hw => ⟨hw, fun _ => hne w hw, fun _ => rfl⟩⟩
  · ext w
    constructor
    · rintro ⟨hw, hiff⟩
      exact nomatch hiff.mpr (hne w hw)
    · intro hw
      exact absurd hw (Language.notMem_zero w)

theorem elementOf_one : elementOf 1 true = 0 ∧ elementOf 1 false = 1 := by
  constructor
  · ext w
    exact ⟨fun hw => absurd hw.1 (hw.2.mp rfl), fun hw => absurd hw (Language.notMem_zero w)⟩
  · ext w
    constructor
    · exact fun hw => hw.1
    · intro hw
      exact ⟨hw, fun h => (nomatch h), fun h => absurd hw h⟩

/-- An element, and whether it took any bytes. -/
theorem element_meets (hx : Meets x (fun _ => L) P) : Meets
    (do
      let before ← position
      x
      let pos ← position
      pure (pos ≠ before) : Reading String Bool)
    (elementOf L) P := by
  -- reading the two positions changes nothing
  have heq : ∀ buf pos, ((do
      let before ← position
      x
      let pos ← position
      pure (pos ≠ before) : Reading String Bool) buf pos) =
      x buf pos >>= fun r => pure (decide (r.2 ≠ pos), r.2) := by
    intro buf pos
    rfl
  constructor
  · intro buf pos h more pos'
    rw [heq, Traced.result_bind]
    constructor
    · intro hok
      cases hres : (x buf pos).result with
      | error e =>
        rw [hres] at hok
        cases hok
      | ok r =>
        obtain ⟨⟨⟩, p⟩ := r
        rw [hres] at hok
        cases hok
        obtain ⟨w, hw, hstart, rfl⟩ := (hx.ok_iff h () p).mp hres
        refine ⟨w, ⟨hw, ?_⟩, hstart, rfl⟩
        rw [decide_eq_true_iff, ne_eq, Nat.add_eq_left, List.length_eq_zero_iff]
    · rintro ⟨w, ⟨hw, hmore⟩, hstart, rfl⟩
      rw [(hx.ok_iff h () _).mpr ⟨w, hw, hstart, rfl⟩]
      show Except.ok (decide (pos + w.length ≠ pos), pos + w.length) = _
      have hdecide : decide (pos + w.length ≠ pos) = more := by
        rw [Bool.eq_iff_iff, decide_eq_true_iff, ne_eq, Nat.add_eq_left, List.length_eq_zero_iff]
        exact hmore.symm
      rw [hdecide]
  · intro buf pos h
    rw [heq, Traced.result_bind, ← hx.panic_iff h]
    cases (x buf pos).result with
    | error e =>
      show Except.error e = Except.error Fault.panic ↔ Except.error e = Except.error Fault.panic
      rw [Except.error.injEq, Except.error.injEq]
    | ok r => exact ⟨fun hpanic => (nomatch hpanic), fun hpanic => (nomatch hpanic)⟩
  · intro buf pos h hstack
    rw [heq, Traced.result_bind] at hstack
    cases hres : (x buf pos).result with
    | error e =>
      rw [hres] at hstack
      cases hstack
      exact hx.frames h hres
    | ok r =>
      rw [hres] at hstack
      cases hstack
  · intro buf pos h l hl
    rw [heq] at hl
    rcases Traced.mem_events_bind.mp hl with hl | ⟨r, -, hl⟩
    · exact hx.bounded h l hl
    · cases hl

/-- **Elements**: a number of elements is skipped by their encodings, also where the loop stops at
the first one of a type without bytes. -/
theorem elements_meets {value : FieldType → Reading String Unit} {ty : FieldType}
    (hx : Meets (value ty) (fun _ => L) P) (hL : Uniform L) (count : Nat) :
    Meets (skipElements value ty count) (fun _ => L ^ count) (roundsPanic L P count) := by
  have hround := element_meets hx
  by_cases hnil : [] ∈ L
  · obtain rfl := hL.eq_one hnil
    obtain ⟨htrue, hfalse⟩ := elementOf_one
    apply (hround.loop (by rw [htrue]; exact Language.notMem_zero []) count).of_eq
    · intro _
      rw [one_pow]
      cases count with
      | zero => rfl
      | succ count => rw [roundsRead, htrue, hfalse, zero_mul, add_zero]
    · -- the rounds after the first one do what it did
      rw [htrue]
      induction count with
      | zero => rfl
      | succ count ih =>
        rw [roundsPanic, roundsPanic, ← ih, zero_mul, one_mul, add_zero]
        cases count with
        | zero => exact (add_zero P).symm
        | succ count => rw [roundsPanic, zero_mul, add_zero, Language.add_self]
  · obtain ⟨htrue, hfalse⟩ := elementOf_of_notMem hnil
    apply (hround.loop (by rwa [htrue]) count).of_eq
    · intro _
      rw [roundsRead_of_all hfalse, htrue]
    · rw [htrue]

end Elements

/-! ## Fields -/

section Fields

variable {ctx : String}

theorem field_meets {value : FieldType → Reading String Unit}
    {G P : FieldType → Language UInt8} (hx : ∀ ty, Meets (value ty) (fun _ => G ty) (P ty))
    (hG : ∀ ty, Uniform (G ty)) (f : Field) :
    Meets (skipField ctx value f) (fun _ => wireField G f) (overrunField G P f) := by
  apply Meets.ite
  · intro _
    apply (Meets.bind len_reads fun count => elements_meets (hx f.ty) (hG f.ty) count).of_eq
    · intro _
      rfl
    · exact zero_add _
  · intro _
    exact hx f.ty

variable {x : Field → Reading String Unit} {field inside : Field → Language UInt8}

theorem all_meets (hx : ∀ f, Meets (x f) (fun _ => field f) (inside f)) (fields : List Field) :
    Meets (skipAll x fields) (fun _ => wireAll field fields) (overrunAll field inside fields) := by
  induction fields with
  | nil => exact Reads.done
  | cons f fields ih => exact (hx f).seq ih

/-- Skipping the fields that the mask says are there. -/
theorem masked_meets (hx : ∀ f, Meets (x f) (fun _ => field f) (inside f)) (mask : UInt32)
    (bit : Nat) (fields : List Field) :
    Meets (skipMasked x mask bit fields)
      (fun next => only (next = bit + fields.countP Field.isOptional)
        (wireMasked field mask bit fields))
      (overrunMasked field inside mask bit fields) := by
  induction fields generalizing bit with
  | nil => exact Meets.pure bit
  | cons f fields ih =>
    rw [skipMasked]
    by_cases hoptional : f.isOptional = true
    · have hcount : (f :: fields).countP Field.isOptional = fields.countP Field.isOptional + 1 :=
        List.countP_cons_of_pos hoptional
      by_cases hbit : bit < 32
      · have hshift : shiftOne bit = pure (1 <<< UInt32.ofNat bit) := if_pos hbit
        rw [if_pos hoptional, hshift, Reading.pure_bind]
        show Meets (if hasBit mask bit then x f >>= fun _ => skipMasked x mask (bit + 1) fields
          else skipMasked x mask (bit + 1) fields) _ _
        rw [ite_seq]
        apply ((Meets.ite (fun _ => hx f) fun _ => Reads.done).seq (ih (bit + 1))).of_eq
        · intro next
          rw [wireMasked, if_pos hoptional, only_pos hbit, mul_only, hcount]
          exact only_congr (by omega)
        · rw [overrunMasked, if_pos hoptional, choice_pos hbit]
      · have hshift : shiftOne bit = fault .panic := if_neg hbit
        rw [if_pos hoptional, hshift, fault_bind]
        apply Meets.panic.of_eq
        · intro next
          rw [wireMasked, if_pos hoptional, only_only, only_neg fun h => hbit h.2]
        · rw [overrunMasked, if_pos hoptional, choice_neg hbit]
    · have hcount : (f :: fields).countP Field.isOptional = fields.countP Field.isOptional :=
        List.countP_cons_of_neg hoptional
      rw [if_neg hoptional]
      apply ((hx f).seq (ih bit)).of_eq
      · intro next
        rw [wireMasked, if_neg hoptional, mul_only, hcount]
      · rw [overrunMasked, if_neg hoptional]

/-- Skipping a structure. -/
theorem struct_meets (hx : ∀ f, Meets (x f) (fun _ => field f) (inside f)) (d : StructDef) :
    Meets (skipStruct ctx x d) (fun _ => wireStruct field d) (overrunStruct field inside d) := by
  unfold skipStruct wireStruct overrunStruct
  generalize d.kind = kind
  match kind with
  | .struct => exact all_meets hx d.fields
  | .optionalFields =>
    apply (Meets.bind u32_reads fun mask => (masked_meets hx mask 0 d.fields).drop).of_eq
    · intro _
      simp only [iSup_only_value]
    · exact zero_add _
  | .union =>
    -- switch 0 selects no field, any other its own
    have hswitch : ∀ s : UInt32, Meets
        (if s = 0 then pure ()
          else if s.toNat ≤ d.fields.length then index d.fields (s.toNat - 1) >>= x
          else throw s!"invalid union switch {s.toNat} in {d.name}" : Reading String Unit)
        (fun _ => choice (s = 0) 1 (⨆ f, only (d.fields[s.toNat - 1]? = some f) (field f)))
        (choice (s = 0) 0 (⨆ f, only (d.fields[s.toNat - 1]? = some f) (inside f))) := by
      intro s
      apply Meets.ite
      · intro _
        exact Reads.done
      · intro hzero
        have hpos : s.toNat ≠ 0 := fun h => hzero (UInt32.toNat_inj.mp h)
        by_cases hle : s.toNat ≤ d.fields.length
        · have hget := List.getElem?_eq_getElem (show s.toNat - 1 < d.fields.length by omega)
          rw [if_pos hle, index, hget, Reading.pure_bind]
          apply (hx _).of_eq
          · intro _
            exact iSup_only_some.symm
          · exact iSup_only_some.symm
        · have hget : d.fields[s.toNat - 1]? = none := List.getElem?_eq_none (by omega)
          rw [if_neg hle, hget]
          apply Meets.of_eq (Reads.failure _)
          · intro _
            exact iSup_only_none.symm
          · exact iSup_only_none.symm
    apply (Meets.bind u32_reads hswitch).of_eq
    · intro _
      rfl
    · exact zero_add _

end Fields

/-- **Types of the definitions**: skipping takes exactly the encoded values that are nested within
the depth that is left, and panics where the mask of a structure has no bit for a field. -/
theorem skipValue_meets {ctx : String} {types : TypeSet} {frames depth n : Nat}
    (hdepth : depth + n = MAX_DEPTH) (hframes : n < frames) (ty : FieldType) :
    Meets (skipValue ctx types frames depth ty) (fun _ => wireValue types n ty)
      (overrun types n ty) := by
  -- `n` levels are left: at none a nested structure is refused
  induction n generalizing frames depth ty with
  | zero =>
    obtain ⟨frames, rfl⟩ := Nat.exists_eq_add_of_lt hframes
    rw [Nat.zero_add]
    cases ty with
    | builtin b => exact skipBuiltin_reads hdepth (by omega) b
    | enum name => exact take_reads 4
    | struct key =>
      have hdeep : deeper ctx depth = throw s!"nesting too deep while reading \"{ctx}\"" :=
        if_pos (Nat.le_of_eq hdepth.symm)
      rw [skipValue, hdeep, throw_bind]
      exact Reads.failure _
  | succ n ih =>
    obtain ⟨frames, rfl⟩ := Nat.exists_eq_add_of_lt (Nat.lt_of_le_of_lt (Nat.zero_le _) hframes)
    rw [Nat.zero_add] at hframes ⊢
    cases ty with
    | builtin b => exact skipBuiltin_reads hdepth hframes b
    | enum name => exact take_reads 4
    | struct key =>
      rw [skipValue, deeper_of_lt (by omega), Reading.pure_bind, TypeSet.get, wireValue, overrun]
      cases types.find key with
      | none =>
        rw [ofExcept_error, throw_bind]
        apply Meets.of_eq (Reads.failure _)
        · intro _
          exact iSup_only_none.symm
        · exact iSup_only_none.symm
      | some d =>
        rw [ofExcept_ok, Reading.pure_bind]
        have hvalue := fun ty => @ih frames (depth + 1) (by omega) (by omega) ty
        apply (struct_meets (field_meets hvalue (uniform_wireValue types n)) d).of_eq
        · intro _
          exact iSup_only_some.symm
        · exact iSup_only_some.symm

end TedgeDot.Opcua
