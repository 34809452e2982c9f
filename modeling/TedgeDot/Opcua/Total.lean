import TedgeDot.Opcua.Decode
import TedgeDot.Opcua.Fields
import TedgeDot.Opcua.Resolve

/-!
# Decoding any body

What a plan reads and where it panics, for every body: `stray` are the byte strings that lead a plan
to a panic. They are those that reach the field of a structure that has no bit in the mask, and the
least `i64` as the leaf.
-/

namespace TedgeDot.Opcua

open Reading

/-- A value or an error: no operation is out of range, no call deeper than the frames, and no loop
begins more rounds than there are bytes left plus one. -/
structure Safe {α : Type} (x : Traced Loop (Fault String) α) : Prop where
  no_panic : x.result ≠ .error .panic
  no_overflow : x.result ≠ .error .stack
  bounded : ∀ l ∈ x.events, l.Bounded

/-- A reading fails to return exactly on the bodies that begin with one of its strays. -/
theorem run_safe {α : Type} {x : Reading String α} {G : α → Language UInt8} {P : Language UInt8}
    (hx : Meets x G P) (body : List UInt8) : Safe (run x body) ↔ ∀ w ∈ P, ¬ w <+: body := by
  -- the only panic is on a stray
  have hpanic : (run x body).result = .error .panic ↔ ∃ w ∈ P, w <+: body := by
    have hread := hx.panic_iff (Nat.zero_le body.length)
    rw [List.drop_zero] at hread
    rw [run, Traced.result_bind, ← hread]
    cases (x body 0).result with
    | error e =>
      show Except.error e = Except.error Fault.panic ↔ Except.error e = Except.error Fault.panic
      rw [Except.error.injEq, Except.error.injEq]
    | ok r => exact ⟨fun h => (nomatch h), fun h => (nomatch h)⟩
  constructor
  · intro hsafe w hw hstart
    exact hsafe.no_panic (hpanic.mpr ⟨w, hw, hstart⟩)
  · intro hbody
    refine ⟨?_, ?_, ?_⟩
    · intro h
      obtain ⟨w, hw, hstart⟩ := hpanic.mp h
      exact hbody w hw hstart
    · intro h
      rw [run, Traced.result_bind] at h
      cases hres : (x body 0).result with
      | error e =>
        rw [hres] at h
        cases h
        exact hx.frames (Nat.zero_le _) hres
      | ok r =>
        rw [hres] at h
        cases h
    · intro l hl
      rcases Traced.mem_events_bind.mp hl with hl | ⟨r, -, hl⟩
      · exact hx.bounded (Nat.zero_le _) l hl
      · cases hl

/-! ## Steps -/

section Steps

variable (types : TypeSet)

/-- The values of a type, as they are skipped on the way. -/
def valueOf (ty : FieldType) : Language UInt8 := wireValue types MAX_DEPTH ty

def fieldOf (f : Field) : Language UInt8 := wireField (valueOf types) f

/-- What leads to a panic within a value that is skipped on the way. -/
def strayValue (ty : FieldType) : Language UInt8 := overrun types MAX_DEPTH ty

def strayField (f : Field) : Language UInt8 := overrunField (valueOf types) (strayValue types) f

def StructDef.bit (d : StructDef) (pos : Nat) : Nat := (d.fields.take pos).countP Field.isOptional

/-- The fields before the selected one, where that is present. -/
def entered (d : StructDef) (field : Field) (pos : Nat) : Language UInt8 :=
  match d.kind with
  | .struct => wireAll (fieldOf types) (d.fields.take pos)
  | .optionalFields => ⨆ mask, four mask * (wireMasked (fieldOf types) mask 0 (d.fields.take pos) *
      only (field.isOptional = true → d.bit pos < 32 ∧ hasBit mask (d.bit pos)) 1)
  | .union => ⨆ s, four s * only (s.toNat ≤ d.fields.length ∧ s.toNat = pos + 1) 1

/-- What leads to a panic before the selected field. -/
def strayEntered (d : StructDef) (field : Field) (pos : Nat) : Language UInt8 :=
  match d.kind with
  | .struct => overrunAll (fieldOf types) (strayField types) (d.fields.take pos)
  | .optionalFields => ⨆ mask, four mask *
      (overrunMasked (fieldOf types) (strayField types) mask 0 (d.fields.take pos) +
        wireMasked (fieldOf types) mask 0 (d.fields.take pos) *
          only (field.isOptional = true ∧ 32 ≤ d.bit pos) 1)
  | .union => 0

/-- The elements before the selected one. -/
def indexed (field : Field) : Option Nat → Language UInt8
  | none => 1
  | some i => ⨆ n, lengthPrefix n * only (i < n) (valueOf types field.ty ^ i)

/-- What leads to a panic before the selected element. -/
def strayIndexed (field : Field) : Option Nat → Language UInt8
  | none => 0
  | some i => ⨆ n, lengthPrefix n *
      only (i < n) (roundsPanic (valueOf types field.ty) (strayValue types field.ty) i)

/-- What a step reads up to what it selects. -/
def walked (step : Step) : Language UInt8 :=
  ⨆ d, only (types.find step.key = some d) (⨆ field, only (d.fields[step.field]? = some field)
    (entered types d field step.field * indexed types field step.index))

def strayWalked (step : Step) : Language UInt8 :=
  ⨆ d, only (types.find step.key = some d) (⨆ field, only (d.fields[step.field]? = some field)
    (strayEntered types d field step.field +
      entered types d field step.field * strayIndexed types field step.index))

/-- **Strays**: what leads the steps of a plan to a panic. -/
def stray (leaf : Leaf) : List Step → Language UInt8
  | [] => 0
  | [step] => strayWalked types step + walked types step * scalarWire leaf (.i64 Int64.minValue)
  | step :: steps => strayWalked types step + walked types step * stray leaf steps

end Steps

section Walks

variable {types : TypeSet}

theorem skipBefore_meets (f : Field) :
    Meets (skipBefore types f) (fun _ => fieldOf types f) (strayField types f) :=
  field_meets (fun ty => skipValue_meets (Nat.zero_add _) (Nat.lt_succ_self _) ty)
    (uniform_wireValue types MAX_DEPTH) f

/-- Whether the mask tells an optional field present. -/
def present (field : Field) (mask : UInt32) (bit : Nat) : Reading String Unit :=
  if field.isOptional then do
    let flag ← shiftOne bit
    if mask &&& flag = 0 then throw s!"optional field \"{field.name}\" is absent" else pure ()
  else pure ()

/-- The presence of a field: its mask bit, which has to exist. -/
theorem present_meets (field : Field) (mask : UInt32) (bit : Nat) :
    Meets (present field mask bit)
      (fun _ => only (field.isOptional = true → bit < 32 ∧ hasBit mask bit) 1)
      (only (field.isOptional = true ∧ 32 ≤ bit) 1) := by
  unfold present
  by_cases hoptional : field.isOptional = true
  · rw [if_pos hoptional]
    by_cases hbit : bit < 32
    · have hshift : shiftOne bit = pure (1 <<< UInt32.ofNat bit) := if_pos hbit
      rw [hshift, Reading.pure_bind]
      by_cases hmask : hasBit mask bit
      · rw [if_neg hmask]
        apply Meets.of_eq Reads.done
        · intro _
          exact (only_pos fun _ => ⟨hbit, hmask⟩).symm
        · exact (only_neg fun h => absurd hbit (Nat.not_lt.mpr h.2)).symm
      · rw [if_pos (not_not.mp hmask)]
        apply Meets.of_eq (Reads.failure _)
        · intro _
          exact (only_neg fun h => hmask (h hoptional).2).symm
        · exact (only_neg fun h => absurd hbit (Nat.not_lt.mpr h.2)).symm
    · have hshift : shiftOne bit = fault .panic := if_neg hbit
      rw [hshift, fault_bind]
      apply Meets.panic.of_eq
      · intro _
        exact (only_neg fun h => hbit (h hoptional).1).symm
      · exact (only_pos ⟨hoptional, Nat.not_lt.mp hbit⟩).symm
  · rw [if_neg hoptional]
    apply Meets.of_eq Reads.done
    · intro _
      exact (only_pos fun h => absurd h hoptional).symm
    · exact (only_neg fun h => hoptional h.1).symm

/-- A union is entered where its switch selects the field. -/
theorem union_reads (d : StructDef) (field : Field) (pos : Nat) (s : UInt32) : Reads
      (if s.toNat > d.fields.length then throw s!"invalid union switch {s.toNat} in {d.name}"
        else if s.toNat ≠ pos + 1 then do
          let active ← activeName d s.toNat
          throw s!"union field \"{field.name}\" is not set (active: {active})"
        else pure () : Reading String Unit)
      (fun _ => only (s.toNat ≤ d.fields.length ∧ s.toNat = pos + 1) 1) := by
  by_cases hle : s.toNat ≤ d.fields.length
  · rw [if_neg (Nat.not_lt.mpr hle)]
    by_cases hpos : s.toNat = pos + 1
    · rw [if_neg (not_not.mpr hpos)]
      apply Reads.done.of_eq
      intro _
      exact (only_pos ⟨hle, hpos⟩).symm
    · obtain ⟨active, hactive⟩ : ∃ active, activeName d s.toNat = pure active := by
        unfold activeName
        by_cases hzero : s.toNat = 0
        · exact ⟨_, if_pos hzero⟩
        · have hget := List.getElem?_eq_getElem (show s.toNat - 1 < d.fields.length by omega)
          rw [if_neg hzero, index, hget, Reading.pure_bind]
          exact ⟨_, rfl⟩
      rw [if_pos hpos, hactive, Reading.pure_bind]
      apply (Reads.failure _).of_eq
      intro _
      exact (only_neg fun h => hpos h.2).symm
  · rw [if_pos (Nat.not_le.mp hle)]
    apply (Reads.failure _).of_eq
    intro _
    exact (only_neg fun h => hle h.1).symm

/-- The way to a field of a structure, over the fields before it. -/
theorem enter_meets {d : StructDef} {field : Field} {pos : Nat}
    (hget : d.fields[pos]? = some field) :
    Meets (enter types d field pos) (fun _ => entered types d field pos)
      (strayEntered types d field pos) := by
  have hpos : pos < d.fields.length := (List.getElem?_eq_some_iff.mp hget).1
  have hupTo : (upTo d.fields pos : Reading String (List Field)) = pure (d.fields.take pos) :=
    if_pos (Nat.le_of_lt hpos)
  unfold enter entered strayEntered
  generalize d.kind = kind
  match kind with
  | .struct =>
    rw [hupTo, Reading.pure_bind]
    exact all_meets skipBefore_meets _
  | .optionalFields =>
    -- the fields before, by their bits, and then the field's own bit
    have hmask : ∀ mask : UInt32, Meets
        (skipMasked (skipBefore types) mask 0 (d.fields.take pos) >>= present field mask)
        (fun _ => wireMasked (fieldOf types) mask 0 (d.fields.take pos) *
          only (field.isOptional = true → d.bit pos < 32 ∧ hasBit mask (d.bit pos)) 1)
        (overrunMasked (fieldOf types) (strayField types) mask 0 (d.fields.take pos) +
          wireMasked (fieldOf types) mask 0 (d.fields.take pos) *
            only (field.isOptional = true ∧ 32 ≤ d.bit pos) 1) := by
      intro mask
      apply ((masked_meets skipBefore_meets mask 0 _).bind (present_meets field mask)).of_eq
      · intro _
        rw [iSup_only_mul, Nat.zero_add]
        rfl
      · rw [iSup_only_mul, Nat.zero_add]
        rfl
    rw [hupTo]
    simp only [Reading.pure_bind]
    apply (Meets.bind u32_reads hmask).of_eq
    · intro _
      rfl
    · exact zero_add _
  | .union =>
    apply (Reads.bind u32_reads (union_reads d field pos)).of_eq
    intro _
    rfl

/-- The way to an element of an array. -/
theorem elementAt_meets (field : Field) (i : Option Nat) :
    Meets (element types field i) (fun _ => indexed types field i) (strayIndexed types field i) := by
  cases i with
  | none => exact Reads.done
  | some i =>
    have hcount : ∀ n, Meets
        (if i ≥ n then throw s!"index {i} out of range for \"{field.name}\" (length {n})"
          else skipElements (skipValue field.name types FRAMES 0) field.ty i : Reading String Unit)
        (fun _ => only (i < n) (valueOf types field.ty ^ i))
        (only (i < n) (roundsPanic (valueOf types field.ty) (strayValue types field.ty) i)) := by
      intro n
      by_cases hlt : i < n
      · rw [if_neg (Nat.not_le.mpr hlt)]
        have hvalue := @skipValue_meets field.name types _ _ _
          (Nat.zero_add MAX_DEPTH) (Nat.lt_succ_self _) field.ty
        apply (elements_meets hvalue (uniform_wireValue types MAX_DEPTH field.ty) i).of_eq
        · intro _
          exact (only_pos hlt).symm
        · exact (only_pos hlt).symm
      · rw [if_pos (Nat.not_lt.mp hlt)]
        apply Meets.of_eq (Reads.failure _)
        · intro _
          exact (only_neg hlt).symm
        · exact (only_neg hlt).symm
    apply (Meets.bind len_reads hcount).of_eq
    · intro _
      rfl
    · exact zero_add _

theorem walk_meets {step : Step} {d : StructDef} {field : Field}
    (hfind : types.find step.key = some d) (hget : d.fields[step.field]? = some field) :
    Meets (walk types step) (fun f => only (f = field) (walked types step))
      (strayWalked types step) := by
  have hread : walked types step =
      entered types d field step.field * indexed types field step.index := by
    rw [walked, hfind, iSup_only_some, hget, iSup_only_some]
  have hstray : strayWalked types step = strayEntered types d field step.field +
      entered types d field step.field * strayIndexed types field step.index := by
    rw [strayWalked, hfind, iSup_only_some, hget, iSup_only_some]
  rw [walk, TypeSet.get, hfind, ofExcept_ok, Reading.pure_bind, index, hget, Reading.pure_bind]
  apply ((enter_meets hget).seq ((elementAt_meets field step.index).seq (Meets.pure field))).of_eq
  · intro f
    rw [hread, mul_only, mul_only, mul_one]
  · rw [hstray, mul_zero, add_zero]

end Walks

/-! ## Plans -/

section Plans

variable {types : TypeSet} {statusName : UInt32 → Option String} {namespaces : List String}

/-- The value at the end of the path; rendering the least Int64 is the stray. -/
theorem leaf_meets (ctx : String) (leaf : Leaf) (dt : DataType) :
    Meets (scalar ctx leaf >>= fun s => lift (render statusName dt namespaces s))
      (fun out => ⨆ s, scalarWire leaf s * only (render statusName dt namespaces s = .ok out) 1)
      (scalarWire leaf (.i64 Int64.minValue)) := by
  have hrender : ∀ s, Meets (lift (render statusName dt namespaces s))
      (fun out => only (render statusName dt namespaces s = .ok out) 1)
      (only (s = .i64 Int64.minValue) 1) := by
    intro s
    cases hres : render statusName dt namespaces s with
    | ok out =>
      have hne : s ≠ .i64 Int64.minValue := by
        rintro rfl
        rw [render_minValue] at hres
        cases hres
      apply (Meets.pure out).of_eq
      · intro out'
        exact only_congr ⟨fun h => h ▸ rfl, fun h => (Except.ok.inj h).symm⟩
      · exact (only_neg hne).symm
    | error e =>
      obtain ⟨rfl, hs⟩ := render_error hres
      apply Meets.panic.of_eq
      · intro out
        exact (only_neg fun h => (nomatch h)).symm
      · exact (only_pos hs).symm
  apply (Meets.bind (scalar_reads leaf) hrender).of_eq
  · intro out
    rfl
  · rw [zero_add]
    ext w
    rw [Language.mem_iSup]
    constructor
    · rintro ⟨s, hw⟩
      rw [mul_only, mul_one] at hw
      exact hw.1 ▸ hw.2
    · intro hw
      refine ⟨.i64 Int64.minValue, ?_⟩
      rwa [only_pos rfl, mul_one]

variable {path : List Segment} {steps : List Step}

theorem follows_ne_nil {key : String} {leaf : Leaf} (h : Follows types key path steps leaf) :
    steps ≠ [] := by
  cases h with
  | leaf => exact List.cons_ne_nil _ _
  | step => exact List.cons_ne_nil _ _

theorem decodeSteps_cons {plan : Plan} {step : Step} (h : steps ≠ []) :
    decodeSteps statusName types namespaces plan (step :: steps) =
      (walk types step >>= fun _ => decodeSteps statusName types namespaces plan steps) := by
  cases steps with
  | nil => exact absurd rfl h
  | cons step' steps => rfl

theorem stray_cons {leaf : Leaf} {step : Step} (h : steps ≠ []) :
    stray types leaf (step :: steps) =
      strayWalked types step + walked types step * stray types leaf steps := by
  cases steps with
  | nil => exact absurd rfl h
  | cons step' steps => rfl

theorem decodeSteps_meets {plan : Plan} {key : String} {leaf : Leaf}
    (h : Follows types key path steps leaf) (hleaf : plan.leaf = leaf) :
    ∃ G, Meets (decodeSteps statusName types namespaces plan steps) G (stray types leaf steps) := by
  induction h with
  | leaf hfind hpos harray _ =>
    subst hleaf
    refine ⟨_, ((walk_meets hfind (position_spec hpos)).bind
      fun field => leaf_meets field.name plan.leaf plan.datatype).of_eq (fun _ => rfl) ?_⟩
    rw [iSup_only_mul, stray]
  | step hfind hpos harray hnext hrest ih =>
    obtain ⟨G, hG⟩ := ih hleaf
    have hne := follows_ne_nil hrest
    rw [decodeSteps_cons hne, stray_cons hne]
    refine ⟨_, ((walk_meets hfind (position_spec hpos)).bind fun _ => hG).of_eq
      (fun _ => rfl) ?_⟩
    rw [iSup_only_mul]

/-- **Plans**: decoding is safe unless the body begins with a stray of the plan. -/
theorem decode_safe {plan : Plan} {root : String} {dt : DataType}
    (h : compile types root path dt = .ok plan) (body : List UInt8) :
    Safe (decode statusName types namespaces plan body) ↔
      ∀ w ∈ stray types plan.leaf plan.steps, ¬ w <+: body := by
  obtain ⟨hfollows, -, -⟩ := compile_spec h
  obtain ⟨G, hG⟩ := @decodeSteps_meets types statusName namespaces _ _ _ _ _ hfollows rfl
  exact run_safe hG body

end Plans

/-! ## Values on their own -/

/-- The encoding of an Int64. -/
theorem scalarWire_i64 {leaf : Leaf} {v : Int64} {w : List UInt8} :
    w ∈ scalarWire leaf (.i64 v) ↔
      leaf = .builtin .int64 ∧ w = toLeBytes 8 v.toUInt64.toNat := by
  constructor
  · intro hw
    cases leaf with
    | enum name =>
      obtain ⟨a, ha, -⟩ := hw
      cases ha
    | builtin b =>
      cases b with
      | int64 =>
        obtain ⟨a, ha, hw⟩ := hw
        cases ha
        exact ⟨rfl, hw⟩
      | expandedNodeId =>
        obtain ⟨enc, hw⟩ := Language.mem_iSup.mp hw
        obtain ⟨-, -, u, hu, -⟩ := Language.mem_mul.mp hw
        obtain ⟨node, hu⟩ := Language.mem_iSup.mp hu
        obtain ⟨-, -, u, ⟨a, b, hab, -⟩, -⟩ := Language.mem_mul.mp hu
        cases hab
      | localizedText =>
        obtain ⟨mask, hw⟩ := Language.mem_iSup.mp hw
        obtain ⟨-, -, u, hu, -⟩ := Language.mem_mul.mp hw
        obtain ⟨-, -, u, ⟨a, ha, -⟩, -⟩ := Language.mem_mul.mp hu
        cases ha
      | qualifiedName =>
        obtain ⟨a, b, hab, -⟩ := hw
        cases hab
      | xmlElement => cases hw
      | extensionObject => cases hw
      | dataValue => cases hw
      | variant => cases hw
      | diagnosticInfo => cases hw
      | _ =>
        obtain ⟨a, ha, -⟩ := hw
        cases ha
  · rintro ⟨rfl, rfl⟩
    exact ⟨v, rfl, rfl⟩

theorem checkDatatype_error {leaf : Leaf} {dt : DataType} {subject : String}
    (h : dt ∉ accepted leaf) : ∃ e, checkDatatype leaf dt subject = .error e := by
  cases hcheck : checkDatatype leaf dt subject with
  | error e => exact ⟨e, rfl⟩
  | ok u => exact absurd (checkDatatype_ok hcheck) h

theorem checkDatatype_of_mem {leaf : Leaf} {dt : DataType} {subject : String}
    (h : dt ∈ accepted leaf) : checkDatatype leaf dt subject = .ok () := by
  have hempty : (accepted leaf).isEmpty = false := by
    cases heq : accepted leaf with
    | nil =>
      rw [heq] at h
      cases h
    | cons dt' dts => rfl
  rw [checkDatatype, hempty, if_neg Bool.false_ne_true, if_pos (List.contains_iff_mem.mpr h)]

/-- Without a path only the least Int64 is unsafe. -/
theorem decodeBuiltin_safe {statusName : UInt32 → Option String} {namespaces : List String}
    (b : Builtin) (dt : DataType) (body : List UInt8) :
    Safe (decodeBuiltin statusName namespaces b body dt) ↔
      ¬ (b = .int64 ∧ dt = .int64 ∧ toLeBytes 8 (2 ^ 63) <+: body) := by
  rw [decodeBuiltin]
  by_cases haccepted : dt ∈ accepted (.builtin b)
  · rw [checkDatatype_of_mem haccepted, ofExcept_ok, Reading.pure_bind,
      run_safe (leaf_meets "value" (.builtin b) dt) body]
    constructor
    · rintro hbody ⟨rfl, rfl, hstart⟩
      exact hbody _ (scalarWire_i64.mpr ⟨rfl, rfl⟩) hstart
    · intro hnot w hw hstart
      obtain ⟨hleaf, rfl⟩ := scalarWire_i64.mp hw
      cases hleaf
      have hdt : dt = .int64 := List.mem_singleton.mp haccepted
      exact hnot ⟨rfl, hdt, hstart⟩
  · obtain ⟨e, he⟩ := @checkDatatype_error _ _ "value" haccepted
    rw [he, ofExcept_error, throw_bind]
    constructor
    · rintro - ⟨rfl, rfl, -⟩
      exact haccepted (List.mem_singleton.mpr rfl)
    · intro _
      exact (run_safe (Reads.failure e) body).mpr fun w hw => absurd hw (Language.notMem_zero w)

theorem extensionBody_reads (id : NodeId) (enc : UInt8) : ∃ G, Reads (extensionBody id enc) G :=
  ⟨_, Reads.ite (fun _ => Reads.value _) fun _ => Reads.ite (fun _ => bytes_reads.map _) fun _ =>
    Reads.ite (fun _ => Reads.failure _) fun _ => Reads.failure _⟩

theorem splitExtensionObject_safe (body : List UInt8) : Safe (splitExtensionObject body) := by
  choose G hG using extensionBody_reads
  have hread := (@nodeId_reads "value").bind fun id => (@u8_reads "value").bind fun enc => hG id enc
  exact (run_safe hread body).mpr fun w hw => absurd hw (Language.notMem_zero w)

theorem readNodeId_safe (body : List UInt8) : Safe (readNodeId body) := by
  have hread : Reads (u8 "NodeId" >>= nodeIdBody "NodeId") _ := u8_reads.bind nodeIdBody_reads
  exact (run_safe hread body).mpr fun w hw => absurd hw (Language.notMem_zero w)

/-! ## Type sets whose masks have a bit for every field -/

/-- No structure has more optional fields than its mask has bits. -/
def Fits (types : TypeSet) : Prop :=
  ∀ key d, types.find key = some d → d.kind = .optionalFields →
    d.fields.countP Field.isOptional ≤ 32

section Fits

variable {types : TypeSet} {field inside : Field → Language UInt8}

theorem overrunAll_eq_zero {fields : List Field} (h : ∀ f, inside f = 0) :
    overrunAll field inside fields = 0 := by
  induction fields with
  | nil => rfl
  | cons f fields ih => rw [overrunAll, h, ih, mul_zero, add_zero]

theorem overrunMasked_eq_zero {mask : UInt32} {bit : Nat} {fields : List Field}
    (h : ∀ f, inside f = 0) (hfits : bit + fields.countP Field.isOptional ≤ 32) :
    overrunMasked field inside mask bit fields = 0 := by
  induction fields generalizing bit with
  | nil => rfl
  | cons f fields ih =>
    rw [overrunMasked]
    by_cases hoptional : f.isOptional = true
    · rw [List.countP_cons_of_pos hoptional] at hfits
      rw [if_pos hoptional, choice_pos (by omega), h, ih (by omega), mul_zero, add_zero]
      exact choice_self
    · rw [List.countP_cons_of_neg hoptional] at hfits
      rw [if_neg hoptional, h, ih hfits, mul_zero, add_zero]

theorem overrunField_eq_zero {value stray : FieldType → Language UInt8} (h : ∀ ty, stray ty = 0)
    (f : Field) : overrunField value stray f = 0 := by
  simp only [overrunField, h, roundsPanic_zero, mul_zero, Reading.iSup_zero]
  exact choice_self

theorem overrunStruct_eq_zero {key : String} {d : StructDef} (hfits : Fits types)
    (hfind : types.find key = some d) (h : ∀ f, inside f = 0) :
    overrunStruct field inside d = 0 := by
  unfold overrunStruct
  split
  · exact overrunAll_eq_zero h
  · rename_i hkind
    have hle := hfits key d hfind hkind
    simp only [overrunMasked_eq_zero h (show 0 + d.fields.countP Field.isOptional ≤ 32 by omega),
      mul_zero, Reading.iSup_zero]
  · simp only [h, only_zero, Reading.iSup_zero, choice_self, mul_zero]

theorem overrun_eq_zero (hfits : Fits types) (n : Nat) (ty : FieldType) :
    overrun types n ty = 0 := by
  induction n generalizing ty with
  | zero => rfl
  | succ n ih =>
    cases ty with
    | builtin b => rfl
    | enum name => rfl
    | struct key =>
      rw [overrun]
      cases hfind : types.find key with
      | none => exact iSup_only_none
      | some d =>
        rw [iSup_only_some]
        exact overrunStruct_eq_zero hfits hfind (overrunField_eq_zero ih)

/-- Structures of at most 32 optional fields have no stray on the way. -/
theorem strayWalked_eq_zero (hfits : Fits types) (step : Step) : strayWalked types step = 0 := by
  -- no value has a stray, so neither has the way to it
  have hvalue : ∀ ty, strayValue types ty = 0 := overrun_eq_zero hfits MAX_DEPTH
  have hfield : ∀ f, strayField types f = 0 := overrunField_eq_zero hvalue
  rw [strayWalked]
  cases hfind : types.find step.key with
  | none => exact iSup_only_none
  | some d =>
    rw [iSup_only_some]
    cases hget : d.fields[step.field]? with
    | none => exact iSup_only_none
    | some field =>
      have hindexed : strayIndexed types field step.index = 0 := by
        cases step.index with
        | none => rfl
        | some i => simp only [strayIndexed, hvalue, roundsPanic_zero, only_zero, mul_zero,
          Reading.iSup_zero]
      have hsplit : d.fields.countP Field.isOptional = d.bit step.field +
          (d.fields.drop step.field).countP Field.isOptional := by
        rw [StructDef.bit, ← List.countP_append, List.take_append_drop]
      have hentered : strayEntered types d field step.field = 0 := by
        unfold strayEntered
        split
        · exact overrunAll_eq_zero hfield
        · rename_i hkind
          have hle := hfits step.key d hfind hkind
          have hmask : ∀ mask, overrunMasked (fieldOf types) (strayField types) mask 0
              (d.fields.take step.field) = 0 := by
            intro mask
            apply overrunMasked_eq_zero hfield
            rw [StructDef.bit] at hsplit
            omega
          have hbit : ¬ (field.isOptional = true ∧ 32 ≤ d.bit step.field) := by
            rintro ⟨hoptional, hbit⟩
            have hdrop : d.fields.drop step.field = field :: d.fields.drop (step.field + 1) := by
              rw [List.drop_eq_getElem?_toList_append, hget]
              rfl
            rw [hdrop, List.countP_cons_of_pos hoptional] at hsplit
            omega
          simp only [hmask, only_neg hbit, mul_zero, add_zero, Reading.iSup_zero]
        · rfl
      rw [iSup_only_some, hindexed, hentered, mul_zero, add_zero]

theorem stray_eq_zero (hfits : Fits types) {leaf : Leaf} (hleaf : leaf ≠ .builtin .int64)
    (steps : List Step) : stray types leaf steps = 0 := by
  have hmin : scalarWire leaf (.i64 Int64.minValue) = 0 := by
    ext w
    exact ⟨fun hw => absurd (scalarWire_i64.mp hw).1 hleaf,
      fun hw => absurd hw (Language.notMem_zero w)⟩
  induction steps with
  | nil => rfl
  | cons step steps ih =>
    cases steps with
    | nil => rw [stray, strayWalked_eq_zero hfits, hmin, mul_zero, add_zero]
    | cons step' steps =>
      rw [stray_cons (List.cons_ne_nil _ _), strayWalked_eq_zero hfits, ih, mul_zero, add_zero]

end Fits

/-! ## Decoding -/

section Decoding

variable {types : TypeSet} {root : String} {path : List Segment} {dt : DataType} {plan : Plan}

/-- **Decoding**: the decoders are safe on a body unless it begins with a stray of the plan, or is
decoded as an Int64 and begins with the least one. -/
theorem decoders_safe_iff (h : compile types root path dt = .ok plan)
    (statusName : UInt32 → Option String) (namespaces : List String) (b : Builtin)
    (dt' : DataType) (body : List UInt8) :
    (Safe (decode statusName types namespaces plan body) ∧
      Safe (decodeBuiltin statusName namespaces b body dt') ∧
      Safe (splitExtensionObject body) ∧ Safe (readNodeId body)) ↔
    (∀ w ∈ stray types plan.leaf plan.steps, ¬ w <+: body) ∧
      ¬ (b = .int64 ∧ dt' = .int64 ∧ toLeBytes 8 (2 ^ 63) <+: body) := by
  rw [decode_safe h, decodeBuiltin_safe]
  constructor
  · rintro ⟨hdecode, hbuiltin, -, -⟩
    exact ⟨hdecode, hbuiltin⟩
  · rintro ⟨hdecode, hbuiltin⟩
    exact ⟨hdecode, hbuiltin, splitExtensionObject_safe body, readNodeId_safe body⟩

/-- A pump as a server describes it: a name, a note that may be absent, and its limits. -/
def pumpDef : StructDef where
  name := "Pump"
  kind := .optionalFields
  fields := [⟨"Name", .builtin .string, false, false⟩, ⟨"Note", .builtin .string, false, true⟩,
    ⟨"Limits", .struct "limit", true, false⟩]

def limitDef : StructDef where
  name := "Limit"
  kind := .struct
  fields := [⟨"Low", .builtin .int16, false, false⟩, ⟨"High", .builtin .int16, false, false⟩]

def pumpTypes : TypeSet where
  structs := [("pump", pumpDef), ("limit", limitDef)]

theorem pumpTypes_fits : Fits pumpTypes := by
  intro key d hfind _
  obtain ⟨s, hs, rfl⟩ := Option.map_eq_some_iff.mp hfind
  have hmem := List.mem_of_find?_eq_some hs
  simp only [pumpTypes, List.mem_cons, List.not_mem_nil, or_false] at hmem
  rcases hmem with rfl | rfl <;> decide

/-- The name says that it is 2 GiB long, and the second limit is asked for. -/
theorem decoders_safe_iff_pump :
    Safe (decode (fun _ => none) pumpTypes []
      { steps := [⟨"pump", 2, some 1⟩, ⟨"limit", 1, none⟩], leaf := .builtin .int16,
        datatype := .int16 } [0, 0, 0, 0, 0xFF, 0xFF, 0xFF, 0x7F, 0x50]) ∧
    Safe (decodeBuiltin (fun _ => none) [] .string [0, 0, 0, 0, 0xFF, 0xFF, 0xFF, 0x7F, 0x50]
      .string) ∧
    Safe (splitExtensionObject [0, 0, 0, 0, 0xFF, 0xFF, 0xFF, 0x7F, 0x50]) ∧
    Safe (readNodeId [0, 0, 0, 0, 0xFF, 0xFF, 0xFF, 0x7F, 0x50]) := by
  apply (decoders_safe_iff
    (show compile pumpTypes "pump" [⟨"Limits", some 1⟩, ⟨"High", none⟩] .int16 = .ok _ from rfl)
    (fun _ => none) [] .string .string _).mpr
  constructor
  · intro w hw
    rw [stray_eq_zero pumpTypes_fits (by simp)] at hw
    exact absurd hw (Language.notMem_zero w)
  · rintro ⟨h, -⟩
    cases h

/-- A structure of a server, with an optional field more than its mask has bits. -/
def wide : Server where
  definition _ := .ok ("Wide", some (.struct
    { structureType := .structureWithOptionalFields
      defaultEncodingId := { ns := 1, id := .numeric 2 }
      fields := some ((List.range 33).map fun i =>
        { name := toString i, dataType := { ns := 0, id := .numeric 1 }, valueRank := -1,
          isOptional := true }) }))
  supertype _ := .error "no supertype"
  display _ := "ns=1;i=1"

def wideDef : StructDef where
  name := "Wide"
  kind := .optionalFields
  fields := (List.range 33).map fun i =>
    { name := toString i, ty := .builtin .boolean, array := false, isOptional := true }

set_option maxRecDepth 4000 in
/-- The last field of a structure that the resolver builds is not decoded. -/
theorem decode_wide : ∃ types plan, Resolved wide types ∧
    compile types "ns=1;i=1" [{ name := "32", index := none }] .bool = .ok plan ∧
    ¬ Safe (decode (fun _ => none) types [] plan [0, 0, 0, 0]) := by
  refine ⟨{ structs := [("ns=1;i=1", wideDef)] },
    { steps := [{ key := "ns=1;i=1", field := 32, index := none }]
      leaf := .builtin .boolean
      datatype := .bool }, ⟨1, [{ ns := 1, id := .numeric 1 }], _, rfl, ?_⟩, ?_, ?_⟩
  · rfl
  · rfl
  · exact fun h => h.no_panic rfl

end Decoding

end TedgeDot.Opcua
