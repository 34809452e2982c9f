import TedgeDot.Opcua.Wire

/-!
# Values and their encodings

A value of a type of the definitions as a tree, its encodings as OPC UA Part 6 binary (`encodings`),
and what a field path selects in it (`select`). Nothing here reads bytes: the encodings of a value
are among those of its type (`encodings_le`), and those of a type grow with the depth
(`wireValue_mono`).
-/

namespace TedgeDot.Opcua

open Reading

inductive Node where
  /-- Of a built-in type that a point can read, or of an Enumeration. -/
  | scalar (s : Scalar)
  /-- Of a built-in type that a point cannot read. -/
  | unread
  /-- The fields of a structure; an optional field may be absent. -/
  | record (fields : List (Option Node))
  /-- The field of a union that is set, if any. -/
  | union (active : Option (Nat × Node))
  | array (elements : List Node)

namespace Node

def child : Node → Nat → Option Node
  | record fields, pos => (fields[pos]?).join
  | union (some (active, v)), pos => if active = pos then some v else none
  | _, _ => none

/-- The selected element, where one is selected. -/
def item : Node → Option Nat → Option Node
  | v, none => some v
  | array elements, some i => elements[i]?
  | _, some _ => none

def toScalar : Node → Option Scalar
  | scalar s => some s
  | _ => none

end Node

/-- What a field path selects in a value of a structure; nothing where it is absent. -/
def select (types : TypeSet) : String → List Segment → Node → Option Scalar
  | _, [], _ => none
  | key, seg :: path, v => do
    let d ← types.find key
    let (field, pos) ← d.position seg.name
    let child ← v.child pos
    let item ← child.item seg.index
    match field.ty, path with
    | .struct next, _ :: _ => select types next path item
    | _, _ => item.toScalar

/-! ## Encodings -/

section Encodings

variable (field : Field → Node → Language UInt8)

/-- The fields of a structure, one after the other. -/
def encodeAll : List Field → List (Option Node) → Language UInt8
  | [], [] => 1
  | f :: fields, some v :: values => field f v * encodeAll fields values
  | _, _ => 0

/-- The fields of a structure with optional fields, from a bit of the mask on: the bit of an optional
field tells whether it is present. -/
def encodeMasked (mask : UInt32) : Nat → List Field → List (Option Node) → Language UInt8
  | _, [], [] => 1
  | bit, f :: fields, some v :: values =>
    if f.isOptional then
      only (bit < 32 ∧ hasBit mask bit) (field f v * encodeMasked mask (bit + 1) fields values)
    else field f v * encodeMasked mask bit fields values
  | bit, f :: fields, none :: values =>
    only (f.isOptional = true ∧ bit < 32 ∧ ¬ hasBit mask bit)
      (encodeMasked mask (bit + 1) fields values)
  | _, _, _ => 0

/-- A value of a structure, a structure with optional fields, or a union. -/
def encodeStruct (d : StructDef) (v : Node) : Language UInt8 :=
  match d.kind, v with
  | .struct, .record values => encodeAll field d.fields values
  | .optionalFields, .record values =>
    ⨆ mask, four mask * encodeMasked field mask 0 d.fields values
  | .union, .union none => four 0
  | .union, .union (some (active, v)) => ⨆ s : UInt32, four s *
      only (s.toNat = active + 1) (⨆ f, only (d.fields[active]? = some f) (field f v))
  | _, _ => 0

end Encodings

/-- The elements of an array, one after the other. -/
def encodeElements (value : Node → Language UInt8) : List Node → Language UInt8
  | [] => 1
  | v :: values => value v * encodeElements value values

def encodeField (value : FieldType → Node → Language UInt8) (f : Field) (v : Node) :
    Language UInt8 :=
  match f.array, v with
  | true, .array values => lengthPrefix values.length * encodeElements (value f.ty) values
  | true, _ => 0
  | false, v => value f.ty v

def encodeLeaf (n : Nat) (ty : FieldType) (v : Node) : Language UInt8 :=
  match ty, v with
  | .builtin b, .scalar s => scalarWire (.builtin b) s
  | .enum name, .scalar s => scalarWire (.enum name) s
  | .builtin b, .unread => only (accepted (.builtin b) = []) (wire n b)
  | _, _ => 0

/-- The encodings of a value of a type, nested at most to a depth. -/
def encodings (types : TypeSet) : Nat → FieldType → Node → Language UInt8
  | n + 1, .struct key, v =>
    ⨆ d, only (types.find key = some d) (encodeStruct (encodeField (encodings types n)) d v)
  | n, ty, v => encodeLeaf n ty v

/-! ## Encodings of a type -/

section Types

variable {field field' : Field → Language UInt8}

variable {L M : Language UInt8}

theorem only_le {c : Prop} (h : c → L ≤ M) : only c L ≤ only c M :=
  fun _ hw => ⟨hw.1, h hw.1 hw.2⟩

theorem choice_le {c : Prop} [Decidable c] {L L' M M' : Language UInt8} (hL : L ≤ L')
    (hM : M ≤ M') : choice c L M ≤ choice c L' M' := by
  by_cases hc : c
  · rw [choice_pos hc, choice_pos hc]
    exact hL
  · rw [choice_neg hc, choice_neg hc]
    exact hM

theorem ifGiven_le {mask bit : UInt8} (h : L ≤ M) :
    ifGiven mask bit L ≤ ifGiven mask bit M := choice_le h le_rfl

theorem arrayOf_le (h : L ≤ M) : arrayOf L ≤ arrayOf M :=
  iSup_mono fun n => mul_le_mul' le_rfl (pow_le_pow_left' h n)

theorem variantOf_le {mask : UInt8} (h : L ≤ M) : variantOf mask L ≤ variantOf mask M :=
  choice_le (mul_le_mul' (arrayOf_le h) le_rfl) h

/-- A nested encoding grows with what may be nested. -/
theorem nested_le {below below' : Builtin → Language UInt8} (h : ∀ b, below b ≤ below' b)
    (b : Builtin) : nested below b ≤ nested below' b := by
  cases b with
  | dataValue =>
    apply iSup_mono
    intro mask
    apply mul_le_mul' le_rfl
    exact mul_le_mul' (ifGiven_le (h _)) le_rfl
  | variant =>
    apply iSup_mono
    intro mask
    apply mul_le_mul' le_rfl
    apply choice_le le_rfl
    exact iSup_mono fun b => only_le fun _ => variantOf_le (h b)
  | diagnosticInfo =>
    apply iSup_mono
    intro mask
    apply mul_le_mul' le_rfl
    gcongr
    exact ifGiven_le (h _)
  | _ => exact le_rfl

theorem wire_succ (n : Nat) (b : Builtin) : wire n b ≤ wire (n + 1) b := by
  induction n generalizing b with
  | zero =>
    rw [wire, wire]
    exact le_self_add
  | succ n ih =>
    rw [wire, wire]
    exact add_le_add le_rfl (nested_le ih b)

theorem wireField_le {value value' : FieldType → Language UInt8} (h : ∀ ty, value ty ≤ value' ty)
    (f : Field) : wireField value f ≤ wireField value' f :=
  choice_le (arrayOf_le (h f.ty)) (h f.ty)

theorem wireAll_le (h : ∀ f, field f ≤ field' f) (fields : List Field) :
    wireAll field fields ≤ wireAll field' fields := by
  induction fields with
  | nil => exact le_rfl
  | cons f fields ih => exact mul_le_mul' (h f) ih

theorem wireMasked_le (h : ∀ f, field f ≤ field' f) (mask : UInt32) (bit : Nat)
    (fields : List Field) : wireMasked field mask bit fields ≤ wireMasked field' mask bit fields := by
  induction fields generalizing bit with
  | nil => exact le_rfl
  | cons f fields ih =>
    rw [wireMasked, wireMasked]
    by_cases hoptional : f.isOptional = true
    · rw [if_pos hoptional, if_pos hoptional]
      exact only_le fun _ => mul_le_mul' (choice_le (h f) le_rfl) (ih (bit + 1))
    · rw [if_neg hoptional, if_neg hoptional]
      exact mul_le_mul' (h f) (ih bit)

theorem wireStruct_le (h : ∀ f, field f ≤ field' f) (d : StructDef) :
    wireStruct field d ≤ wireStruct field' d := by
  unfold wireStruct
  split
  · exact wireAll_le h d.fields
  · exact iSup_mono fun mask => mul_le_mul' le_rfl (wireMasked_le h mask 0 d.fields)
  · apply iSup_mono
    intro s
    exact mul_le_mul' le_rfl (choice_le le_rfl (iSup_mono fun f => only_le fun _ => h f))

theorem wireValue_succ (types : TypeSet) (n : Nat) (ty : FieldType) :
    wireValue types n ty ≤ wireValue types (n + 1) ty := by
  induction n generalizing ty with
  | zero =>
    cases ty with
    | builtin b => exact wire_succ 0 b
    | enum name => exact le_rfl
    | struct key => exact bot_le
  | succ n ih =>
    cases ty with
    | builtin b => exact wire_succ (n + 1) b
    | enum name => exact le_rfl
    | struct key => exact iSup_mono fun d => only_le fun _ => wireStruct_le (wireField_le ih) d

theorem wireValue_mono (types : TypeSet) (ty : FieldType) : Monotone fun n => wireValue types n ty :=
  monotone_nat_of_le_succ fun n => wireValue_succ types n ty

end Types

/-! ## Encodings of a value -/

section Values

variable {field : Field → Node → Language UInt8} {wireOf : Field → Language UInt8}

theorem encodeAll_le (h : ∀ f v, field f v ≤ wireOf f) (fields : List Field)
    (values : List (Option Node)) : encodeAll field fields values ≤ wireAll wireOf fields := by
  induction fields generalizing values with
  | nil =>
    cases values with
    | nil => exact le_rfl
    | cons v values => exact bot_le
  | cons f fields ih =>
    rcases values with _ | ⟨_ | v, values⟩
    · exact bot_le
    · exact bot_le
    · exact mul_le_mul' (h f v) (ih values)

/-- The encoded fields are fields of the wire format. -/
theorem encodeMasked_le (h : ∀ f v, field f v ≤ wireOf f) (mask : UInt32) (bit : Nat)
    (fields : List Field) (values : List (Option Node)) :
    encodeMasked field mask bit fields values ≤ wireMasked wireOf mask bit fields := by
  induction fields generalizing bit values with
  | nil =>
    cases values with
    | nil => exact le_rfl
    | cons v values => exact bot_le
  | cons f fields ih =>
    rcases values with _ | ⟨_ | v, values⟩
    · exact bot_le
    · rw [encodeMasked, wireMasked]
      rintro w ⟨⟨hoptional, hbit, hmask⟩, hw⟩
      rw [if_pos hoptional, only_pos hbit, choice_neg hmask, one_mul]
      exact ih _ _ hw
    · rw [encodeMasked, wireMasked]
      by_cases hoptional : f.isOptional = true
      · rw [if_pos hoptional, if_pos hoptional]
        rintro w ⟨⟨hbit, hmask⟩, hw⟩
        rw [only_pos hbit, choice_pos hmask]
        exact mul_le_mul' (h f v) (ih _ _) hw
      · rw [if_neg hoptional, if_neg hoptional]
        exact mul_le_mul' (h f v) (ih _ _)

/-- So is a whole structure. -/
theorem encodeStruct_le (h : ∀ f v, field f v ≤ wireOf f) (d : StructDef) (v : Node) :
    encodeStruct field d v ≤ wireStruct wireOf d := by
  unfold encodeStruct wireStruct
  generalize d.kind = kind
  match kind, v with
  | .struct, .record values => exact encodeAll_le h d.fields values
  | .optionalFields, .record values =>
    exact iSup_mono fun mask => mul_le_mul' le_rfl (encodeMasked_le h mask 0 d.fields values)
  | .union, .union none =>
    intro w hw
    refine Language.mem_iSup.mpr ⟨0, ?_⟩
    rwa [choice_pos rfl, mul_one]
  | .union, .union (some (active, v)) =>
    apply iSup_mono
    intro s
    apply mul_le_mul' le_rfl
    rintro w ⟨hs, hw⟩
    have hzero : s ≠ 0 := by
      rintro rfl
      cases hs
    rw [choice_neg hzero, hs, Nat.add_sub_cancel]
    exact iSup_mono (fun f => only_le fun _ => h f v) hw
  | .struct, .scalar _ => exact bot_le
  | .struct, .unread => exact bot_le
  | .struct, .union _ => exact bot_le
  | .struct, .array _ => exact bot_le
  | .optionalFields, .scalar _ => exact bot_le
  | .optionalFields, .unread => exact bot_le
  | .optionalFields, .union _ => exact bot_le
  | .optionalFields, .array _ => exact bot_le
  | .union, .scalar _ => exact bot_le
  | .union, .unread => exact bot_le
  | .union, .record _ => exact bot_le
  | .union, .array _ => exact bot_le

theorem encodeElements_le {value : Node → Language UInt8} {L : Language UInt8}
    (h : ∀ v, value v ≤ L) (values : List Node) :
    encodeElements value values ≤ L ^ values.length := by
  induction values with
  | nil => exact le_of_eq (pow_zero L).symm
  | cons v values ih =>
    rw [encodeElements, List.length_cons, pow_succ']
    exact mul_le_mul' (h v) ih

theorem encodeField_le {value : FieldType → Node → Language UInt8}
    {wireOf : FieldType → Language UInt8} (h : ∀ ty v, value ty v ≤ wireOf ty) (f : Field)
    (v : Node) : encodeField value f v ≤ wireField wireOf f := by
  unfold encodeField wireField
  cases f.array with
  | false => exact h f.ty v
  | true =>
    rw [choice_pos rfl]
    match v with
    | .array values =>
      intro w hw
      exact Language.mem_iSup.mpr ⟨_, mul_le_mul' le_rfl (encodeElements_le (h f.ty) values) hw⟩
    | .scalar _ => exact bot_le
    | .unread => exact bot_le
    | .record _ => exact bot_le
    | .union _ => exact bot_le

end Values

/-! ## Encodings of a leaf -/

section Leaves

theorem mapped_le_of {α β : Type} {f : α → β} {G : α → Language UInt8} {L : Language UInt8}
    (h : ∀ a, G a ≤ L) (b : β) : mapped f G b ≤ L := by
  rintro w ⟨a, -, hw⟩
  exact h a hw

theorem pair_le {α β γ : Type} {f : α → β → γ} {G : α → Language UInt8} {H : β → Language UInt8}
    {L M : Language UInt8} (hL : ∀ a, G a ≤ L) (hM : ∀ b, H b ≤ M) (c : γ) :
    pair f G H c ≤ L * M := by
  rintro w ⟨a, b, -, hw⟩
  exact mul_le_mul' (hL a) (hM b) hw

theorem fixed_le {n count : Nat} : ({toLeBytes count n} : Language UInt8) ≤ fixed count := by
  rintro w rfl
  exact length_toLeBytes count n

theorem one_le (v : UInt8) : one v ≤ fixed 1 := by
  rintro w rfl
  rfl

theorem ofLength_le (n : Nat) (bytes : List UInt8) : ofLength n bytes ≤ fixed n := fun _ hw => hw.2

theorem textOf_le (s : Option String) : textOf s ≤ anyRun := le_iSup runOf _

/-- An encoded scalar is an encoding of its type. -/
theorem scalarWire_le (b : Builtin) (s : Scalar) : scalarWire (.builtin b) s ≤ flat b := by
  cases b with
  | boolean => exact mapped_le_of one_le s
  | sByte => exact mapped_le_of one_le s
  | byte => exact mapped_le_of one_le s
  | int16 => exact mapped_le_of (fun _ => fixed_le) s
  | uint16 => exact mapped_le_of (fun _ => fixed_le) s
  | int32 => exact mapped_le_of (fun _ => fixed_le) s
  | uint32 => exact mapped_le_of (fun _ => fixed_le) s
  | int64 => exact mapped_le_of (fun _ => fixed_le) s
  | uint64 => exact mapped_le_of (fun _ => fixed_le) s
  | float => exact mapped_le_of (fun _ => fixed_le) s
  | double => exact mapped_le_of (fun _ => fixed_le) s
  | string => exact mapped_le_of textOf_le s
  | dateTime => exact mapped_le_of (fun _ => fixed_le) s
  | guid => exact mapped_le_of (ofLength_le 16) s
  | byteString => exact mapped_le_of (le_iSup runOf) s
  | statusCode => exact mapped_le_of (fun _ => fixed_le) s
  | nodeId => exact mapped_le_of (le_iSup nodeIdOf) s
  | expandedNodeId => exact le_iSup expandedNodeIdOf s
  | qualifiedName => exact pair_le (fun _ => fixed_le) textOf_le s
  | localizedText =>
    apply iSup_mono
    intro mask
    apply mul_le_mul' le_rfl
    apply mul_le_mul' (ifGiven_le (iSup_le textOf_le))
    apply mapped_le_of
    intro text
    apply choice_le (textOf_le text)
    exact fun _ hw => hw.2
  | xmlElement => exact bot_le
  | extensionObject => exact bot_le
  | dataValue => exact bot_le
  | variant => exact bot_le
  | diagnosticInfo => exact bot_le

theorem flat_le_wire (n : Nat) (b : Builtin) : flat b ≤ wire n b := by
  cases n with
  | zero => exact le_rfl
  | succ n => exact le_self_add

theorem wireValue_builtin (types : TypeSet) (n : Nat) (b : Builtin) :
    wireValue types n (.builtin b) = wire n b := by
  cases n <;> rfl

theorem wireValue_enum (types : TypeSet) (n : Nat) (name : String) :
    wireValue types n (.enum name) = fixed 4 := by
  cases n <;> rfl

/-- So is any leaf. -/
theorem encodeLeaf_le (types : TypeSet) (n : Nat) (ty : FieldType) (v : Node) :
    encodeLeaf n ty v ≤ wireValue types n ty := by
  match ty, v with
  | .builtin b, .scalar s =>
    rw [wireValue_builtin]
    exact (scalarWire_le b s).trans (flat_le_wire n b)
  | .enum name, .scalar s =>
    rw [wireValue_enum]
    exact mapped_le_of (fun _ => fixed_le) s
  | .builtin b, .unread =>
    rw [wireValue_builtin]
    exact fun _ hw => hw.2
  | .builtin _, .record _ => exact bot_le
  | .builtin _, .union _ => exact bot_le
  | .builtin _, .array _ => exact bot_le
  | .enum _, .unread => exact bot_le
  | .enum _, .record _ => exact bot_le
  | .enum _, .union _ => exact bot_le
  | .enum _, .array _ => exact bot_le
  | .struct _, .scalar _ => exact bot_le
  | .struct _, .unread => exact bot_le
  | .struct _, .record _ => exact bot_le
  | .struct _, .union _ => exact bot_le
  | .struct _, .array _ => exact bot_le

end Leaves

/-- **Encodings**: those of a value are among those of its type. -/
theorem encodings_le (types : TypeSet) (n : Nat) (ty : FieldType) (v : Node) :
    encodings types n ty v ≤ wireValue types n ty := by
  induction n generalizing ty v with
  | zero =>
    cases ty with
    | builtin b => exact encodeLeaf_le types 0 _ v
    | enum name => exact encodeLeaf_le types 0 _ v
    | struct key => exact encodeLeaf_le types 0 _ v
  | succ n ih =>
    cases ty with
    | builtin b => exact encodeLeaf_le types (n + 1) _ v
    | enum name => exact encodeLeaf_le types (n + 1) _ v
    | struct key =>
      exact iSup_mono fun d => only_le fun _ => encodeStruct_le (encodeField_le ih) d v

theorem encodings_le_of_le {types : TypeSet} {n m : Nat} (h : n ≤ m) (ty : FieldType) (v : Node) :
    encodings types n ty v ≤ wireValue types m ty :=
  (encodings_le types n ty v).trans (wireValue_mono types ty h)

end TedgeDot.Opcua
