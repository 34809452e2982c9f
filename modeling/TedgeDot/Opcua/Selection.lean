import TedgeDot.Opcua.Total
import TedgeDot.Opcua.Values

/-!
# A plan selects what its path names

An encoded value of a structure is read along a plan: the fields before the selected one are skipped
by their encodings, so what is read next is the encoding of the selected one (`decode_selects`).
-/

namespace TedgeDot.Opcua

open Reading

/-! ## Fields of an encoded value -/

section Split

variable {field : Field → Node → Language UInt8} {wireOf : Field → Language UInt8}

theorem encodeAll_split (h : ∀ f v, field f v ≤ wireOf f) {fields : List Field}
    {values : List (Option Node)} {w : List UInt8} (hw : w ∈ encodeAll field fields values)
    {pos : Nat} {f : Field} (hget : fields[pos]? = some f) :
    ∃ v, values[pos]? = some (some v) ∧
      ∃ a ∈ wireAll wireOf (fields.take pos), ∃ b ∈ field f v, a ++ b <+: w := by
  induction fields generalizing values w pos with
  | nil => cases hget
  | cons g fields ih =>
    rcases values with _ | ⟨_ | v, values⟩
    · cases hw
    · cases hw
    · obtain ⟨u, hu, rest, hrest, rfl⟩ := Language.mem_mul.mp hw
      cases pos with
      | zero =>
        cases hget
        exact ⟨v, rfl, [], rfl, u, hu, List.prefix_append u rest⟩
      | succ pos =>
        obtain ⟨v', hv', a, ha, b, hb, hstart⟩ := ih hrest hget
        refine ⟨v', hv', u ++ a, Language.append_mem_mul (h g v hu) ha, b, hb, ?_⟩
        rw [List.append_assoc]
        exact (List.prefix_append_right_inj u).mpr hstart

/-- The selected field of a structure with optional fields: after those before it where it is
present, and without its bit where it is not. -/
theorem encodeMasked_split (h : ∀ f v, field f v ≤ wireOf f) {mask : UInt32} {bit : Nat}
    {fields : List Field} {values : List (Option Node)} {w : List UInt8}
    (hw : w ∈ encodeMasked field mask bit fields values) {pos : Nat} {f : Field}
    (hget : fields[pos]? = some f) :
    ∃ a ∈ wireMasked wireOf mask bit (fields.take pos), a <+: w ∧
      ((∃ v, values[pos]? = some (some v) ∧
          (f.isOptional = true → bit + (fields.take pos).countP Field.isOptional < 32 ∧
            hasBit mask (bit + (fields.take pos).countP Field.isOptional)) ∧
          ∃ b ∈ field f v, a ++ b <+: w) ∨
        (values[pos]? = some none ∧ f.isOptional = true ∧
          bit + (fields.take pos).countP Field.isOptional < 32 ∧
          ¬ hasBit mask (bit + (fields.take pos).countP Field.isOptional))) := by
  induction fields generalizing bit values w pos with
  | nil => cases hget
  | cons g fields ih =>
    rcases values with _ | ⟨_ | v, values⟩
    · cases hw
    · -- an absent field takes no bytes
      obtain ⟨⟨hoptional, hbit, hmask⟩, hw⟩ := hw
      cases pos with
      | zero =>
        cases hget
        exact ⟨[], rfl, List.nil_prefix, .inr ⟨rfl, hoptional, hbit, hmask⟩⟩
      | succ pos =>
        obtain ⟨a, ha, hstart, hcases⟩ := ih hw hget
        refine ⟨a, ?_, hstart, ?_⟩
        · rw [List.take_succ_cons, wireMasked, if_pos hoptional, only_pos hbit,
            choice_neg hmask, one_mul]
          exact ha
        · rw [List.take_succ_cons, List.countP_cons_of_pos hoptional, List.getElem?_cons_succ,
            show bit + ((fields.take pos).countP Field.isOptional + 1) =
              bit + 1 + (fields.take pos).countP Field.isOptional by omega]
          exact hcases
    -- a field that is there: the one asked for, or one before it
    · rw [encodeMasked] at hw
      by_cases hoptional : g.isOptional = true
      · rw [if_pos hoptional] at hw
        obtain ⟨⟨hbit, hmask⟩, hw⟩ := hw
        obtain ⟨u, hu, rest, hrest, rfl⟩ := Language.mem_mul.mp hw
        cases pos with
        | zero =>
          cases hget
          exact ⟨[], rfl, List.nil_prefix, .inl ⟨v, rfl, fun _ => ⟨hbit, hmask⟩, u, hu,
            List.prefix_append u rest⟩⟩
        | succ pos =>
          obtain ⟨a, ha, hstart, hcases⟩ := ih hrest hget
          refine ⟨u ++ a, ?_, (List.prefix_append_right_inj u).mpr hstart, ?_⟩
          · rw [List.take_succ_cons, wireMasked, if_pos hoptional, only_pos hbit,
              choice_pos hmask]
            exact Language.append_mem_mul (h g v hu) ha
          · rw [List.take_succ_cons, List.countP_cons_of_pos hoptional, List.getElem?_cons_succ,
              show bit + ((fields.take pos).countP Field.isOptional + 1) =
                bit + 1 + (fields.take pos).countP Field.isOptional by omega]
            simp only [List.append_assoc, List.prefix_append_right_inj]
            exact hcases
      · rw [if_neg hoptional] at hw
        obtain ⟨u, hu, rest, hrest, rfl⟩ := Language.mem_mul.mp hw
        cases pos with
        | zero =>
          cases hget
          exact ⟨[], rfl, List.nil_prefix, .inl ⟨v, rfl, fun h => absurd h hoptional, u, hu,
            List.prefix_append u rest⟩⟩
        | succ pos =>
          obtain ⟨a, ha, hstart, hcases⟩ := ih hrest hget
          refine ⟨u ++ a, ?_, (List.prefix_append_right_inj u).mpr hstart, ?_⟩
          · rw [List.take_succ_cons, wireMasked, if_neg hoptional]
            exact Language.append_mem_mul (h g v hu) ha
          · rw [List.take_succ_cons, List.countP_cons_of_neg hoptional, List.getElem?_cons_succ]
            simp only [List.append_assoc, List.prefix_append_right_inj]
            exact hcases

theorem encodeElements_split {value : Node → Language UInt8} {L : Language UInt8}
    (h : ∀ v, value v ≤ L) {values : List Node} {w : List UInt8}
    (hw : w ∈ encodeElements value values) {i : Nat} {v : Node} (hget : values[i]? = some v) :
    ∃ a ∈ L ^ i, ∃ b ∈ value v, a ++ b <+: w := by
  induction values generalizing w i with
  | nil => cases hget
  | cons v' values ih =>
    obtain ⟨u, hu, rest, hrest, rfl⟩ := Language.mem_mul.mp hw
    cases i with
    | zero =>
      cases hget
      exact ⟨[], rfl, u, hu, List.prefix_append u rest⟩
    | succ i =>
      obtain ⟨a, ha, b, hb, hstart⟩ := ih hrest hget
      refine ⟨u ++ a, ?_, b, hb, ?_⟩
      · rw [pow_succ']
        exact Language.append_mem_mul (h v' hu) ha
      · rw [List.append_assoc]
        exact (List.prefix_append_right_inj u).mpr hstart

end Split

/-! ## Steps -/

section Steps

variable {types : TypeSet} {n : Nat} {buf : List UInt8} {pos : Nat}

theorem fieldOf_le (hn : n ≤ MAX_DEPTH) (f : Field) (v : Node) :
    encodeField (encodings types n) f v ≤ fieldOf types f :=
  encodeField_le (fun ty v => encodings_le_of_le hn ty v) f v

variable {d : StructDef} {f : Field} {p : Nat} {v : Node} {w : List UInt8}

/-- What comes of entering a structure: the encoding of the field is read next, or the field is
absent. -/
def Enters (types : TypeSet) (n : Nat) (d : StructDef) (f : Field) (p : Nat) (v : Node)
    (w buf : List UInt8) (pos : Nat) : Prop :=
  (∃ c, v.child p = some c ∧ ∃ a b, a ++ b <+: w ∧ b ∈ encodeField (encodings types n) f c ∧
    (enter types d f p buf pos).result = .ok ((), pos + a.length)) ∨
  (v.child p = none ∧ ∃ e, (enter types d f p buf pos).result = .error (.error e))

theorem enters_structure (hn : n ≤ MAX_DEPTH) (hkind : d.kind = .struct)
    (hget : d.fields[p]? = some f)
    (hw : w ∈ encodeStruct (encodeField (encodings types n)) d v) (hpos : pos ≤ buf.length)
    (hstart : w <+: buf.drop pos) : Enters types n d f p v w buf pos := by
  unfold encodeStruct at hw
  rw [hkind] at hw
  cases v with
  | record values =>
    obtain ⟨c, hc, a, ha, b, hb, hab⟩ := encodeAll_split (fieldOf_le hn) hw hget
    refine .inl ⟨c, ?_, a, b, hab, hb, ?_⟩
    · rw [Node.child, hc]
      rfl
    · apply (enter_meets hget).result hpos
      · rw [entered, hkind]
        exact ha
      · exact ((List.prefix_append a b).trans hab).trans hstart
  | scalar s => cases hw
  | unread => cases hw
  | union active => cases hw
  | array values => cases hw

/-- The fields before this one in a structure with optional fields. -/
theorem enters_optional (hn : n ≤ MAX_DEPTH) (hkind : d.kind = .optionalFields)
    (hget : d.fields[p]? = some f)
    (hw : w ∈ encodeStruct (encodeField (encodings types n)) d v) (hpos : pos ≤ buf.length)
    (hstart : w <+: buf.drop pos) : Enters types n d f p v w buf pos := by
  unfold encodeStruct at hw
  rw [hkind] at hw
  cases v with
  | record values =>
    obtain ⟨mask, hw⟩ := Language.mem_iSup.mp hw
    obtain ⟨m, hm, rest, hrest, rfl⟩ := Language.mem_mul.mp hw
    obtain ⟨a, ha, hapre, hcases⟩ := encodeMasked_split (fieldOf_le hn) hrest hget
    rcases hcases with ⟨c, hc, hbit, b, hb, hab⟩ | ⟨hc, hoptional, hbit, hmask⟩
    · refine .inl ⟨c, ?_, m ++ a, b, ?_, hb, ?_⟩
      · rw [Node.child, hc]
        rfl
      · rw [List.append_assoc]
        exact (List.prefix_append_right_inj m).mpr hab
      · apply (enter_meets hget).result hpos
        · rw [entered, hkind]
          refine Language.mem_iSup.mpr ⟨mask, Language.append_mem_mul hm ?_⟩
          rw [Nat.zero_add] at hbit
          exact Language.mem_mul.mpr ⟨a, ha, [], ⟨hbit, rfl⟩, List.append_nil a⟩
        · exact ((List.prefix_append_right_inj m).mpr hapre).trans hstart
    · -- the mask and the fields before are read, and the bit is not set
      refine .inr ⟨?_, s!"optional field \"{f.name}\" is absent", ?_⟩
      · rw [Node.child, hc]
        rfl
      · have hlt : p < d.fields.length := (List.getElem?_eq_some_iff.mp hget).1
        have hupTo : (upTo d.fields p : Reading String (List Field)) = pure (d.fields.take p) :=
          if_pos (Nat.le_of_lt hlt)
        have hm' := (List.prefix_append m rest).trans hstart
        have hmask' := (@u32_reads f.name).result hpos hm hm'
        have hle := prefix_length_le hm' hpos
        rw [prefix_of_append, List.drop_drop] at hstart
        have hskip := (masked_meets (@skipBefore_meets types) mask 0
          (d.fields.take p)).result hle ⟨rfl, ha⟩ (hapre.trans hstart.2)
        have hshift : (shiftOne (0 + (d.fields.take p).countP Field.isOptional) :
            Reading String UInt32) = pure _ := if_pos hbit
        unfold enter
        rw [hkind]
        simp only
        rw [result_bind hmask', hupTo, Reading.pure_bind, result_bind hskip, if_pos hoptional,
          hshift, Reading.pure_bind, if_pos (not_not.mp hmask)]
        rfl
  | scalar s => cases hw
  | unread => cases hw
  | union active => cases hw
  | array values => cases hw

theorem enter_other (hkind : d.kind = .union) {s : UInt32} {m rest : List UInt8}
    (hs : s.toNat ≠ p + 1) (hm : m ∈ four s) (hpos : pos ≤ buf.length)
    (hstart : m ++ rest <+: buf.drop pos) :
    ∃ e, (enter types d f p buf pos).result = .error (.error e) := by
  have hm' := (List.prefix_append m rest).trans hstart
  have hswitch := (@u32_reads f.name).result hpos hm hm'
  have hempty : ∀ _ : Unit, only (s.toNat ≤ d.fields.length ∧ s.toNat = p + 1) 1 = 0 :=
    fun _ => only_neg fun h => hs h.2
  unfold enter
  rw [hkind]
  simp only
  rw [result_bind hswitch]
  exact (union_reads d f p s).error hempty (prefix_length_le hm' hpos)

/-- In a union there are none. -/
theorem enters_union (hkind : d.kind = .union) (hget : d.fields[p]? = some f)
    (hw : w ∈ encodeStruct (encodeField (encodings types n)) d v) (hpos : pos ≤ buf.length)
    (hstart : w <+: buf.drop pos) : Enters types n d f p v w buf pos := by
  have hlt : p < d.fields.length := (List.getElem?_eq_some_iff.mp hget).1
  unfold encodeStruct at hw
  rw [hkind] at hw
  cases v with
  | union active =>
    rcases active with _ | ⟨active, c⟩
    · have hs : (0 : UInt32).toNat ≠ p + 1 := by
        rw [UInt32.toNat_zero]
        omega
      refine .inr ⟨rfl, enter_other hkind hs hw hpos (show _ ++ [] <+: _ from ?_)⟩
      rwa [List.append_nil]
    · obtain ⟨s, hw⟩ := Language.mem_iSup.mp hw
      obtain ⟨m, hm, u, ⟨hs, hu⟩, rfl⟩ := Language.mem_mul.mp hw
      obtain ⟨g, hg, hu⟩ := Language.mem_iSup.mp hu
      by_cases hactive : active = p
      · subst hactive
        obtain rfl := Option.some.inj (hg.symm.trans hget)
        refine .inl ⟨c, if_pos rfl, m, u, List.prefix_rfl, hu, ?_⟩
        apply (enter_meets hget).result hpos
        · rw [entered, hkind]
          refine Language.mem_iSup.mpr ⟨s, ?_⟩
          rw [only_pos ⟨by omega, hs⟩, mul_one]
          exact hm
        · exact (List.prefix_append m u).trans hstart
      · exact .inr ⟨if_neg hactive, enter_other hkind (by omega) hm hpos hstart⟩
  | record values => cases hw
  | scalar s => cases hw
  | unread => cases hw
  | array values => cases hw

/-- **Fields**: entering an encoded structure comes to the selected field. -/
theorem enters (hn : n ≤ MAX_DEPTH) (hget : d.fields[p]? = some f)
    (hw : w ∈ encodeStruct (encodeField (encodings types n)) d v) (hpos : pos ≤ buf.length)
    (hstart : w <+: buf.drop pos) : Enters types n d f p v w buf pos := by
  match hkind : d.kind with
  | .struct => exact enters_structure hn hkind hget hw hpos hstart
  | .optionalFields => exact enters_optional hn hkind hget hw hpos hstart
  | .union => exact enters_union hkind hget hw hpos hstart

/-- **Elements**: an encoded field comes to the selected element, or the index is out of range. -/
theorem element_item (hn : n ≤ MAX_DEPTH) {i : Option Nat} (harray : f.array = i.isSome)
    (hw : w ∈ encodeField (encodings types n) f v) (hpos : pos ≤ buf.length)
    (hstart : w <+: buf.drop pos) :
    (∃ c, v.item i = some c ∧ ∃ a b, a ++ b <+: w ∧ b ∈ encodings types n f.ty c ∧
      (element types f i buf pos).result = .ok ((), pos + a.length)) ∨
    (v.item i = none ∧ ∃ e, (element types f i buf pos).result = .error (.error e)) := by
  unfold encodeField at hw
  rw [harray] at hw
  cases i with
  | none => exact .inl ⟨v, rfl, [], w, List.prefix_rfl, hw, rfl⟩
  | some i =>
    cases v with
    -- the elements before the one asked for are skipped
    | array values =>
      obtain ⟨m, hm, u, hu, rfl⟩ := Language.mem_mul.mp hw
      cases hget : values[i]? with
      | some c =>
        have hlt : i < values.length := (List.getElem?_eq_some_iff.mp hget).1
        obtain ⟨a, ha, b, hb, hab⟩ :=
          encodeElements_split (fun v => encodings_le_of_le hn f.ty v) hu hget
        refine .inl ⟨c, hget, m ++ a, b, ?_, hb, ?_⟩
        · rw [List.append_assoc]
          exact (List.prefix_append_right_inj m).mpr hab
        · apply (elementAt_meets f (some i)).result hpos
          · refine Language.mem_iSup.mpr ⟨values.length, Language.append_mem_mul hm ?_⟩
            exact ⟨hlt, ha⟩
          · exact ((List.prefix_append_right_inj m).mpr ((List.prefix_append a b).trans hab)).trans
              hstart
      | none =>
        have hle : values.length ≤ i := List.getElem?_eq_none_iff.mp hget
        have hcount := (@len_reads f.name).result hpos hm
          ((List.prefix_append m u).trans hstart)
        refine .inr ⟨hget,
          s!"index {i} out of range for \"{f.name}\" (length {values.length})", ?_⟩
        rw [element, result_bind hcount, if_pos hle]
        rfl
    | scalar s => cases hw
    | unread => cases hw
    | record values => cases hw
    | union active => cases hw

/-- **Steps**: a step comes to what it selects, or there is an error. -/
theorem walk_item (hn : n ≤ MAX_DEPTH) {step : Step} (hfind : types.find step.key = some d)
    (hget : d.fields[step.field]? = some f) (harray : f.array = step.index.isSome)
    (hw : w ∈ encodings types (n + 1) (.struct step.key) v) (hpos : pos ≤ buf.length)
    (hstart : w <+: buf.drop pos) :
    (∃ c, (v.child step.field >>= fun c => c.item step.index) = some c ∧
      ∃ a b, a ++ b <+: w ∧ b ∈ encodings types n f.ty c ∧
        (walk types step buf pos).result = .ok (f, pos + a.length)) ∨
    ((v.child step.field >>= fun c => c.item step.index) = none ∧
      ∃ e, (walk types step buf pos).result = .error (.error e)) := by
  have hwalk : walk types step = (do
      enter types d f step.field
      element types f step.index
      pure f) := by
    rw [walk, TypeSet.get, hfind, ofExcept_ok, Reading.pure_bind, index, hget, Reading.pure_bind]
  rw [encodings, hfind, iSup_only_some] at hw
  rw [hwalk]
  rcases enters hn hget hw hpos hstart with ⟨c, hc, a, b, hab, hb, hok⟩ | ⟨hc, e, herr⟩
  · have hapre := ((List.prefix_append a b).trans hab).trans hstart
    have hle := prefix_length_le hapre hpos
    have hb' := (prefix_of_append.mp (hab.trans hstart)).2
    rw [List.drop_drop] at hb'
    rw [hc, result_bind hok]
    rcases element_item hn harray hb hle hb' with ⟨c', hc', a', b', hab', hb'', hok'⟩ |
      ⟨hc', e, herr⟩
    · refine .inl ⟨c', hc', a ++ a', b', ?_, hb'', ?_⟩
      · rw [List.append_assoc]
        exact ((List.prefix_append_right_inj a).mpr hab').trans hab
      · rw [result_bind hok', List.length_append, Nat.add_assoc]
        rfl
    · refine .inr ⟨hc', e, ?_⟩
      rw [result_bind_error herr]
  · refine .inr ⟨by rw [hc]; rfl, e, ?_⟩
    rw [result_bind_error herr]

end Steps

/-! ## Plans -/

section Plans

variable {types : TypeSet} {statusName : UInt32 → Option String} {namespaces : List String}

variable {key : String} {path : List Segment}

theorem select_cons {d : StructDef} {seg : Segment} {pos : Nat} {f : Field} {v : Node}
    (hfind : types.find key = some d) (hpos : d.position seg.name = some (f, pos)) :
    select types key (seg :: path) v =
      (v.child pos >>= fun c => c.item seg.index) >>= fun item =>
        match f.ty, path with
        | .struct next, _ :: _ => select types next path item
        | _, _ => item.toScalar := by
  rw [select, hfind, Option.bind_eq_bind, Option.bind_some, hpos]
  exact (Option.bind_assoc _ _ _).symm

/-- The value of a leaf is a scalar. -/
theorem scalar_of_leaf {n : Nat} {ty : FieldType} {leaf : Leaf} {v : Node} {w : List UInt8}
    (hleaf : ty.leaf = some leaf) (haccepted : accepted leaf ≠ [])
    (hw : w ∈ encodings types n ty v) : ∃ s, v.toScalar = some s ∧ w ∈ scalarWire leaf s := by
  cases ty with
  | struct key => cases hleaf
  | enum name =>
    have hw : w ∈ encodeLeaf n (.enum name) v := by cases n <;> exact hw
    cases hleaf
    cases v with
    | scalar s => exact ⟨s, rfl, hw⟩
    | unread => cases hw
    | record values => cases hw
    | union active => cases hw
    | array values => cases hw
  | builtin b =>
    have hw : w ∈ encodeLeaf n (.builtin b) v := by cases n <;> exact hw
    cases hleaf
    cases v with
    | scalar s => exact ⟨s, rfl, hw⟩
    | unread => exact absurd hw.1 haccepted
    | record values => cases hw
    | union active => cases hw
    | array values => cases hw

theorem follows_path_ne_nil {steps : List Step} {leaf : Leaf}
    (h : Follows types key path steps leaf) : path ≠ [] := by
  cases h with
  | leaf => exact List.cons_ne_nil _ _
  | step => exact List.cons_ne_nil _ _

/-- Walking the path finds what it selects, or fails where that is absent. -/
theorem decodeSteps_selects {plan : Plan} {steps : List Step} {leaf : Leaf}
    (h : Follows types key path steps leaf) (hleaf : plan.leaf = leaf)
    (haccepted : accepted leaf ≠ []) {n : Nat} (hn : n ≤ MAX_DEPTH + 1) {v : Node}
    {w buf : List UInt8} {pos : Nat} (hw : w ∈ encodings types n (.struct key) v)
    (hpos : pos ≤ buf.length) (hstart : w <+: buf.drop pos) :
    (∃ s p, select types key path v = some s ∧
      (decodeSteps statusName types namespaces plan steps buf pos).result =
        (render statusName plan.datatype namespaces s).map fun out => (out, p)) ∨
    (select types key path v = none ∧
      ∃ e, (decodeSteps statusName types namespaces plan steps buf pos).result =
        .error (.error e)) := by
  -- along the path: `n` levels of structures are left below the value
  induction h generalizing n v w pos with
  | @leaf key d seg p f leaf hfind hseg harray hty =>
    subst hleaf
    cases n with
    | zero => cases hw
    | succ n =>
      rw [select_cons hfind hseg, decodeSteps]
      rcases walk_item (Nat.le_of_succ_le_succ hn)
        (show types.find (⟨key, p, seg.index⟩ : Step).key = some _ from hfind)
        (position_spec hseg) harray hw hpos hstart with ⟨c, hc, a, b, hab, hb, hok⟩ | ⟨hc, e, herr⟩
      · obtain ⟨s, hs, hb⟩ := scalar_of_leaf hty haccepted hb
        have hle := prefix_length_le (((List.prefix_append a b).trans hab).trans hstart) hpos
        have hb' := (prefix_of_append.mp (hab.trans hstart)).2
        rw [List.drop_drop] at hb'
        have hscalar := (@scalar_reads f.name plan.leaf).result hle hb hb'
        refine .inl ⟨s, pos + a.length + b.length, ?_, ?_⟩
        · rw [hc, Option.bind_eq_bind, Option.bind_some]
          cases hfty : f.ty with
          | struct next =>
            rw [hfty] at hty
            cases hty
          | builtin b => exact hs
          | enum name => exact hs
        · rw [result_bind hok, result_bind hscalar]
          cases render statusName plan.datatype namespaces s with
          | ok out => rfl
          | error e => rfl
      · refine .inr ⟨by rw [hc]; rfl, e, ?_⟩
        rw [result_bind_error herr]
  | @step key d seg p f next path steps leaf hfind hseg harray hnext hrest ih =>
    cases n with
    | zero => cases hw
    | succ n =>
      rw [select_cons hfind hseg, decodeSteps_cons (follows_ne_nil hrest)]
      rcases walk_item (Nat.le_of_succ_le_succ hn)
        (show types.find (⟨key, p, seg.index⟩ : Step).key = some _ from hfind)
        (position_spec hseg) harray hw hpos hstart with ⟨c, hc, a, b, hab, hb, hok⟩ | ⟨hc, e, herr⟩
      · have hle := prefix_length_le (((List.prefix_append a b).trans hab).trans hstart) hpos
        have hb' := (prefix_of_append.mp (hab.trans hstart)).2
        rw [List.drop_drop] at hb'
        rw [hnext] at hb
        obtain ⟨seg', path', rfl⟩ := List.exists_cons_of_ne_nil (follows_path_ne_nil hrest)
        rw [hc, Option.bind_eq_bind, Option.bind_some, hnext, result_bind hok]
        exact ih hleaf haccepted (Nat.le_of_succ_le hn) hb hle hb'
      · refine .inr ⟨by rw [hc]; rfl, e, ?_⟩
        rw [result_bind_error herr]

/-- What decoding an encoded value should come to: the rendering of what the path selects, or an
error where that is absent. -/
def Selects (statusName : UInt32 → Option String) (namespaces : List String) (dt : DataType)
    (selected : Option Scalar) (result : Except (Fault String) (Value × List UInt8)) : Prop :=
  match selected with
  | some s => ∃ out, render statusName dt namespaces s = .ok out ∧ result = .ok out
  | none => ∃ e, result = .error (.error e)

/-- **Selection**: an encoded value, with any bytes after it, is decoded to the rendering of what the
path selects, or to an error where that is absent, unless it is the least Int64. -/
theorem decode_selects_iff {plan : Plan} {root : String} {path : List Segment} {dt : DataType}
    (h : compile types root path dt = .ok plan) {n : Nat} (hn : n ≤ MAX_DEPTH + 1) {v : Node}
    {w : List UInt8} (hw : w ∈ encodings types n (.struct root) v) (trailing : List UInt8)
    (statusName : UInt32 → Option String) (namespaces : List String) :
    Selects statusName namespaces dt (select types root path v)
        (decode statusName types namespaces plan (w ++ trailing)).result ↔
      select types root path v ≠ some (.i64 Int64.minValue) := by
  obtain ⟨hfollows, hdt, haccepted⟩ := compile_spec h
  have hstart : w <+: (w ++ trailing).drop 0 := List.prefix_append w trailing
  rw [decode, run, Traced.result_bind]
  rcases @decodeSteps_selects types statusName namespaces _ _ _ _ _ hfollows rfl
    (List.ne_nil_of_mem haccepted) _ hn _ _ _ _ hw (Nat.zero_le _) hstart with
    ⟨s, p, hs, hresult⟩ | ⟨hnone, e, hresult⟩
  · rw [hs, hresult, hdt]
    constructor
    · rintro ⟨out, hrender, -⟩ hmin
      rw [Option.some.inj hmin, render_minValue] at hrender
      cases hrender
    · intro hne
      obtain ⟨out, hrender⟩ : ∃ out, render statusName dt namespaces s = .ok out :=
        render_ok fun h => hne (congrArg some h)
      refine ⟨out, hrender, ?_⟩
      rw [hrender]
      rfl
  · rw [hnone, hresult]
    constructor
    · intro _ h
      cases h
    · intro _
      exact ⟨e, rfl⟩

/-- The pump "P1" without a note, with the limits 0..7 and -5..120. -/
def pump : Node :=
  .record [some (.scalar (.text (some "P1"))), none,
    some (.array [.record [some (.scalar (.i16 0)), some (.scalar (.i16 7))],
      .record [some (.scalar (.i16 (-5))), some (.scalar (.i16 120))]])]

def pumpBytes : List UInt8 :=
  [0, 0, 0, 0] ++ ([2, 0, 0, 0, 0x50, 0x31] ++ ([2, 0, 0, 0] ++ [0, 0, 7, 0, 0xFB, 0xFF, 120, 0]))

theorem mem_encodings_limit (low high : UInt16) :
    toLeBytes 2 low.toNat ++ toLeBytes 2 high.toNat ∈ encodings pumpTypes 1 (.struct "limit")
      (.record [some (.scalar (.i16 low.toInt16)), some (.scalar (.i16 high.toInt16))]) := by
  refine Language.mem_iSup.mpr ⟨limitDef, rfl, ?_⟩
  refine Language.append_mem_mul ⟨low, rfl, rfl⟩ ?_
  exact Language.mem_mul.mpr ⟨_, ⟨high, rfl, rfl⟩, [], rfl, List.append_nil _⟩

theorem mem_encodings_pump : pumpBytes ∈ encodings pumpTypes 2 (.struct "pump") pump := by
  refine Language.mem_iSup.mpr ⟨pumpDef, rfl, ?_⟩
  refine Language.mem_iSup.mpr ⟨0, Language.append_mem_mul rfl ?_⟩
  -- the name, nothing for the note, and the limits
  refine Language.append_mem_mul ⟨some "P1", rfl, by decide, by decide⟩
    ⟨⟨rfl, by decide, by decide⟩, ?_⟩
  refine Language.mem_mul.mpr ⟨_, ?_, [], rfl, List.append_nil _⟩
  refine Language.append_mem_mul (.inl ⟨by decide, rfl⟩) ?_
  refine Language.mem_mul.mpr ⟨[0, 0, 7, 0], mem_encodings_limit 0 7, [0xFB, 0xFF, 120, 0], ?_, rfl⟩
  exact Language.mem_mul.mpr ⟨_, mem_encodings_limit 0xFFFB 120, [], rfl, rfl⟩

/-- The upper bound of the second limit, and the note that the pump does not have. -/
theorem decode_selects_iff_pump :
    Selects (fun _ => none) [] .int16 (some (.i16 120))
        (decode (fun _ => none) pumpTypes []
          { steps := [⟨"pump", 2, some 1⟩, ⟨"limit", 1, none⟩], leaf := .builtin .int16,
            datatype := .int16 } (pumpBytes ++ [7])).result ∧
      Selects (fun _ => none) [] .string none
        (decode (fun _ => none) pumpTypes []
          { steps := [⟨"pump", 1, none⟩], leaf := .builtin .string, datatype := .string }
          (pumpBytes ++ [7])).result :=
  ⟨(decode_selects_iff
      (show compile pumpTypes "pump" [⟨"Limits", some 1⟩, ⟨"High", none⟩] .int16 = .ok _ from rfl)
      (by decide) mem_encodings_pump [7] (fun _ => none) []).mpr (by decide),
    (decode_selects_iff
      (show compile pumpTypes "pump" [⟨"Note", none⟩] .string = .ok _ from rfl)
      (by decide) mem_encodings_pump [7] (fun _ => none) []).mpr (by decide)⟩

/-- A structure with a field of a type. -/
def single (ty : FieldType) : TypeSet :=
  { structs := [("k", { name := "K", kind := .struct, fields := [⟨"a", ty, false, false⟩] })] }

/-- The least Int64 has no rendering. -/
theorem decode_minValue : ∃ plan v w,
    compile (single (.builtin .int64)) "k" [⟨"a", none⟩] .int64 = .ok plan ∧
    w ∈ encodings (single (.builtin .int64)) 1 (.struct "k") v ∧
    ¬ Selects (fun _ => none) [] .int64 (select (single (.builtin .int64)) "k" [⟨"a", none⟩] v)
      (decode (fun _ => none) (single (.builtin .int64)) [] plan (w ++ [])).result := by
  have hbytes : toLeBytes 8 (2 ^ 63) = toLeBytes 8 Int64.minValue.toUInt64.toNat := by decide
  have hw : toLeBytes 8 (2 ^ 63) ∈ scalarWire (.builtin .int64) (.i64 Int64.minValue) :=
    scalarWire_i64.mpr ⟨rfl, hbytes⟩
  refine ⟨{ steps := [⟨"k", 0, none⟩], leaf := .builtin .int64, datatype := .int64 },
    .record [some (.scalar (.i64 Int64.minValue))], toLeBytes 8 (2 ^ 63), rfl, ?_, ?_⟩
  · refine Language.mem_iSup.mpr ⟨_, rfl, ?_⟩
    exact Language.mem_mul.mpr ⟨_, hw, [], rfl, List.append_nil _⟩
  · rintro ⟨out, hrender, -⟩
    rw [render_minValue] at hrender
    cases hrender

end Plans

end TedgeDot.Opcua
