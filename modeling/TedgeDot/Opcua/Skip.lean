import TedgeDot.Opcua.Wire

/-!
# Skipping takes one encoded value

Every reader of a built-in type takes the encodings of that type and nothing else
(`skipBuiltin_reads`), and every reader of a type of the definitions those of that type
(`skipValue_meets`).
-/

namespace TedgeDot.Opcua

open Reading

variable {ctx : String}

/-! ## Numbers, runs and texts -/

theorem mapped_le {α : Type} {f : Nat → α} {toNat : α → Nat} {count : Nat}
    (hlt : ∀ v, toNat v < 256 ^ count) (hf : ∀ v, f (toNat v) = v)
    (hto : ∀ n, n < 256 ^ count → toNat (f n) = n) (v : α) :
    mapped (fun bytes => f (fromLeBytes bytes)) (ofLength count) v =
      {toLeBytes count (toNat v)} := by
  ext w
  constructor
  · rintro ⟨bytes, rfl, rfl, rfl⟩
    show w = _
    rw [hto _ (fromLeBytes_lt w), toLeBytes_fromLeBytes]
  · intro hw
    obtain rfl : w = toLeBytes count (toNat v) := hw
    refine ⟨_, ?_, rfl, length_toLeBytes _ _⟩
    show f (fromLeBytes (toLeBytes count (toNat v))) = v
    rw [fromLeBytes_toLeBytes, Nat.mod_eq_of_lt (hlt v), hf]

theorem u8_reads : Reads (u8 ctx) one := Reads.byte _

theorem u16_reads : Reads (u16 ctx) two :=
  ((Reads.array _ 2).map _).of_eq (mapped_le UInt16.toNat_lt (fun v => by simp)
    fun n hn => UInt16.toNat_ofNat_of_lt' hn)

theorem u32_reads : Reads (u32 ctx) four :=
  ((Reads.array _ 4).map _).of_eq (mapped_le UInt32.toNat_lt (fun v => by simp)
    fun n hn => UInt32.toNat_ofNat_of_lt' hn)

theorem u64_reads : Reads (u64 ctx) eight :=
  ((Reads.array _ 8).map _).of_eq (mapped_le UInt64.toNat_lt (fun v => by simp)
    fun n hn => UInt64.toNat_ofNat_of_lt' hn)

theorem mapped_inv {α β : Type} {f : α → β} {g : β → α} (hfg : ∀ b, f (g b) = b)
    (hgf : ∀ a, g (f a) = a) (G : α → Language UInt8) (b : β) : mapped f G b = G (g b) := by
  ext w
  constructor
  · rintro ⟨a, rfl, hw⟩
    rwa [hgf]
  · intro hw
    exact ⟨g b, hfg b, hw⟩

theorem i32_reads : Reads (i32 ctx) (fun v => four v.toUInt32) :=
  (u32_reads.map _).of_eq (mapped_inv (fun v => by simp) (fun v => by simp) four)

theorem i64_reads : Reads (i64 ctx) (fun v => eight v.toUInt64) :=
  (u64_reads.map _).of_eq (mapped_inv (fun v => by simp) (fun v => by simp) eight)

theorem take_reads (n : Nat) : Reads (drop (take ctx n)) (fun _ => fixed n) := by
  apply (Reads.take _ n).drop.of_eq
  intro _
  ext w
  rw [Language.mem_iSup]
  exact ⟨fun ⟨_, _, hw⟩ => hw, fun hw => ⟨w, rfl, hw⟩⟩

theorem toNat_of_nonneg {n : Int32} (h : ¬ n < 0) :
    n.toUInt32.toNat = n.toInt.toNat ∧ n.toInt.toNat < 2 ^ 31 := by
  have hle : 0 ≤ n := Int32.not_lt.mp h
  have hlt := n.toInt_lt
  refine ⟨Int32.toNat_toUInt32_of_le hle, ?_⟩
  omega

/-- A length before the content; -1 stands for null. -/
theorem prefixed_reads {α : Type} {null : α} {e : Int32 → String} {x : Nat → Reading String α}
    {H : Nat → α → Language UInt8} (hx : ∀ k, Reads (x k) (H k)) :
    Reads (do
      let n ← i32 ctx
      if n = -1 then pure null
      else if n < 0 then throw (e n)
      else x n.toInt.toNat)
      (fun a => only (a = null) {toLeBytes 4 (2 ^ 32 - 1)} +
        ⨆ k, only (k < 2 ^ 31) ({toLeBytes 4 k} * H k a)) := by
  have hbody := fun n : Int32 => Reads.ite (c := n = -1) (fun _ => Reads.value null)
    fun _ => Reads.ite (c := n < 0) (fun _ => Reads.failure (e n))
      fun _ => hx n.toInt.toNat
  apply (i32_reads.bind hbody).of_eq
  intro a
  ext w
  rw [Language.mem_iSup, Language.mem_add, Language.mem_iSup]
  constructor
  · rintro ⟨n, hw⟩
    -- -1 is the null, any other negative length an error
    by_cases hnull : n = -1
    · rw [choice_pos hnull] at hw
      obtain ⟨u, hu, v, ⟨ha, rfl⟩, rfl⟩ := Language.mem_mul.mp hw
      subst hnull
      rw [List.append_nil]
      exact .inl ⟨ha, hu⟩
    · rw [choice_neg hnull] at hw
      by_cases hneg : n < 0
      · rw [choice_pos hneg, mul_zero] at hw
        exact absurd hw (Language.notMem_zero w)
      · obtain ⟨hnat, hlt⟩ := toNat_of_nonneg hneg
        rw [choice_neg hneg] at hw
        refine .inr ⟨n.toInt.toNat, hlt, ?_⟩
        rwa [four, hnat] at hw
  · rintro (⟨ha, hw⟩ | ⟨k, hk, hw⟩)
    · refine ⟨-1, ?_⟩
      rw [choice_pos rfl]
      exact Language.mem_mul.mpr ⟨w, hw, [], ⟨ha, rfl⟩, List.append_nil w⟩
    · have hint : (Int32.ofNat k).toInt = k := by
        rw [Int32.toInt_ofNat_of_lt hk]
      have hneg : ¬ Int32.ofNat k < 0 := by
        rw [Int32.lt_iff_toInt_lt, hint, Int32.toInt_zero]
        omega
      have hnull : Int32.ofNat k ≠ -1 := by
        intro heq
        rw [heq] at hint
        have : ((-1 : Int32).toInt) = -1 := by decide
        omega
      obtain ⟨hnat, -⟩ := toNat_of_nonneg hneg
      refine ⟨Int32.ofNat k, ?_⟩
      rw [choice_neg hnull, choice_neg hneg, four, hnat, hint, Int.toNat_natCast]
      exact hw

theorem len_reads : Reads (len ctx) lengthPrefix := by
  apply (prefixed_reads fun k => Reads.value k).of_eq
  intro n
  ext w
  rw [Language.mem_add, Language.mem_iSup]
  constructor
  · rintro (⟨hn, hw⟩ | ⟨k, hk, hw⟩)
    · exact .inr ⟨hn, hw⟩
    · obtain ⟨u, hu, v, ⟨rfl, rfl⟩, rfl⟩ := Language.mem_mul.mp hw
      rw [List.append_nil]
      exact .inl ⟨hk, hu⟩
  · rintro (⟨hlt, hw⟩ | ⟨hn, hw⟩)
    · exact .inr ⟨n, hlt, Language.mem_mul.mpr ⟨w, hw, [], ⟨rfl, rfl⟩, List.append_nil w⟩⟩
    · exact .inl ⟨hn, hw⟩

/-- A byte string. -/
theorem bytes_reads : Reads (bytes ctx) runOf := by
  have hrun : ∀ k, Reads (do let run ← take ctx k; pure (some run)) (mapped some (ofLength k)) :=
    fun k => (Reads.take _ k).map some
  apply (prefixed_reads hrun).of_eq
  intro run
  ext w
  rw [Language.mem_add, Language.mem_iSup]
  constructor
  · rintro (⟨rfl, hw⟩ | ⟨k, hk, hw⟩)
    · exact hw
    · obtain ⟨u, rfl, v, ⟨_, rfl, rfl, rfl⟩, rfl⟩ := Language.mem_mul.mp hw
      exact ⟨hk, rfl⟩
  · intro hw
    cases run with
    | none => exact .inl ⟨rfl, hw⟩
    | some run =>
      obtain ⟨hlt, rfl⟩ := hw
      exact .inr ⟨run.length, hlt, Language.append_mem_mul rfl ⟨run, rfl, rfl, rfl⟩⟩

theorem run_reads : Reads (drop (bytes ctx)) (fun _ => anyRun) := bytes_reads.drop

/-- A text, which has to be UTF-8. -/
theorem string_reads : Reads (string ctx) textOf := by
  -- a text is its bytes if decoding and encoding gives them back
  have hutf8 : ∀ run, Reads (utf8 ctx run) (fun s => choice (Utf8.encode (Utf8.fromUtf8Lossy run) =
    run)
      (only (s = some (Utf8.fromUtf8Lossy run)) 1) 0) :=
    fun run => Reads.ite (fun _ => Reads.value _) fun _ => Reads.failure _
  have hstring : string ctx = bytes ctx >>= fun run => run.elim (pure none) (utf8 ctx) := by
    unfold string
    congr 1
    funext run
    cases run <;> rfl
  have hbody : ∀ run : Option (List UInt8), Reads (run.elim (pure none) (utf8 ctx))
      (fun s => only (run = s.map Utf8.encode) 1) := by
    intro run
    cases run with
    | none =>
      apply (Reads.value none).of_eq
      intro s
      ext w
      apply and_congr_left'
      cases s <;> simp
    | some run =>
      apply (hutf8 run).of_eq
      intro s
      ext w
      by_cases hvalid : Utf8.encode (Utf8.fromUtf8Lossy run) = run
      · rw [choice_pos hvalid]
        apply and_congr_left'
        constructor
        · rintro rfl
          exact congrArg some hvalid.symm
        · intro heq
          obtain ⟨t, rfl, ht⟩ := Option.map_eq_some_iff.mp heq.symm
          rw [← ht, Utf8.fromUtf8Lossy_encode]
      · rw [choice_neg hvalid]
        constructor
        · intro hw
          exact absurd hw (Language.notMem_zero w)
        · rintro ⟨heq, -⟩
          obtain ⟨t, rfl, rfl⟩ := Option.map_eq_some_iff.mp heq.symm
          rw [Utf8.fromUtf8Lossy_encode] at hvalid
          exact absurd rfl hvalid
  rw [hstring]
  apply (bytes_reads.bind hbody).of_eq
  intro s
  ext w
  rw [Language.mem_iSup]
  constructor
  · rintro ⟨run, hw⟩
    obtain ⟨u, hu, v, ⟨rfl, rfl⟩, rfl⟩ := Language.mem_mul.mp hw
    rw [List.append_nil]
    exact hu
  · intro hw
    exact ⟨_, Language.mem_mul.mpr ⟨w, hw, [], ⟨rfl, rfl⟩, List.append_nil w⟩⟩

/-! ## Node ids -/

theorem nodeIdBody_reads (enc : UInt8) : Reads (nodeIdBody ctx enc) (nodeIdForm enc) := by
  unfold nodeIdBody nodeIdForm
  generalize (enc &&& 0x3F).toNat = form
  match form with
  | 0 => exact u8_reads.map _
  | 1 => exact u8_reads.pair u16_reads _
  | 2 => exact u16_reads.pair u32_reads _
  | 3 => exact u16_reads.pair string_reads _
  | 4 => exact u16_reads.pair (Reads.array _ 16) _
  | 5 => exact u16_reads.pair bytes_reads _
  | _ + 6 => exact Reads.failure _

theorem nodeId_reads : Reads (nodeId ctx) nodeIdOf := by
  have hform : ∀ enc : UInt8, Reads
      (if enc &&& 0xC0 ≠ 0 then throw (badEncoding ctx "NodeId" enc) else nodeIdBody ctx enc)
      (fun id => only (enc &&& 0xC0 = 0) (nodeIdForm enc id)) := by
    intro enc
    apply (Reads.ite (fun _ => Reads.failure _) fun _ => nodeIdBody_reads enc).of_eq
    intro id
    ext w
    by_cases hflags : enc &&& 0xC0 ≠ 0
    · rw [choice_pos hflags]
      exact ⟨fun hw => absurd hw (Language.notMem_zero w), fun hw => absurd hw.1 hflags⟩
    · rw [choice_neg hflags]
      exact ⟨fun hw => ⟨not_not.mp hflags, hw⟩, fun hw => hw.2⟩
  exact u8_reads.bind hform

theorem valueIfGiven_reads {α : Type} {mask bit : UInt8} {x : Reading String α}
    {G : α → Language UInt8} (hx : Reads x G) (default : α) :
    Reads (given mask bit x default) (valueIfGiven mask bit G default) :=
  Reads.ite (fun _ => hx) fun _ => Reads.value default

theorem expandedNodeId_reads : Reads (expandedNodeId ctx) expandedNodeIdOf :=
  u8_reads.bind fun enc => (nodeIdBody_reads enc).bind fun node =>
    (valueIfGiven_reads string_reads none).pair (valueIfGiven_reads u32_reads 0)
      (Scalar.expandedNodeId node)

/-! ## Leaves -/

variable {x : Reading String Unit} {L : Language UInt8}

theorem ifGiven_reads {mask bit : UInt8} (hx : Reads x (fun _ => L)) :
    Reads (given mask bit x ()) (fun _ => ifGiven mask bit L) :=
  Reads.ite (fun _ => hx) fun _ => Reads.done

/-- Every scalar that a leaf may have. -/
theorem scalar_reads (leaf : Leaf) : Reads (scalar ctx leaf) (scalarWire leaf) := by
  cases leaf with
  | enum name => exact i32_reads.map _
  | builtin b =>
    cases b with
    | boolean => exact u8_reads.map _
    | sByte => exact u8_reads.map _
    | byte => exact u8_reads.map _
    | int16 => exact u16_reads.map _
    | uint16 => exact u16_reads.map _
    | int32 => exact i32_reads.map _
    | uint32 => exact u32_reads.map _
    | int64 => exact i64_reads.map _
    | uint64 => exact u64_reads.map _
    | float => exact u32_reads.map _
    | double => exact u64_reads.map _
    | string => exact string_reads.map _
    | dateTime => exact i64_reads.map _
    | guid => exact (Reads.array _ 16).map _
    | byteString => exact bytes_reads.map _
    | statusCode => exact u32_reads.map _
    | nodeId => exact nodeId_reads.map _
    | expandedNodeId => exact expandedNodeId_reads
    | qualifiedName => exact u16_reads.pair string_reads _
    | localizedText =>
      exact u8_reads.bind fun mask => (ifGiven_reads string_reads.drop).seq
        ((valueIfGiven_reads string_reads none).map _)
    | xmlElement => exact Reads.failure _
    | extensionObject => exact Reads.failure _
    | dataValue => exact Reads.failure _
    | variant => exact Reads.failure _
    | diagnosticInfo => exact Reads.failure _

/-! ## Built-in types -/

theorem nil_notMem_mul {L M : Language UInt8} (h : [] ∉ L) : [] ∉ L * M := by
  intro hw
  obtain ⟨u, hu, v, -, huv⟩ := Language.mem_mul.mp hw
  obtain ⟨rfl, -⟩ := List.append_eq_nil_iff.mp huv
  exact h hu

theorem nil_notMem_iSup {ι : Type} {L : ι → Language UInt8} (h : ∀ i, [] ∉ L i) :
    [] ∉ ⨆ i, L i := by
  rw [Language.mem_iSup]
  rintro ⟨i, hi⟩
  exact h i hi

theorem nil_notMem_one (v : UInt8) : [] ∉ one v := fun h => nomatch (show [] = [v] from h)

theorem nil_notMem_runOf (run : Option (List UInt8)) : [] ∉ runOf run := by
  intro h
  cases run with
  | none => exact absurd (congrArg List.length (show [] = _ from h)) (by simp)
  | some run =>
    have hlen := congrArg List.length h.2
    rw [List.length_append, length_toLeBytes] at hlen
    exact absurd hlen (by simp only [List.length_nil]; omega)

/-- No value is encoded by nothing. -/
theorem nil_notMem_wire (n : Nat) (b : Builtin) : [] ∉ wire n b := by
  have hfixed : ∀ k, 0 < k → [] ∉ fixed k := by
    intro k hk h
    have : 0 = k := h
    omega
  have hnode : [] ∉ ⨆ id, nodeIdOf id :=
    nil_notMem_iSup fun _ => nil_notMem_iSup fun enc => nil_notMem_mul (nil_notMem_one enc)
  -- an error carries no encoding; what may nest is left to `nested`
  have hflat : [] ∉ flat b := by
    cases b with
    | string => exact nil_notMem_iSup nil_notMem_runOf
    | byteString => exact nil_notMem_iSup nil_notMem_runOf
    | xmlElement => exact nil_notMem_iSup nil_notMem_runOf
    | nodeId => exact hnode
    | extensionObject => exact nil_notMem_mul hnode
    | expandedNodeId =>
      exact nil_notMem_iSup fun _ => nil_notMem_iSup fun enc => nil_notMem_mul (nil_notMem_one enc)
    | qualifiedName => exact nil_notMem_mul (hfixed 2 (by decide))
    | localizedText => exact nil_notMem_iSup fun mask => nil_notMem_mul (nil_notMem_one mask)
    | dataValue => exact Language.notMem_zero []
    | variant => exact Language.notMem_zero []
    | diagnosticInfo => exact Language.notMem_zero []
    | _ => exact hfixed _ (by decide)
  have hnested : ∀ below, [] ∉ nested below b := by
    intro below
    cases b with
    | dataValue => exact nil_notMem_iSup fun mask => nil_notMem_mul (nil_notMem_one mask)
    | variant => exact nil_notMem_iSup fun mask => nil_notMem_mul (nil_notMem_one mask)
    | diagnosticInfo => exact nil_notMem_iSup fun mask => nil_notMem_mul (nil_notMem_one mask)
    | _ => exact Language.notMem_zero []
  cases n with
  | zero => exact hflat
  | succ n =>
    rw [wire, Language.mem_add]
    rintro (h | h)
    · exact hflat h
    · exact hnested _ h

theorem loop_each (hx : Reads x (fun _ => L)) (hnil : [] ∉ L) (count : Nat) :
    Reads (loop count (each x)) (fun _ => L ^ count) := by
  have hround : Reads (each x) (fun more => L * only (more = true) 1) :=
    hx.seq (Reads.value true)
  have htrue : L * only (true = true) 1 = L := by
    rw [only_pos rfl, mul_one]
  have hfalse : L * only (false = true) 1 = 0 := by
    rw [only_neg Bool.false_ne_true, mul_zero]
  apply (hround.loop (by rwa [htrue]) count).congr
  · intro _ w
    rw [roundsRead_of_all hfalse, htrue]
  · intro w
    rw [roundsPanic_zero]

theorem array_reads (hx : Reads x (fun _ => L)) (hnil : [] ∉ L) :
    Reads (skipArray ctx x) (fun _ => arrayOf L) :=
  len_reads.bind fun count => loop_each hx hnil count

section Builtins

variable {frames depth : Nat} {below : Builtin → Language UInt8}

/-- Skipping a value with nothing nested in it. -/
theorem skipBuiltin_flat {b : Builtin} (hdata : b ≠ .dataValue) (hvariant : b ≠ .variant)
    (hinfo : b ≠ .diagnosticInfo) :
    Reads (skipBuiltin ctx (frames + 1) depth b) (fun _ => flat b) := by
  cases b with
  | boolean => exact take_reads 1
  | sByte => exact take_reads 1
  | byte => exact take_reads 1
  | int16 => exact take_reads 2
  | uint16 => exact take_reads 2
  | int32 => exact take_reads 4
  | uint32 => exact take_reads 4
  | float => exact take_reads 4
  | statusCode => exact take_reads 4
  | int64 => exact take_reads 8
  | uint64 => exact take_reads 8
  | double => exact take_reads 8
  | dateTime => exact take_reads 8
  | guid => exact take_reads 16
  | string => exact run_reads
  | byteString => exact run_reads
  | xmlElement => exact run_reads
  | nodeId => exact nodeId_reads.drop
  | expandedNodeId => exact expandedNodeId_reads.drop
  | qualifiedName => exact (take_reads 2).seq run_reads
  | localizedText =>
    exact u8_reads.bind fun mask => (ifGiven_reads run_reads).seq (ifGiven_reads run_reads)
  | extensionObject =>
    exact nodeId_reads.drop.seq (u8_reads.bind fun enc => Reads.ite (fun _ => Reads.done) fun _ =>
      Reads.ite (fun _ => run_reads) fun _ => Reads.failure _)
  | dataValue => exact absurd rfl hdata
  | variant => exact absurd rfl hvariant
  | diagnosticInfo => exact absurd rfl hinfo

theorem deeper_of_lt (h : depth < MAX_DEPTH) : deeper ctx depth = pure (depth + 1) :=
  if_neg (Nat.not_le.mpr h)

/-- A variant: its value, or an array of them. -/
theorem skipVariant_reads (h : depth < MAX_DEPTH)
    (hbelow : ∀ b, Reads (skipBuiltin ctx frames (depth + 1) b) (fun _ => below b))
    (hnil : ∀ b, [] ∉ below b) :
    Reads (skipBuiltin ctx (frames + 1) depth .variant) (fun _ => nested below .variant) := by
  have hfour : [] ∉ fixed 4 := fun hw => absurd (show 0 = 4 from hw) (by decide)
  rw [skipBuiltin, deeper_of_lt h, Reading.pure_bind]
  apply u8_reads.bind
  intro mask
  apply Reads.ite
  · intro _
    exact Reads.done
  · intro _
    cases Builtin.fromId (mask &&& 0x3F).toNat with
    | none =>
      apply (Reads.failure _).of_eq
      intro _
      exact iSup_only_none.symm
    | some inner =>
      apply (Reads.ite (c := mask &&& 0x80 ≠ 0)
        (fun _ => (array_reads (hbelow inner) (hnil inner)).seq
          (ifGiven_reads (array_reads (take_reads 4) hfour)))
        fun _ => hbelow inner).of_eq
      intro _
      exact (iSup_only_some (a := inner) (L := fun b => variantOf mask (below b))).symm

theorem skipNested_reads (h : depth < MAX_DEPTH) {b : Builtin}
    (hbelow : ∀ b, Reads (skipBuiltin ctx frames (depth + 1) b) (fun _ => below b))
    (hnil : ∀ b, [] ∉ below b) (hb : b = .dataValue ∨ b = .variant ∨ b = .diagnosticInfo) :
    Reads (skipBuiltin ctx (frames + 1) depth b) (fun _ => nested below b) := by
  rcases hb with rfl | rfl | rfl
  · rw [skipBuiltin, deeper_of_lt h, Reading.pure_bind]
    exact u8_reads.bind fun mask => (ifGiven_reads (hbelow _)).seq
      ((ifGiven_reads (take_reads 4)).seq ((ifGiven_reads (take_reads 8)).seq
        ((ifGiven_reads (take_reads 2)).seq ((ifGiven_reads (take_reads 8)).seq
          (ifGiven_reads (take_reads 2))))))
  · exact skipVariant_reads h hbelow hnil
  · rw [skipBuiltin, deeper_of_lt h, Reading.pure_bind]
    exact u8_reads.bind fun mask => (ifGiven_reads (take_reads 4)).seq
      ((ifGiven_reads (take_reads 4)).seq ((ifGiven_reads (take_reads 4)).seq
        ((ifGiven_reads (take_reads 4)).seq ((ifGiven_reads run_reads).seq
          ((ifGiven_reads (take_reads 4)).seq (ifGiven_reads (hbelow _)))))))

/-- **Built-in types**: skipping takes exactly the encoded values that are nested within the depth
that is left. -/
theorem skipBuiltin_reads {n : Nat} (hdepth : depth + n = MAX_DEPTH) (hframes : n < frames)
    (b : Builtin) : Reads (skipBuiltin ctx frames depth b) (fun _ => wire n b) := by
  induction n generalizing frames depth b with
  | zero =>
    obtain ⟨frames, rfl⟩ := Nat.exists_eq_add_of_lt hframes
    have hdeep : deeper ctx depth = throw s!"nesting too deep while reading \"{ctx}\"" :=
      if_pos (Nat.le_of_eq hdepth.symm)
    rw [Nat.zero_add, wire]
    by_cases hnest : b = .dataValue ∨ b = .variant ∨ b = .diagnosticInfo
    · rcases hnest with rfl | rfl | rfl
      all_goals
        rw [skipBuiltin, hdeep, throw_bind]
        exact Reads.failure _
    · rw [not_or, not_or] at hnest
      exact skipBuiltin_flat hnest.1 hnest.2.1 hnest.2.2
  | succ n ih =>
    obtain ⟨frames, rfl⟩ := Nat.exists_eq_add_of_lt (Nat.lt_of_le_of_lt (Nat.zero_le _) hframes)
    rw [Nat.zero_add] at hframes ⊢
    have hbelow := fun b => @ih frames (depth + 1) (by omega) (by omega) b
    rw [wire]
    by_cases hnest : b = .dataValue ∨ b = .variant ∨ b = .diagnosticInfo
    · have hflat : flat b = 0 := by rcases hnest with rfl | rfl | rfl <;> rfl
      rw [hflat, zero_add]
      exact skipNested_reads (by omega) hbelow (nil_notMem_wire n) hnest
    · rw [not_or, not_or] at hnest
      have hnested : nested (wire n) b = 0 := by
        cases b <;> first | rfl | exact absurd rfl hnest.1 | exact absurd rfl hnest.2.1 |
          exact absurd rfl hnest.2.2
      rw [hnested, add_zero]
      exact skipBuiltin_flat hnest.1 hnest.2.1 hnest.2.2

end Builtins

end TedgeDot.Opcua
