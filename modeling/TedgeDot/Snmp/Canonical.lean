import TedgeDot.Lib.Decimal
import TedgeDot.Lib.MinimalBytes
import TedgeDot.Lib.Septets
import TedgeDot.Snmp.Notification

/-!
# Canonical octets

`value.rs`: object identifiers as text and as content octets, and the content octets of integers.

- `octets_canonical`: the octets of a value are the fewest that say it, and are read as it.
-/

namespace TedgeDot.Snmp

open Septets MinimalBytes

/-! ## Object identifiers -/

/-- The parts of a text between its points, as arcs. -/
def parseParts (text : String) : List (List Char) → Except String Oid
  | [] => .ok []
  | part :: parts =>
    if part = [] ∨ part.all Char.isDigit = false then
      .error s!"'{text}' is not a dotted-decimal OID"
    else if 2 ^ 32 ≤ Nat.ofDigitChars 10 part 0 then
      .error s!"OID '{text}' has an arc larger than 32 bits"
    else do
      let arcs ← parseParts text parts
      return UInt32.ofNat (Nat.ofDigitChars 10 part 0) :: arcs

/-- `text.strip_prefix('.').unwrap_or(text)`. -/
def stripPoint : List Char → List Char
  | '.' :: rest => rest
  | text => text

/-- `Oid::parse`. -/
def parseOid (text : String) : Except String Oid := do
  let arcs ← parseParts text ((stripPoint text.toList).splitOn '.')
  if arcs.length < 2 then .error s!"OID '{text}' needs at least two arcs"
  else if MAX_ARCS < arcs.length then .error s!"OID '{text}' has more than {MAX_ARCS} arcs"
  else
    let first := arcs.getD 0 0
    if 2 < first then .error s!"OID '{text}' must start with 0, 1 or 2"
    else if (if first = 2 then 4294967295 - 80 else 39) < arcs.getD 1 0 then
      .error s!"OID '{text}' has a second arc out of range"
    else .ok arcs

def startsWith (oid pre : Oid) : Bool := pre.isPrefixOf oid

/-- The chunk of `push_subid`, as its loop fills it: the low septet first, with ten places. -/
def fillChunk : Nat → Nat → UInt64 → List UInt8
  | 0, _, _ => []
  | room + 1, n, value =>
    let octet := (value &&& 0x7F).toUInt8 ||| (if 0 < n then 0x80 else 0)
    if value >>> 7 = 0 then [octet] else octet :: fillChunk room (n + 1) (value >>> 7)

/-- A sub-identifier that has ended, in `from_ber`. -/
def pushArc (subids : List UInt32) (arc : Nat) : Except String (List UInt32) :=
  if MAX_ARCS ≤ subids.length then .error "OID has too many arcs"
  else .ok (subids ++ [UInt32.ofNat arc])

def arcsOf (subids : List UInt32) : Oid :=
  let first := subids.getD 0 0
  (if first ≤ 39 then [0, first] else if first ≤ 79 then [1, first - 40] else [2, first - 80]) ++
    subids.drop 1

def fromBer (content : List UInt8) : Except String Oid :=
  if content = [] then .error "empty OID"
  else do
    let subids ← fold pushArc 4294967295 "OID arc larger than 32 bits" [] 0 content
    if (content.getLast?.map continues).getD false then .error "truncated OID"
    else if MAX_ARCS < (arcsOf subids).length then .error "OID has too many arcs"
    else .ok (arcsOf subids)

/-! ## Integers -/

def encodeInteger (value : Int64) : List UInt8 := trim (toBeBytes 8 value.toUInt64.toNat)

def encodeUnsigned (value : UInt64) : List UInt8 := trimUnsigned (toBeBytes 8 value.toNat)

/-! ## Sub-identifiers -/

theorem toNat_lowSeptet (value : UInt64) : ((value &&& 0x7F).toUInt8).toNat = value.toNat % 128 := by
  have hmask : (0x7F : UInt64).toNat = 2 ^ 7 - 1 := rfl
  rw [UInt64.toNat_toUInt8, UInt64.toNat_and, hmask, Nat.and_two_pow_sub_one_eq_mod]
  omega

theorem toNat_shiftSeptet (value : UInt64) : (value >>> 7).toNat = value.toNat / 128 := by
  rw [UInt64.toNat_shiftRight]
  exact Nat.shiftRight_eq_div_pow _ _

theorem toNat_setTop : ∀ b : UInt8, b.toNat < 128 → (b ||| 0x80).toNat = b.toNat + 128 := by
  have h : ∀ v : BitVec 8, v.toNat < 128 → (v ||| 0x80#8).toNat = v.toNat + 128 := by
    decide +kernel
  exact fun b => h b.toBitVec

theorem chunkOctet (n : Nat) (value : UInt64) :
    (value &&& 0x7F).toUInt8 ||| (if 0 < n then 0x80 else 0) =
      UInt8.ofNat (value.toNat % 128 + if 0 < n then 128 else 0) := by
  have hlow := toNat_lowSeptet value
  have hlt : value.toNat % 128 < 128 := Nat.mod_lt _ (by omega)
  apply UInt8.toNat_inj.mp
  by_cases hn : 0 < n
  · rw [if_pos hn, if_pos hn, toNat_setTop _ (hlow ▸ hlt), hlow, UInt8.toNat_ofNat']
    omega
  · rw [if_neg hn, if_neg hn, UInt8.or_zero, hlow, UInt8.toNat_ofNat']
    omega

/-- The loop writes the septets, last one first. -/
theorem fillChunk_septets (room n : Nat) (value : UInt64) (h : value.toNat < 128 ^ (room + 1)) :
    (fillChunk (room + 1) n value).reverse =
      more (Nat.digits 128 (value.toNat / 128)).reverse ++
        [UInt8.ofNat (value.toNat % 128 + if 0 < n then 128 else 0)] := by
  induction room generalizing n value with
  | zero =>
    have hzero : value >>> 7 = 0 := by
      apply UInt64.toNat_inj.mp
      rw [toNat_shiftSeptet]
      show value.toNat / 128 = 0
      omega
    have hdiv : value.toNat / 128 = 0 := by omega
    rw [fillChunk, if_pos hzero, chunkOctet, hdiv]
    rfl
  | succ room ih =>
    rw [fillChunk]
    simp only [chunkOctet]
    -- the value fits in the septet, or goes on above it
    by_cases hzero : value >>> 7 = 0
    · have hdiv : value.toNat / 128 = 0 := by
        rw [← toNat_shiftSeptet, hzero]
        rfl
      rw [if_pos hzero, hdiv]
      rfl
    · have hpos : 0 < value.toNat / 128 := by
        rw [← toNat_shiftSeptet]
        apply Nat.pos_of_ne_zero
        exact fun hz => hzero (UInt64.toNat_inj.mp hz)
      have hroom : (value >>> 7).toNat < 128 ^ (room + 1) := by
        rw [toNat_shiftSeptet]
        apply (Nat.div_lt_iff_lt_mul (by omega)).mpr
        rwa [← Nat.pow_succ]
      rw [if_neg hzero, List.reverse_cons, ih (n + 1) _ hroom, toNat_shiftSeptet,
        if_pos (Nat.succ_pos n), Nat.digits_def' (by omega) hpos, List.reverse_cons, more, more,
        List.map_append]
      rfl

theorem pushSubid_eq (n : Nat) : pushSubid n = septets n := by
  rcases Nat.eq_zero_or_pos n with rfl | hpos
  · rfl
  · have hdigits : (Nat.digits 128 n).reverse = (Nat.digits 128 (n / 128)).reverse ++ [n % 128] := by
      rw [Nat.digits_def' (by omega) hpos, List.reverse_cons]
    have hne : ((Nat.digits 128 (n / 128)).reverse ++ [n % 128]).isEmpty = false := by simp
    unfold pushSubid
    simp only [hdigits, hne, Bool.false_eq_true, if_false, List.dropLast_concat,
      List.getLast?_concat]
    rfl

/-- The octets that `push_subid` appends for a 64-bit value, which its chunk has room for. -/
theorem pushSubid_fillChunk (value : UInt64) :
    (fillChunk 10 0 value).reverse = pushSubid value.toNat := by
  have hroom : value.toNat < 128 ^ (9 + 1) := value.toNat_lt.trans (by decide)
  rw [fillChunk_septets 9 0 value hroom, pushSubid_eq]
  rfl

/-- The sub-identifiers of an object identifier: its first two arcs share one. -/
def subids : Oid → List Nat
  | a :: b :: rest => (a.toNat * 40 + b.toNat) :: rest.map UInt32.toNat
  | _ => []

/-- What `parseOid` accepts. -/
def WellFormed : Oid → Prop
  | a :: b :: rest => (a.toNat ≤ 1 ∧ b.toNat ≤ 39 ∨ a.toNat = 2 ∧ b.toNat ≤ 4294967295 - 80) ∧
      rest.length + 2 ≤ MAX_ARCS
  | _ => False

variable {oid : Oid}

theorem exists_of_wellFormed (h : WellFormed oid) :
    ∃ a b rest, oid = a :: b :: rest ∧
      (a.toNat ≤ 1 ∧ b.toNat ≤ 39 ∨ a.toNat = 2 ∧ b.toNat ≤ 4294967295 - 80) ∧
        rest.length + 2 ≤ MAX_ARCS := by
  match oid, h with
  | a :: b :: rest, h => exact ⟨a, b, rest, rfl, h⟩

theorem encodeOid_eq (h : WellFormed oid) : encodeOid oid = (subids oid).flatMap septets := by
  obtain ⟨a, b, rest, rfl, -⟩ := exists_of_wellFormed h
  simp only [encodeOid, subids, List.getD_cons_zero, List.getD_cons_succ, List.drop_succ_cons,
    List.drop_zero, List.flatMap_cons, List.flatMap_map, pushSubid_eq]

/-! ## Reading octets -/

theorem pushArcs_ok {ns : List Nat} {s s' : List UInt32} (h : ns.foldlM pushArc s = .ok s') :
    s' = s ++ ns.map UInt32.ofNat := by
  induction ns generalizing s with
  | nil =>
    cases h
    simp
  | cons n ns ih =>
    rw [List.foldlM_cons, pushArc] at h
    split at h
    · cases h
    · rw [ih h]
      simp

theorem pushArcs {ns : List Nat} {s : List UInt32} (h : s.length + ns.length ≤ MAX_ARCS) :
    ns.foldlM pushArc s = .ok (s ++ ns.map UInt32.ofNat) := by
  induction ns generalizing s with
  | nil =>
    rw [List.map_nil, List.append_nil]
    rfl
  | cons n ns ih =>
    simp only [List.length_cons] at h
    rw [List.foldlM_cons, pushArc, if_neg (by omega)]
    refine (ih ?_).trans ?_
    · rw [List.length_append, List.length_singleton]
      omega
    · simp

/-- The first number of an encoding gives two arcs. -/
theorem firstArcs (n : UInt32) :
    ∃ a b : UInt32, (if n ≤ 39 then [0, n] else if n ≤ 79 then [1, n - 40] else [2, n - 80]) = [a, b] ∧
      a.toNat * 40 + b.toNat = n.toNat ∧
      (a.toNat ≤ 1 ∧ b.toNat ≤ 39 ∨ a.toNat = 2 ∧ b.toNat ≤ 4294967295 - 80) := by
  have hlt := n.toNat_lt
  have h39 : n ≤ 39 ↔ n.toNat ≤ 39 := UInt32.le_iff_toNat_le
  have h79 : n ≤ 79 ↔ n.toNat ≤ 79 := UInt32.le_iff_toNat_le
  split
  · rename_i h
    exact ⟨0, n, rfl, by simp, .inl ⟨by simp, h39.mp h⟩⟩
  · rename_i h
    rw [h39] at h
    split
    · rename_i h'
      rw [h79] at h'
      have hsub : (n - 40).toNat = n.toNat - 40 :=
        UInt32.toNat_sub_of_le _ _ (UInt32.le_iff_toNat_le.mpr (show 40 ≤ n.toNat by omega))
      refine ⟨1, n - 40, rfl, ?_, .inl ⟨by simp, by omega⟩⟩
      rw [hsub, UInt32.toNat_one]
      omega
    · rename_i h'
      rw [h79] at h'
      have hsub : (n - 80).toNat = n.toNat - 80 :=
        UInt32.toNat_sub_of_le _ _ (UInt32.le_iff_toNat_le.mpr (show 80 ≤ n.toNat by omega))
      have htwo : (2 : UInt32).toNat = 2 := rfl
      refine ⟨2, n - 80, rfl, ?_, .inr ⟨htwo, by omega⟩⟩
      rw [hsub, htwo]
      omega

theorem firstArcs_unique {a b c d : Nat} (h : a * 40 + b = c * 40 + d)
    (hab : a ≤ 1 ∧ b ≤ 39 ∨ a = 2) (hcd : c ≤ 1 ∧ d ≤ 39 ∨ c = 2) : a = c ∧ b = d := by
  omega

theorem subids_ne_nil (h : WellFormed oid) : subids oid ≠ [] := by
  obtain ⟨a, b, rest, rfl, -⟩ := exists_of_wellFormed h
  exact List.cons_ne_nil _ _

theorem subids_le (h : WellFormed oid) : ∀ n ∈ subids oid, n ≤ 4294967295 := by
  obtain ⟨a, b, rest, rfl, hfirst, -⟩ := exists_of_wellFormed h
  intro n hn
  rcases List.mem_cons.mp hn with rfl | hn
  · omega
  · obtain ⟨arc, -, rfl⟩ := List.mem_map.mp hn
    have hlt := arc.toNat_lt
    omega

theorem length_subids (h : WellFormed oid) : (subids oid).length ≤ MAX_ARCS := by
  obtain ⟨a, b, rest, rfl, -, hlen⟩ := exists_of_wellFormed h
  simp only [subids, List.length_cons, List.length_map]
  omega

theorem arcsOf_spec {ids : List UInt32} (hne : ids ≠ []) :
    subids (arcsOf ids) = ids.map UInt32.toNat ∧
      ((arcsOf ids).length ≤ MAX_ARCS → WellFormed (arcsOf ids)) := by
  obtain ⟨n, rest, rfl⟩ := List.exists_cons_of_ne_nil hne
  obtain ⟨a, b, hfirst, hsum, hwell⟩ := firstArcs n
  have harcs : arcsOf (n :: rest) = a :: b :: rest := by
    simp only [arcsOf, List.getD_cons_zero, hfirst, List.drop_succ_cons, List.drop_zero]
    rfl
  rw [harcs]
  refine ⟨?_, fun hlen => ⟨hwell, hlen⟩⟩
  rw [subids, hsum, List.map_cons]

theorem arcsOf_subids (h : WellFormed oid) : arcsOf ((subids oid).map UInt32.ofNat) = oid := by
  obtain ⟨a, b, rest, rfl, hfirst, -⟩ := exists_of_wellFormed h
  set n := UInt32.ofNat (a.toNat * 40 + b.toNat) with hn
  have hvalue : n.toNat = a.toNat * 40 + b.toNat := by
    rw [hn, UInt32.toNat_ofNat']
    omega
  obtain ⟨c, d, harcs, hsum, hwell⟩ := firstArcs n
  obtain ⟨hac, hbd⟩ := firstArcs_unique (hsum.trans hvalue) (by omega) (by omega)
  have hrest : (rest.map UInt32.toNat).map UInt32.ofNat = rest := by
    simp [Function.comp_def]
  simp only [subids, List.map_cons, ← hn, arcsOf, List.getD_cons_zero, harcs, List.drop_succ_cons,
    List.drop_zero, hrest, UInt32.toNat_inj.mp hac, UInt32.toNat_inj.mp hbd]
  rfl

/-- Which contents are read as an OID. -/
theorem fromBer_iff (content : List UInt8) (oid : Oid) :
    fromBer content = .ok oid ↔ WellFormed oid ∧ Reads content (subids oid) := by
  constructor
  · intro h
    unfold fromBer at h
    split at h
    · cases h
    rename_i hne
    cases hfold : fold pushArc 4294967295 "OID arc larger than 32 bits" [] 0 content with
    | error e =>
      rw [hfold] at h
      cases h
    | ok ids =>
      rw [hfold] at h
      have h : (if (content.getLast?.map continues).getD false then .error "truncated OID"
        else if MAX_ARCS < (arcsOf ids).length then .error "OID has too many arcs"
        else .ok (arcsOf ids)) = (.ok oid : Except String Oid) := h
      split at h
      · cases h
      rename_i hends
      split at h
      · cases h
      rename_i hlen
      cases h
      obtain ⟨init, last, rfl⟩ := (List.eq_nil_or_concat content).resolve_left hne
      rw [List.concat_eq_append] at hfold hends ⊢
      have hlast : continues last = false := by
        simpa using hends
      obtain ⟨ns, hreads, hpush, hns⟩ := @reads_of_fold _ _ _ _ _ _ [] _ _ (by simp) hfold
        ⟨last, List.getLast?_concat, hlast⟩
      have hids := pushArcs_ok hpush
      rw [List.nil_append] at hids
      have hnsne : ns ≠ [] := by
        rintro rfl
        simpa using hreads.eq_nil
      have hback : (ns.map UInt32.ofNat).map UInt32.toNat = ns := by
        rw [List.map_map]
        refine (List.map_congr_left fun n hn => ?_).trans (List.map_id ns)
        show (UInt32.ofNat n).toNat = n
        have hle := hns n hn
        rw [UInt32.toNat_ofNat']
        omega
      obtain ⟨hsubids, hwell⟩ := @arcsOf_spec ids (by simpa [hids] using hnsne)
      refine ⟨hwell (Nat.not_lt.mp hlen), ?_⟩
      rw [hsubids, hids, hback]
      exact hreads
  · rintro ⟨hwell, hreads⟩
    -- the content ends with its last number
    obtain ⟨last, hlast, hends⟩ := hreads.ends (subids_ne_nil hwell)
    have hne : content ≠ [] := by
      rintro rfl
      cases hlast
    have hfold : fold pushArc 4294967295 "OID arc larger than 32 bits" [] 0 content =
        .ok ((subids oid).map UInt32.ofNat) := by
      rw [fold_reads hreads (subids_le hwell), pushArcs (by simpa using length_subids hwell),
        List.nil_append]
    have hlen : ¬ MAX_ARCS < oid.length := by
      obtain ⟨a, b, rest, rfl, -, hlen⟩ := exists_of_wellFormed hwell
      exact Nat.not_lt.mpr hlen
    rw [fromBer, if_neg hne, hfold]
    show (if (content.getLast?.map continues).getD false then Except.error "truncated OID"
      else if MAX_ARCS < (arcsOf _).length then Except.error "OID has too many arcs"
      else Except.ok (arcsOf _)) = _
    rw [arcsOf_subids hwell, if_neg (by simp [hlast, hends]), if_neg hlen]

/-! ## Texts -/

theorem parts_dotted (h : oid ≠ []) :
    (dotted oid).toList.splitOn '.' = oid.map fun arc => Nat.toDigits 10 arc.toNat := by
  have htext : (dotted oid).toList =
      ['.'].intercalate (oid.map fun arc => Nat.toDigits 10 arc.toNat) := by
    rw [dotted, String.toList_intercalate, List.map_map]
    simp [Function.comp_def]
  rw [htext]
  apply List.splitOn_intercalate
  · intro l hl hmem
    obtain ⟨arc, -, rfl⟩ := List.mem_map.mp hl
    exact absurd (Nat.isDigit_of_mem_toDigits (by decide) (by decide) hmem) (by decide)
  · simpa using h

theorem stripPoint_dotted (h : oid ≠ []) :
    stripPoint (dotted oid).toList = (dotted oid).toList := by
  have hparts := parts_dotted h
  generalize (dotted oid).toList = text at hparts ⊢
  unfold stripPoint
  split
  · -- a point in front would leave an empty part
    rename_i rest
    have hempty := @List.splitOn_append_cons_self_of_not_mem _ [] _ _ (Char.ofNat 46) (by simp) rest
    rw [List.nil_append] at hempty
    rw [hempty] at hparts
    obtain ⟨arc, rest, rfl⟩ := List.exists_cons_of_ne_nil h
    exact absurd (List.cons.inj hparts).1.symm Nat.toDigits_ne_nil
  · rfl

theorem parseParts_digits (text : String) (oid : Oid) :
    parseParts text (oid.map fun arc => Nat.toDigits 10 arc.toNat) = .ok oid := by
  induction oid with
  | nil => rfl
  | cons arc oid ih =>
    have hall : (Nat.toDigits 10 arc.toNat).all Char.isDigit = true :=
      List.all_eq_true.mpr fun c hc => Nat.isDigit_of_mem_toDigits (by decide) (by decide) hc
    have hlt := arc.toNat_lt
    rw [List.map_cons, parseParts, if_neg (by simp [Nat.toDigits_ne_nil, hall]),
      Nat.ofDigitChars_ten_toDigits, if_neg (by omega), ih]
    simp

/-- Which arcs are accepted. -/
theorem parseOid_checks {text : String} {arcs oid : Oid}
    (hparts : parseParts text ((stripPoint text.toList).splitOn '.') = .ok arcs) :
    parseOid text = .ok oid ↔ arcs = oid ∧ WellFormed arcs := by
  -- the checks of the parser, one by one
  have hcheck : parseOid text =
      (if arcs.length < 2 then Except.error s!"OID '{text}' needs at least two arcs"
      else if MAX_ARCS < arcs.length then
        Except.error s!"OID '{text}' has more than {MAX_ARCS} arcs"
      else if 2 < arcs.getD 0 0 then Except.error s!"OID '{text}' must start with 0, 1 or 2"
      else if (if arcs.getD 0 0 = 2 then 4294967295 - 80 else 39) < arcs.getD 1 0 then
        Except.error s!"OID '{text}' has a second arc out of range"
      else Except.ok arcs) := by
    unfold parseOid
    rw [hparts]
    rfl
  rw [hcheck]
  match arcs with
  | [] | [_] => simp [WellFormed]
  | a :: b :: rest =>
    have htwo : a = 2 ↔ a.toNat = 2 := UInt32.toNat_inj.symm
    have hlow : b.toNat ≤ 39 ↔ ¬ 39 < b := by
      rw [UInt32.lt_iff_toNat_lt]
      exact Nat.not_lt.symm
    have hhigh : b.toNat ≤ 4294967295 - 80 ↔ ¬ (4294967295 - 80 : UInt32) < b := by
      rw [UInt32.lt_iff_toNat_lt]
      exact Nat.not_lt.symm
    have hfirst : 2 < a ↔ 2 < a.toNat := UInt32.lt_iff_toNat_lt
    have hwell : WellFormed (a :: b :: rest) ↔ ¬ MAX_ARCS < (a :: b :: rest).length ∧ ¬ 2 < a ∧
        ¬ (if a = 2 then 4294967295 - 80 else 39) < b := by
      change (a.toNat ≤ 1 ∧ b.toNat ≤ 39 ∨ a.toNat = 2 ∧ b.toNat ≤ 4294967295 - 80) ∧
        rest.length + 2 ≤ MAX_ARCS ↔ _
      simp only [List.length_cons, hfirst]
      by_cases ha : a.toNat = 2
      · rw [if_pos (htwo.mpr ha), ← hhigh]
        omega
      · rw [if_neg (mt htwo.mp ha), ← hlow]
        omega
    rw [hwell, if_neg (show ¬ (a :: b :: rest).length < 2 by simp)]
    simp only [List.getD_cons_zero, List.getD_cons_succ]
    by_cases h1 : MAX_ARCS < (a :: b :: rest).length
    · rw [if_pos h1]
      exact iff_of_false (fun h => by cases h) fun h => h.2.1 h1
    by_cases h2 : 2 < a
    · rw [if_neg h1, if_pos h2]
      exact iff_of_false (fun h => by cases h) fun h => h.2.2.1 h2
    by_cases h3 : (if a = 2 then 4294967295 - 80 else 39) < b
    · rw [if_neg h1, if_neg h2, if_pos h3]
      exact iff_of_false (fun h => by cases h) fun h => h.2.2.2 h3
    · rw [if_neg h1, if_neg h2, if_neg h3, Except.ok.injEq]
      exact (and_iff_left ⟨h1, h2, h3⟩).symm

theorem parseOid_wellFormed {text : String} (h : parseOid text = .ok oid) : WellFormed oid := by
  cases hparts : parseParts text ((stripPoint text.toList).splitOn '.') with
  | error e =>
    unfold parseOid at h
    rw [hparts] at h
    cases h
  | ok arcs =>
    obtain ⟨rfl, hwell⟩ := (parseOid_checks hparts).mp h
    exact hwell

theorem parseOid_dotted (h : WellFormed oid) : parseOid (dotted oid) = .ok oid := by
  have hne : oid ≠ [] := by
    rintro rfl
    exact h
  have hparts := parseParts_digits (dotted oid) oid
  rw [← parts_dotted hne, ← stripPoint_dotted hne] at hparts
  exact (parseOid_checks hparts).mpr ⟨rfl, h⟩

/-! ## Octets of values -/

theorem shortest_encodeOid (h : WellFormed oid) :
    Shortest (fun content => fromBer content = .ok oid) (encodeOid oid) := by
  simp only [fromBer_iff, encodeOid_eq h]
  refine ⟨⟨h, reads_septets _⟩, fun content hcontent => ?_⟩
  exact hcontent.2.fewest

theorem shortest_encodeInteger (value : Int64) :
    Shortest (fun c => c ≠ [] ∧ signed c = value.toInt) (encodeInteger value) := by
  have hlt := value.toUInt64.toNat_lt
  have hvalue : signed (toBeBytes 8 value.toUInt64.toNat) = value.toInt := by
    have hint : value.toInt = value.toUInt64.toBitVec.toInt := rfl
    have hcond := BitVec.toInt_eq_toNat_cond value.toUInt64.toBitVec
    have hnat : value.toUInt64.toBitVec.toNat = value.toUInt64.toNat := rfl
    rw [signed_toBeBytes hlt, hint, hcond, hnat]
    split <;> split <;> omega
  rw [← hvalue]
  exact shortest_trim (by simp [toBeBytes])

theorem shortest_encodeUnsigned (value : UInt64) :
    Shortest (fun c => c ≠ [] ∧ signed c = value.toNat) (encodeUnsigned value) := by
  have hne : toBeBytes 8 value.toNat ≠ [] := by simp [toBeBytes]
  have hvalue : signed (0 :: toBeBytes 8 value.toNat) = value.toNat := by
    have hlt : value.toNat < 256 ^ 8 := value.toNat_lt
    rw [signed_zero_cons, fromBeBytes_toBeBytes, Nat.mod_eq_of_lt hlt]
  rw [encodeUnsigned, trimUnsigned_eq hne, ← hvalue]
  exact shortest_trim (List.cons_ne_nil _ _)

theorem encodeInteger_eq_iff (v : Int64) (u : UInt64) :
    encodeInteger v = encodeUnsigned u ↔ v.toInt = u.toNat := by
  have hv := shortest_encodeInteger v
  have hu := shortest_encodeUnsigned u
  constructor
  · intro h
    rw [← hv.1.2, ← hu.1.2, h]
  · intro h
    rw [h] at hv
    exact hv.unique hu

/-- An object identifier that `parseOid` accepts is what its octets and its text are read as, and its
octets are the fewest; the octets made for what `fromBer` accepts are the fewest that are read as
that; one object identifier starts with another exactly when it is beneath it; and the octets of
an integer are the fewest that write it, whichever way it is held. -/
theorem octets_canonical :
    (∀ text oid, parseOid text = .ok oid →
      fromBer (encodeOid oid) = .ok oid ∧ parseOid (dotted oid) = .ok oid ∧
        Shortest (fun content => fromBer content = .ok oid) (encodeOid oid)) ∧
    (∀ content oid, fromBer content = .ok oid →
      Shortest (fun content' => fromBer content' = .ok oid) (encodeOid oid)) ∧
    (∀ oid pre, startsWith oid pre = true ↔ ∃ rest, oid = pre ++ rest) ∧
    (∀ v : Int64, Shortest (fun c => c ≠ [] ∧ signed c = v.toInt) (encodeInteger v)) ∧
    (∀ u : UInt64, Shortest (fun c => c ≠ [] ∧ signed c = u.toNat) (encodeUnsigned u)) ∧
    (∀ (v : Int64) (u : UInt64), encodeInteger v = encodeUnsigned u ↔ v.toInt = u.toNat) := by
  refine ⟨?_, ?_, ?_, shortest_encodeInteger, shortest_encodeUnsigned, encodeInteger_eq_iff⟩
  · intro text oid h
    have hwell := parseOid_wellFormed h
    exact ⟨(shortest_encodeOid hwell).1, parseOid_dotted hwell, shortest_encodeOid hwell⟩
  · intro content oid h
    exact shortest_encodeOid ((fromBer_iff content oid).mp h).1
  · intro oid pre
    rw [startsWith, List.isPrefixOf_iff_prefix]
    exact exists_congr fun rest => eq_comm

end TedgeDot.Snmp
