import Mathlib.Algebra.GroupWithZero.Nat
import TedgeDot.Profibus.Frames

/-!
# What the PROFIBUS frame scanner finds

The frames of the link are defined here by themselves, and the reference scan of a stream by them.

- `scanner_exact_iff`: over which streams, cut in which way, the scanner returns the frames of the
  reference and waits only for frames that can still become valid; and which requests the scanner
  takes apart as they were built.
-/

namespace TedgeDot.Profibus

open Framing

/-! ## Valid frames -/

/-- The checksum of a telegram, over the bytes from its addresses to the end of its data. -/
def checksum (body : List UInt8) : UInt8 := UInt8.ofNat (body.map UInt8.toNat).sum

/-- The bytes of a valid frame. -/
inductive IsFrame : List UInt8 → Frame → Prop where
  | sc : IsFrame [0xE5] scFrame
  | sd1 (da sa fc : UInt8) :
      IsFrame [0x10, da, sa, fc, checksum [da, sa, fc], 0x16] (sd1Frame da sa fc)
  | sd2 {le : UInt8} (da sa fc : UInt8) (data : List UInt8) : le.toNat = 3 + data.length →
      IsFrame (0x68 :: le :: le :: 0x68 :: da :: sa :: fc ::
          (data ++ [checksum (da :: sa :: fc :: data), 0x16]))
        (sd2Frame da sa fc (data ++ [checksum (da :: sa :: fc :: data), 0x16]))

theorem toNat_sumBytes (p : List UInt8) (s : UInt32) :
    (p.foldl (fun (s : UInt32) (b : UInt8) => s + b.toUInt32) s).toNat =
      (s.toNat + (p.map UInt8.toNat).sum) % 2 ^ 32 := by
  induction p generalizing s with
  | nil => simp [Nat.mod_eq_of_lt s.toNat_lt]
  | cons b p ih =>
    rw [List.foldl_cons, ih, UInt32.toNat_add, UInt8.toNat_toUInt32, List.map_cons, List.sum_cons]
    omega

theorem pbFcs_eq (p : List UInt8) : pbFcs p = checksum p := by
  apply UInt8.toNat_inj.mp
  have hsum := toNat_sumBytes p 0
  have hmask : (255 : Nat) = 2 ^ 8 - 1 := rfl
  rw [pbFcs, UInt32.toNat_toUInt8, UInt32.toNat_and, hsum]
  rw [show (0xFF : UInt32).toNat = 2 ^ 8 - 1 from rfl, Nat.and_two_pow_sub_one_eq_mod]
  simp only [checksum, UInt8.toNat_ofNat', UInt32.toNat_zero]
  omega

/-- The scan follows the frame format. -/
theorem lawful : Lawful head IsFrame where
  inhabited := ⟨_, _, .sc⟩
  nonempty h := by cases h <;> simp
  total sd rest := by
    obtain ⟨v, hv⟩ := exists_shape sd rest
    exact ⟨v, head_of_shape hv⟩
  accepts rest h := by
    cases h with
    | sc => exact head_of_shape (.sc rest)
    | sd1 da sa fc => exact head_of_shape (.sd1 rest (pbFcs_eq _))
    | sd2 da sa fc data hle =>
      have hshape := head_of_shape (.sd2 rest hle (pbFcs_eq (da :: sa :: fc :: data)))
      simp only [List.cons_append, List.append_assoc, List.nil_append] at hshape ⊢
      refine hshape.trans ?_
      simp only [List.length_cons, List.length_append, List.length_nil, hle, Option.some.injEq,
        Verdict.found.injEq]
      exact ⟨rfl, by omega⟩
  -- each shape of a frame is one branch of the parser
  sound h := by
    rename_i buf f used
    cases buf with
    | nil => simp [head] at h
    | cons sd rest =>
      have hshape := shape_of_head h
      cases hshape with
      | sc rest => exact ⟨[pbSc], rest, rfl, rfl, .sc⟩
      | @sd1 da sa fc fcs rest hfcs =>
        rw [pbFcs_eq] at hfcs
        subst hfcs
        exact ⟨_, rest, rfl, rfl, .sd1 da sa fc⟩
      | @sd2 le da sa fc fcs data rest hle hfcs =>
        rw [pbFcs_eq] at hfcs
        subst hfcs
        refine ⟨_, rest, ?_, ?_, .sd2 da sa fc data hle⟩
        · simp [pbSd2, pbEd]
        · simp only [List.length_cons, List.length_append, List.length_nil, hle]
          omega
  keeps more h := by
    rename_i buf
    cases buf with
    | nil => simp [head] at h
    | cons sd rest =>
      have hshape := shape_of_head h
      apply head_of_shape
      cases hshape with
      | sd1Bad rest hbad => exact .sd1Bad (rest ++ more) hbad
      | headerBad rest hbad => exact .headerBad (rest ++ more) hbad
      | sd2Bad rest hle hbad =>
        simp only [List.cons_append, List.append_assoc]
        exact .sd2Bad (rest ++ more) hle hbad
      | other rest hsc hsd1 hsd2 => exact .other (rest ++ more) hsc hsd1 hsd2

/-! ## Bytes that hold the scanner back -/

/-- Bytes from a start delimiter on, at which the scanner waits though they are no valid frame and
begin none. -/
inductive HeldBack : List UInt8 → Prop where
  /-- The checksum of an SD1 frame is there and wrong, its end byte is not there. -/
  | sd1 {da sa fc fcs : UInt8} : fcs ≠ checksum [da, sa, fc] → HeldBack [0x10, da, sa, fc, fcs]
  /-- Two or three bytes of an SD2 header, with a length below 3. -/
  | short {le : UInt8} {rest : List UInt8} : le < 3 → rest.length ≤ 1 →
      HeldBack (0x68 :: le :: rest)
  /-- Three bytes of an SD2 header, with two lengths that differ. -/
  | unlike {le le2 : UInt8} : le2 ≠ le → HeldBack [0x68, le, le2]
  /-- A whole SD2 header, with a length below 3, whatever follows. -/
  | stalled {le : UInt8} (rest : List UInt8) : le < 3 → HeldBack (0x68 :: le :: le :: 0x68 :: rest)
  /-- The checksum of an SD2 frame is there and wrong, its end byte is not there. -/
  | sd2 {le fcs : UInt8} {body : List UInt8} : 3 ≤ body.length → le.toNat = body.length →
      fcs ≠ checksum body → HeldBack (0x68 :: le :: le :: 0x68 :: (body ++ [fcs]))

theorem body_of_three_le {body : List UInt8} (h : 3 ≤ body.length) :
    ∃ da sa fc data, body = da :: sa :: fc :: data := by
  match body with
  | [] | [_] | [_, _] => simp at h
  | da :: sa :: fc :: data => exact ⟨da, sa, fc, data, rfl⟩

/-- Where the scanner is held back, so it is whatever else comes in, or it skips a byte. -/
theorem not_found_of_heldBack {buf : List UInt8} (h : HeldBack buf) (more : List UInt8) :
    head (buf ++ more) = some .more ∨ head (buf ++ more) = some .skip := by
  cases h with
  | @sd1 da sa fc fcs hfcs =>
    match more with
    | [] => exact .inl (head_of_shape (.sd1Part (by simp)))
    | ed :: more =>
      refine .inr (head_of_shape (.sd1Bad more fun h => hfcs ?_))
      rw [← h.2, pbFcs_eq]
  | @short le rest hle hrest =>
    by_cases hpart : (le :: rest ++ more).length < 3
    · exact .inl (head_of_shape (.headerPart hpart))
    obtain ⟨le2, sd, last, hlast⟩ : ∃ le2 sd last, rest ++ more = le2 :: sd :: last := by
      match happ : rest ++ more with
      | [] | [_] => simp [happ] at hpart
      | le2 :: sd :: last => exact ⟨le2, sd, last, rfl⟩
    simp only [List.cons_append, hlast]
    by_cases hheader : le2 ≠ le ∨ sd ≠ pbSd2
    · exact .inr (head_of_shape (.headerBad last hheader))
    · rw [not_or, not_not, not_not] at hheader
      obtain ⟨rfl, rfl⟩ := hheader
      exact .inl (head_of_shape (.lengthBad last hle))
  | @unlike le le2 hne =>
    match more with
    | [] => exact .inl (head_of_shape (.headerPart (by simp)))
    | sd :: more => exact .inr (head_of_shape (.headerBad more (.inl hne)))
  | @stalled le rest hle => exact .inl (head_of_shape (.lengthBad (rest ++ more) hle))
  | @sd2 le fcs body hbody hle hfcs =>
    match more with
    | [] =>
      have hthree : (3 : UInt8) ≤ le := UInt8.le_iff_toNat_le.mpr (hle ▸ hbody)
      rw [List.append_nil]
      exact .inl (head_of_shape (.sd2Part hthree (by simp [hle])))
    | ed :: more =>
      obtain ⟨da, sa, fc, data, rfl⟩ := body_of_three_le hbody
      have hlen : le.toNat = 3 + data.length := by
        simp only [List.length_cons] at hle
        omega
      simp only [List.cons_append, List.append_assoc, List.nil_append]
      refine .inr (head_of_shape (.sd2Bad more hlen fun h => hfcs ?_))
      rw [← h.2, pbFcs_eq]

theorem completable_of_frame {buf more : List UInt8} {f : Frame} (h : IsFrame (buf ++ more) f) :
    Completable IsFrame buf :=
  ⟨more, buf ++ more, f, h, List.prefix_rfl⟩

theorem completable_of_body {le : UInt8} {rest : List UInt8} (hle : 3 ≤ le.toNat)
    (hrest : rest.length ≤ le.toNat) :
    Completable IsFrame (0x68 :: le :: le :: 0x68 :: rest) := by
  have hbody : (rest ++ List.replicate (le.toNat - rest.length) 0).length = le.toNat := by
    rw [List.length_append, List.length_replicate]
    omega
  obtain ⟨da, sa, fc, data, hdata⟩ := body_of_three_le (hbody ▸ hle)
  have hlen : le.toNat = 3 + data.length := by
    rw [← hbody, hdata]
    simp only [List.length_cons]
    omega
  apply completable_of_frame
  have hframe := IsFrame.sd2 da sa fc data hlen
  rw [← List.cons_append, ← List.cons_append, ← List.cons_append, ← hdata,
    List.append_assoc] at hframe
  exact hframe

/-- Where the code waits for what cannot come. -/
theorem held_iff (buf : List UInt8) : Held head IsFrame buf ↔ HeldBack buf := by
  constructor
  -- waiting for more, at what is no beginning of a frame: by its shape
  · rintro ⟨hmore, hnot⟩
    cases buf with
    | nil => simp [head] at hmore
    | cons sd rest =>
      have hshape := shape_of_head hmore
      cases hshape with
      | sd1Part hlen =>
        rcases rest with _ | ⟨da, _ | ⟨sa, _ | ⟨fc, _ | ⟨fcs, _ | ⟨next, rest⟩⟩⟩⟩⟩
        · exact absurd (completable_of_frame (.sd1 0 0 0)) hnot
        · exact absurd (completable_of_frame (.sd1 da 0 0)) hnot
        · exact absurd (completable_of_frame (.sd1 da sa 0)) hnot
        · exact absurd (completable_of_frame (.sd1 da sa fc)) hnot
        · refine .sd1 fun hfcs => hnot ?_
          subst hfcs
          exact completable_of_frame (.sd1 da sa fc)
        · simp only [List.length_cons] at hlen
          omega
      | headerPart hlen =>
        rcases rest with _ | ⟨le, _ | ⟨le2, _ | ⟨next, rest⟩⟩⟩
        · exact absurd (completable_of_frame (@IsFrame.sd2 3 0 0 0 [] rfl)) hnot
        · refine .short (UInt8.not_le.mp fun hle => hnot ?_) (Nat.zero_le _)
          obtain ⟨more, hstarts⟩ :=
            @completable_of_body le [] (UInt8.le_iff_toNat_le.mp hle) (Nat.zero_le _)
          exact ⟨le :: 0x68 :: more, hstarts⟩
        · by_cases hne : le2 ≠ le
          · exact .unlike hne
          rw [not_not] at hne
          subst hne
          refine .short (UInt8.not_le.mp fun hle => hnot ?_) le_rfl
          obtain ⟨more, hstarts⟩ :=
            @completable_of_body le2 [] (UInt8.le_iff_toNat_le.mp hle) (Nat.zero_le _)
          exact ⟨0x68 :: more, hstarts⟩
        · simp only [List.length_cons] at hlen
          omega
      | lengthBad rest hle => exact .stalled rest hle
      | @sd2Part le rest hle hlen =>
        have hthree : 3 ≤ le.toNat := UInt8.le_iff_toNat_le.mp hle
        by_cases hbody : rest.length ≤ le.toNat
        · exact absurd (completable_of_body hthree hbody) hnot
        obtain ⟨body, fcs, rfl⟩ : ∃ body fcs, rest = body ++ [fcs] := by
          rcases List.eq_nil_or_concat rest with rfl | ⟨body, fcs, rfl⟩
          · simp at hbody
          · exact ⟨body, fcs, by simp⟩
        simp only [List.length_append, List.length_cons, List.length_nil] at hlen hbody
        refine .sd2 (by omega) (by omega) fun hfcs => hnot ?_
        subst hfcs
        obtain ⟨da, sa, fc, data, rfl⟩ := @body_of_three_le body (by omega)
        simp only [List.length_cons] at hlen hbody
        have hframe := @IsFrame.sd2 le da sa fc data (by omega)
        exact ⟨[0x16], _, _, hframe, by simp [pbSd2]⟩
  · intro hheld
    constructor
    · cases hheld with
      | sd1 hfcs => exact head_of_shape (.sd1Part (by simp))
      | short hle hrest =>
        refine head_of_shape (.headerPart ?_)
        simp only [List.length_cons]
        omega
      | unlike hne => exact head_of_shape (.headerPart (by simp))
      | stalled rest hle => exact head_of_shape (.lengthBad rest hle)
      | sd2 hbody hle hfcs =>
        exact head_of_shape (.sd2Part (UInt8.le_iff_toNat_le.mpr (hle ▸ hbody)) (by simp [hle]))
    · intro hcomp
      obtain ⟨more, hstarts⟩ := hcomp
      obtain ⟨f, used, hfound⟩ := lawful.head_of_starts hstarts
      rcases not_found_of_heldBack hheld more with h | h <;> simp [h] at hfound

/-! ## Streams -/

/-- `sizeof st->rx`. -/
def rxSize : Nat := 1024

/-- What is received goes behind the bytes in the buffer, which are dropped where it does not fit,
and `pb_try_parse` is called until it finds no frame. -/
def pbReceive (st : List Frame × List UInt8) (chunk : List UInt8) :
    Option (List Frame × List UInt8) :=
  let rx := if rxSize < st.2.length + chunk.length then chunk else st.2 ++ chunk
  (drain head (rx.length + 1) rx).map fun r => (st.1 ++ r.1, r.2)

/-- The frames that have been returned and the bytes left in the buffer, once the chunks have been
received. -/
def received (chunks : List (List UInt8)) : Option (List Frame × List UInt8) :=
  chunks.foldlM pbReceive ([], [])

def NoOverflow (chunks : List (List UInt8)) : Prop :=
  ∀ before chunk, before ++ [chunk] <+: chunks →
    ∀ frames left, received before = some (frames, left) → left.length + chunk.length ≤ rxSize

/-- After every chunk the calls have come to an end, the frames of the reference scan of what has
been received have been returned, and the bytes that wait in the buffer can still become a valid
frame. -/
def Exact (chunks : List (List UInt8)) : Prop :=
  ∀ before, before <+: chunks → ∃ frames left, received before = some (frames, left) ∧
    Scans IsFrame before.flatten frames left ∧ Pending IsFrame left

/-- At the end of no chunk does the reference come to bytes that hold the scanner back. -/
def NeverHeldBack (chunks : List (List UInt8)) : Prop :=
  ∀ before, before <+: chunks → ∀ frames rest,
    Scans IsFrame before.flatten frames rest → ¬ HeldBack rest

theorem NoOverflow.of_prefix {chunks before : List (List UInt8)} (h : NoOverflow chunks)
    (hpre : before <+: chunks) : NoOverflow before :=
  fun ks chunk hks => h ks chunk (hks.trans hpre)

theorem noOverflow_single {chunk : List UInt8} (h : chunk.length ≤ rxSize) :
    NoOverflow [chunk] := by
  intro before last hpre frames left hreceived
  have hlen := hpre.length_le
  simp only [List.length_append, List.length_cons, List.length_nil] at hlen
  obtain rfl : before = [] := List.length_eq_zero_iff.mp (by omega)
  obtain rfl : last = chunk := by simpa using hpre
  obtain ⟨-, rfl⟩ : [] = frames ∧ [] = left := by simpa [received] using hreceived
  simpa using h

theorem received_advances {chunks : List (List UInt8)} (h : NoOverflow chunks) :
    ∃ frames left, received chunks = some (frames, left) ∧
      Advances head chunks.flatten frames left ∧ Waits head left := by
  induction chunks using List.reverseRecOn with
  | nil => exact ⟨[], [], rfl, .here [], .inl rfl⟩
  | append_singleton before chunk ih =>
    obtain ⟨frames, left, hreceived, hadv, -⟩ := ih (h.of_prefix (List.prefix_append _ _))
    have hfits := h before chunk List.prefix_rfl frames left hreceived
    obtain ⟨found, last, hdrain, hnext, hwaits⟩ :=
      lawful.drain_advances ((left ++ chunk).length + 1) (left ++ chunk) (Nat.lt_succ_self _)
    refine ⟨frames ++ found, last, ?_, ?_, hwaits⟩
    · have hstep : pbReceive (frames, left) chunk = some (frames ++ found, last) := by
        simp only [pbReceive, if_neg (Nat.not_lt.mpr hfits), hdrain, Option.map_some]
      rw [received, List.foldlM_append]
      rw [received] at hreceived
      simp [hreceived, hstep]
    · rw [List.flatten_append, List.flatten_singleton]
      exact (lawful.advances_append hadv chunk).trans hnext

theorem received_eq_of_flatten_eq {chunks chunks' : List (List UInt8)} (h : NoOverflow chunks)
    (h' : NoOverflow chunks') (hsame : chunks'.flatten = chunks.flatten) :
    received chunks' = received chunks := by
  obtain ⟨frames, left, hreceived, hadv, hwaits⟩ := received_advances h
  obtain ⟨frames', left', hreceived', hadv', hwaits'⟩ := received_advances h'
  rw [hsame] at hadv'
  obtain ⟨rfl, rfl⟩ := lawful.advances_unique hadv hadv' hwaits hwaits'
  rw [hreceived, hreceived']

theorem exact_iff_neverHeldBack {chunks : List (List UInt8)} (h : NoOverflow chunks) :
    Exact chunks ↔ NeverHeldBack chunks := by
  refine forall₂_congr fun before hpre => ?_
  obtain ⟨frames, left, hreceived, hadv, hwaits⟩ := received_advances (h.of_prefix hpre)
  have hpending := lawful.pending_iff hadv hwaits
  simp only [held_iff] at hpending
  rw [← hpending]
  constructor
  · rintro ⟨frames', left', hreceived', -, hend⟩
    rw [hreceived, Option.some.injEq, Prod.mk.injEq] at hreceived'
    exact hreceived'.2 ▸ hend
  · intro hend
    exact ⟨frames, left, hreceived, lawful.scans hadv, hend⟩

/-! ## Requests -/

/-- What has been built is found again, with the same fields, whatever follows. -/
def RoundTrip (da sa fc : UInt8) (dsap ssap : Int) (pdu : List UInt8) : Prop :=
  ∀ rest, pbTryParse (pbBuildSd2 da sa fc dsap ssap pdu ++ rest) =
    some (some { kind := .sd2, da, sa, fc, dsap, ssap, pdu }, rest)

/-- The fields fit into a frame: addresses of seven bits, SAPs that are absent or a byte, and a
body of at most 255 bytes. -/
def FitsFrame (da sa : UInt8) (dsap ssap : Int) (pdu : List UInt8) : Prop :=
  da < 0x80 ∧ sa < 0x80 ∧ (-1 ≤ dsap ∧ dsap ≤ 255) ∧ (-1 ≤ ssap ∧ ssap ≤ 255) ∧
    3 + (sapByte dsap).length + (sapByte ssap).length + pdu.length ≤ 255

theorem forall_byte {P : UInt8 → Prop} (h : ∀ v : BitVec 8, P ⟨v⟩) (a : UInt8) : P a :=
  h a.toBitVec

theorem maskAddress_lt : ∀ a : UInt8, a &&& 0x7F < 0x80 := by
  apply forall_byte
  decide +kernel

theorem maskAddress_flag : ∀ a : UInt8, a < 0x80 → (a ||| 0x80) &&& 0x7F = a := by
  apply forall_byte
  decide +kernel

theorem maskAddress_plain : ∀ a : UInt8, a < 0x80 → a &&& 0x7F = a := by
  apply forall_byte
  decide +kernel

theorem flag_set : ∀ a : UInt8, (a ||| 0x80) &&& 0x80 ≠ 0 := by
  apply forall_byte
  decide +kernel

theorem flag_clear : ∀ a : UInt8, a < 0x80 → a &&& 0x80 = 0 := by
  apply forall_byte
  decide +kernel

theorem sapByte_length_le (sap : Int) : (sapByte sap).length ≤ 1 := by
  unfold sapByte
  split <;> simp

theorem takeSap_bounds (raw : UInt8) (bytes : List UInt8) :
    (-1 ≤ (takeSap raw bytes).1 ∧ (takeSap raw bytes).1 ≤ 255) ∧
      (sapByte (takeSap raw bytes).1).length + (takeSap raw bytes).2.length ≤ bytes.length := by
  cases bytes with
  | nil => simp [takeSap, sapByte]
  | cons b rest =>
    have hb := b.toNat_lt
    by_cases hraw : raw &&& 0x80 = 0
    · simp [takeSap, hraw, sapByte]
    · simp only [takeSap, hraw, if_false, sapByte, Int.natCast_nonneg, if_true, List.length_cons,
        List.length_nil]
      omega

theorem fits_of_isFrame {symbols : List UInt8} {f : Frame} (h : IsFrame symbols f)
    (hkind : f.kind = .sd2) : FitsFrame f.da f.sa f.dsap f.ssap f.pdu := by
  cases h with
  | sc => cases hkind
  | sd1 => cases hkind
  | @sd2 le da sa fc data hle =>
    have hlt := le.toNat_lt
    set tail := data ++ [checksum (da :: sa :: fc :: data), 0x16] with htail
    have hlen : tail.length = data.length + 2 := by simp [htail]
    obtain ⟨hdsap, hafter⟩ := takeSap_bounds da tail
    obtain ⟨hssap, hlast⟩ := takeSap_bounds sa (takeSap da tail).2
    refine ⟨maskAddress_lt da, maskAddress_lt sa, hdsap, hssap, ?_⟩
    have hone := sapByte_length_le (takeSap da tail).1
    have hone' := sapByte_length_le (takeSap sa (takeSap da tail).2).1
    simp only [sd2Frame, List.length_take]
    omega

theorem address_flag (a : UInt8) (sap : Int) (h : a < 0x80) (bytes : List UInt8)
    (hsap : -1 ≤ sap ∧ sap ≤ 255) (hne : bytes ≠ []) :
    (if 0 ≤ sap then a ||| 0x80 else a) &&& 0x7F = a ∧
      takeSap (if 0 ≤ sap then a ||| 0x80 else a) (sapByte sap ++ bytes) = (sap, bytes) := by
  by_cases hpos : 0 ≤ sap
  · have hbyte : ((UInt8.ofInt sap).toNat : Int) = sap := by
      rw [UInt8.ofInt, UInt8.toNat_ofNat']
      omega
    simp [sapByte, hpos, takeSap, maskAddress_flag a h, flag_set a, hbyte]
  · obtain ⟨b, rest, rfl⟩ := List.exists_cons_of_ne_nil hne
    have hsap : sap = -1 := by omega
    simp [hsap, sapByte, takeSap, maskAddress_plain a h, flag_clear a h]

/-- A frame that is built is one of the format. -/
theorem isFrame_build {da sa : UInt8} (fc : UInt8) {dsap ssap : Int} {pdu : List UInt8}
    (h : FitsFrame da sa dsap ssap pdu) :
    IsFrame (pbBuildSd2 da sa fc dsap ssap pdu)
      { kind := .sd2, da, sa, fc, dsap, ssap, pdu } := by
  obtain ⟨hda, hsa, hdsap, hssap, hlen⟩ := h
  set da' := if 0 ≤ dsap then da ||| 0x80 else da with hda'
  set sa' := if 0 ≤ ssap then sa ||| 0x80 else sa with hsa'
  set data := sapByte dsap ++ sapByte ssap ++ pdu with hdata
  have hdatalen : data.length = (sapByte dsap).length + (sapByte ssap).length + pdu.length := by
    simp [hdata]
    omega
  have hle : (UInt8.ofNat (3 + data.length)).toNat = 3 + data.length := by
    rw [UInt8.toNat_ofNat']
    omega
  -- the frame of the flagged addresses and the extended data
  have hframe := IsFrame.sd2 da' sa' fc data hle
  have hbytes : pbBuildSd2 da sa fc dsap ssap pdu =
      0x68 :: UInt8.ofNat (3 + data.length) :: UInt8.ofNat (3 + data.length) :: 0x68 ::
        da' :: sa' :: fc :: (data ++ [checksum (da' :: sa' :: fc :: data), 0x16]) := by
    have hbody : [da', sa', fc] ++ sapByte dsap ++ sapByte ssap ++ pdu =
        da' :: sa' :: fc :: data := by simp [hdata]
    have hbodylen : (da' :: sa' :: fc :: data).length = 3 + data.length := by
      simp only [List.length_cons]
      omega
    simp only [pbBuildSd2, ← hda', ← hsa', hbody, hbodylen, hle]
    rw [List.take_of_length_le hbodylen.le, pbFcs_eq]
    rfl
  rw [hbytes]
  have htail : data ++ [checksum (da' :: sa' :: fc :: data), 0x16] =
      sapByte dsap ++ (sapByte ssap ++ (pdu ++ [checksum (da' :: sa' :: fc :: data), 0x16])) := by
    simp [hdata]
  obtain ⟨hmask, htake⟩ := address_flag da dsap hda
    (sapByte ssap ++ (pdu ++ [checksum (da' :: sa' :: fc :: data), 0x16])) hdsap (by simp)
  obtain ⟨hmask', htake'⟩ := address_flag sa ssap hsa
    (pdu ++ [checksum (da' :: sa' :: fc :: data), 0x16]) hssap (by simp)
  have hfields : sd2Frame da' sa' fc (data ++ [checksum (da' :: sa' :: fc :: data), 0x16]) =
      { kind := .sd2, da, sa, fc, dsap, ssap, pdu } := by
    rw [htail]
    simp only [sd2Frame, ← hda', ← hsa'] at htake htake' hmask hmask' ⊢
    simp [htake, htake', hmask, hmask']
  rw [hfields] at hframe
  exact hframe

/-- It comes back as it was exactly when it fits. -/
theorem roundTrip_iff (da sa fc : UInt8) (dsap ssap : Int) (pdu : List UInt8) :
    RoundTrip da sa fc dsap ssap pdu ↔ FitsFrame da sa dsap ssap pdu := by
  constructor
  · intro h
    have hnext := h []
    rw [List.append_nil] at hnext
    obtain ⟨found, left, hnext', hadv, -⟩ := lawful.next_advances (pbBuildSd2 da sa fc dsap ssap pdu)
    rw [pbTryParse, hnext', Option.some.injEq, Prod.mk.injEq] at hnext
    obtain ⟨rfl, rfl⟩ := hnext
    obtain ⟨symbols, hframe⟩ := (lawful.scans hadv).valid (List.mem_singleton.mpr rfl)
    exact fits_of_isFrame hframe rfl
  · intro h rest
    have hfound := lawful.accepts rest (isFrame_build fc h)
    set bytes := pbBuildSd2 da sa fc dsap ssap pdu with hbytes
    obtain ⟨sd, tail, hcons⟩ := List.exists_cons_of_ne_nil (lawful.nonempty (isFrame_build fc h))
    rw [← hbytes] at hcons
    have hdrop : (bytes ++ rest).drop bytes.length = rest := List.drop_left
    rw [hcons, List.cons_append] at hfound hdrop ⊢
    simp only [pbTryParse, next, hfound, hdrop]

/-- Over a stream that does not overflow the buffer, the scanner is exact exactly where nothing
holds it back, and however the stream is cut it returns the same. It takes a request apart as it
was built exactly where the fields fit into a frame. -/
theorem scanner_exact_iff (chunks : List (List UInt8)) (da sa fc : UInt8) (dsap ssap : Int)
    (pdu : List UInt8) :
    (NoOverflow chunks → (Exact chunks ↔ NeverHeldBack chunks) ∧
      ∀ chunks', NoOverflow chunks' → chunks'.flatten = chunks.flatten →
        received chunks' = received chunks) ∧
      (RoundTrip da sa fc dsap ssap pdu ↔ FitsFrame da sa dsap ssap pdu) :=
  ⟨fun h => ⟨exact_iff_neverHeldBack h, fun _ h' hsame => received_eq_of_flatten_eq h h' hsame⟩,
    roundTrip_iff da sa fc dsap ssap pdu⟩

/-- An SD2 frame that is cut after its source address. Before it come a byte that starts no frame and
an SD1 frame with a wrong checksum. -/
def cutStream : List (List UInt8) :=
  [[0xFF, 0x10, 1, 2, 3, 9, 0x16, 0x68, 5, 5, 0x68, 5, 2], [8, 0x11, 0x22, 0x42, 0x16]]

theorem prefixes_cutStream {before : List (List UInt8)} (hpre : before <+: cutStream) :
    before = [] ∨ before = cutStream.take 1 ∨ before = cutStream := by
  have hmem := (List.mem_inits before cutStream).mpr hpre
  simpa [cutStream] using hmem

theorem noOverflow_cutStream : NoOverflow cutStream := by
  intro before chunk hpre frames left hreceived
  rcases prefixes_cutStream hpre with h | h | h
  · exact absurd h (by simp)
  · obtain ⟨rfl, rfl⟩ := List.append_singleton_inj.mp (show before ++ [chunk] = [] ++ [_] from h)
    obtain ⟨-, rfl⟩ := Prod.mk.inj (Option.some.inj hreceived)
    decide
  · have hwaits : received (cutStream.take 1) = some ([], [0x68, 5, 5, 0x68, 5, 2]) := by decide
    obtain ⟨rfl, rfl⟩ := List.append_singleton_inj.mp
      (show before ++ [chunk] = cutStream.take 1 ++ [_] from h)
    obtain ⟨-, rfl⟩ := Prod.mk.inj (Option.some.inj (hreceived.symm.trans hwaits))
    decide

/-- The cut stream never comes to such a place. -/
theorem neverHeldBack_cutStream : NeverHeldBack cutStream := by
  intro before hpre frames rest hscans hheld
  obtain ⟨found, left, hreceived, hadv, hwaits⟩ :=
    received_advances (noOverflow_cutStream.of_prefix hpre)
  have hstays := (held_iff rest).mpr hheld
  obtain ⟨frames', hreach⟩ := lawful.reaches_of_waits hadv hscans (.inr hstays.1)
  -- what waits in the buffer can still become a frame, so the reference stops there too
  have hpending : Completable IsFrame left := by
    rcases prefixes_cutStream hpre with rfl | rfl | rfl
    · obtain ⟨-, rfl⟩ := Prod.mk.inj (Option.some.inj hreceived)
      exact @completable_of_frame [] [0xE5] _ .sc
    · have hcut : received (cutStream.take 1) = some ([], [0x68, 5, 5, 0x68, 5, 2]) := by decide
      obtain ⟨-, rfl⟩ := Prod.mk.inj (Option.some.inj (hreceived.symm.trans hcut))
      exact completable_of_body (by decide) (by decide)
    · have hwhole : received cutStream = some ([sd2Frame 5 2 8 [0x11, 0x22, 0x42, 0x16]], []) := by
        decide
      obtain ⟨-, rfl⟩ := Prod.mk.inj (Option.some.inj (hreceived.symm.trans hwhole))
      exact @completable_of_frame [] [0xE5] _ .sc
  obtain ⟨rfl, -⟩ := Pending.eq_left ⟨hpending, lawful.not_starts_of_waits hwaits⟩ hreach
  exact hstays.2 hpending

/-- The frame is found, however the stream is cut; and a request with both SAPs comes back. -/
theorem scanner_exact_iff_cut :
    Exact cutStream ∧
      (∀ chunks, NoOverflow chunks → chunks.flatten = cutStream.flatten →
        received chunks = some ([sd2Frame 5 2 8 [0x11, 0x22, 0x42, 0x16]], [])) ∧
      RoundTrip 5 2 0x7D 0x3C 0x3E [1, 2] := by
  have hboth := scanner_exact_iff cutStream 5 2 0x7D 0x3C 0x3E [1, 2]
  obtain ⟨hexact, hcuts⟩ := hboth.1 noOverflow_cutStream
  refine ⟨hexact.mpr neverHeldBack_cutStream, fun chunks h hsame => ?_, hboth.2.mpr ?_⟩
  · rw [hcuts chunks h hsame]
    decide
  · exact ⟨by decide, by decide, by decide, by decide, by decide⟩

/-- An SD2 telegram with a length of 2, complete to its checksum and end byte, and behind it a short
acknowledge: the reference passes over the one and finds the other, the scanner stays. -/
theorem stays_at_length_two :
    ∃ stream : List UInt8, NoOverflow [stream] ∧ Scans IsFrame stream [scFrame] [] ∧
      received [stream] = some ([], stream) ∧ ¬ Exact [stream] := by
  refine ⟨[0x68, 2, 2, 0x68, 5, 2, 7, 0x16, 0xE5], noOverflow_single (by decide), ?_,
    by decide, ?_⟩
  · have hstay := ((held_iff _).mpr (@HeldBack.stalled 2 [5, 2, 7, 0x16, 0xE5] (by decide))).2
    refine .skip hstay ?_
    -- from here on the scanner goes on by itself
    obtain ⟨frames, left, hdrain, hadv, -⟩ :=
      lawful.drain_advances 9 [2, 2, 0x68, 5, 2, 7, 0x16, 0xE5] (by decide)
    have hgoes : drain head 9 [2, 2, 0x68, 5, 2, 7, 0x16, 0xE5] = some ([scFrame], []) := by decide
    rw [hgoes, Option.some.injEq, Prod.mk.injEq] at hdrain
    obtain ⟨rfl, rfl⟩ := hdrain
    exact lawful.scans hadv
  · intro hexact
    obtain ⟨frames, left, hreceived, -, hpending⟩ := hexact _ List.prefix_rfl
    have hstay : received [[0x68, 2, 2, 0x68, 5, 2, 7, 0x16, 0xE5]] =
        some ([], [0x68, 2, 2, 0x68, 5, 2, 7, 0x16, 0xE5]) := by decide
    rw [hstay, Option.some.injEq, Prod.mk.injEq] at hreceived
    obtain ⟨-, rfl⟩ := hreceived
    exact ((held_iff _).mpr (.stalled _ (by decide))).2 hpending.1

end TedgeDot.Profibus
