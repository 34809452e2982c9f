import TedgeDot.Lib.Framing
import Mathlib.Tactic.Basic

/-!
# PROFIBUS frames

The C connector builds its requests and takes the replies apart itself, from the bytes of a TCP
connection that cuts them anywhere.

- `shape_of_head`, `head_of_shape`: what one look at the head of the buffer comes to.
-/

namespace TedgeDot.Profibus

open Framing

/-! ## Building -/

def pbSd1 : UInt8 := 0x10
def pbSd2 : UInt8 := 0x68
def pbSc : UInt8 := 0xE5
def pbEd : UInt8 := 0x16

inductive FrameKind where
  | sc
  | sd1
  | sd2
deriving DecidableEq

/-- `pb_frame_t`. -/
structure Frame where
  kind : FrameKind
  da : UInt8
  sa : UInt8
  fc : UInt8
  /-- `-1` when absent. -/
  dsap : Int
  ssap : Int
  pdu : List UInt8
deriving DecidableEq

def pbFcs (p : List UInt8) : UInt8 :=
  ((p.foldl (fun (s : UInt32) (b : UInt8) => s + b.toUInt32) 0) &&& 0xFF).toUInt8

/-- A SAP goes out after the function code, where there is one. -/
def sapByte (sap : Int) : List UInt8 := if 0 ≤ sap then [UInt8.ofInt sap] else []

/-- `le` counts the bytes of the body in eight bits. -/
def pbBuildSd2 (da sa fc : UInt8) (dsap ssap : Int) (pdu : List UInt8) : List UInt8 :=
  let body := [if 0 ≤ dsap then da ||| 0x80 else da, if 0 ≤ ssap then sa ||| 0x80 else sa, fc] ++
    sapByte dsap ++ sapByte ssap ++ pdu
  let le := UInt8.ofNat body.length
  [pbSd2, le, le, pbSd2] ++ body ++ [pbFcs (body.take le.toNat), pbEd]

/-! ## Parsing -/

/-- Bytes of the buffer, none of them past its end. -/
def bytesAt (rx : List UInt8) (i n : Nat) : Option (List UInt8) :=
  if i + n ≤ rx.length then some ((rx.drop i).take n) else none

def scFrame : Frame :=
  { kind := .sc, da := 0, sa := 0, fc := 0, dsap := 0, ssap := 0, pdu := [] }

def sd1Frame (da sa fc : UInt8) : Frame :=
  { kind := .sd1, da := da &&& 0x7F, sa := sa &&& 0x7F, fc := fc,
    dsap := -1, ssap := -1, pdu := [] }

def parseSd1 (rx : List UInt8) : Option (Verdict Frame) :=
  if rx.length < 6 then some .more
  else do
    let ed ← rx[5]?
    let fcs ← rx[4]?
    let body ← bytesAt rx 1 3
    if ed = pbEd ∧ pbFcs body = fcs then do
      let da ← rx[1]?
      let sa ← rx[2]?
      let fc ← rx[3]?
      pure (.found (sd1Frame da sa fc) 6)
    else pure .skip

/-- The SAP at `p`, where the address announces one, and the place after it. -/
def readSap (rx : List UInt8) (raw : UInt8) (p : Nat) : Option (Int × Nat) :=
  if raw &&& 0x80 = 0 then some (-1, p)
  else do
    let sap ← rx[p]?
    pure ((sap.toNat : Int), p + 1)

/-- The fields of a frame whose checks have passed. -/
def readSd2 (rx : List UInt8) (le : Nat) : Option Frame := do
  let daRaw ← rx[4]?
  let saRaw ← rx[5]?
  let fc ← rx[6]?
  let (dsap, p) ← readSap rx daRaw 7
  let (ssap, p) ← readSap rx saRaw p
  let stop := 4 + le
  let pdu ← bytesAt rx p (if p < stop then stop - p else 0)
  pure { kind := .sd2, da := daRaw &&& 0x7F, sa := saRaw &&& 0x7F, fc, dsap, ssap, pdu }

def parseSd2 (rx : List UInt8) : Option (Verdict Frame) :=
  if rx.length < 4 then some .more
  else do
    let le ← rx[1]?
    let le2 ← rx[2]?
    let sd ← rx[3]?
    if le2 = le ∧ sd = pbSd2 ∧ 3 ≤ le then
      let total := 4 + le.toNat + 2
      if rx.length < total then pure .more
      else do
        let ed ← rx[4 + le.toNat + 1]?
        let fcs ← rx[4 + le.toNat]?
        let body ← bytesAt rx 4 le.toNat
        if ed = pbEd ∧ pbFcs body = fcs then do
          let f ← readSd2 rx le.toNat
          pure (.found f total)
        else pure .skip
    else if le2 ≠ le ∨ sd ≠ pbSd2 then pure .skip
    -- the header is right and its length below 3: reported as a frame that is not complete
    else pure .more

/-- The body of the loop of `pb_try_parse`. -/
def head (rx : List UInt8) : Option (Verdict Frame) := do
  let sd ← rx[0]?
  if sd = pbSc then pure (.found scFrame 1)
  else if sd = pbSd1 then parseSd1 rx
  else if sd = pbSd2 then parseSd2 rx
  else pure .skip

/-- A frame, or none when more bytes are needed, and the bytes that stay in the buffer. -/
def pbTryParse (rx : List UInt8) : Option (Option Frame × List UInt8) := next head rx

/-! ## One look at the head -/

/-- A SAP taken from the bytes after the function code. -/
def takeSap (raw : UInt8) : List UInt8 → Int × List UInt8
  | [] => (-1, [])
  | b :: rest => if raw &&& 0x80 = 0 then (-1, b :: rest) else ((b.toNat : Int), rest)

/-- What an SD2 frame says, from what follows its function code: the data, the checksum and the
end byte. Where the data have no room for the SAPs that the addresses announce, these are read
from the last two bytes. -/
def sd2Frame (da sa fc : UInt8) (tail : List UInt8) : Frame :=
  let afterDsap := takeSap da tail
  let afterSsap := takeSap sa afterDsap.2
  { kind := .sd2, da := da &&& 0x7F, sa := sa &&& 0x7F, fc := fc,
    dsap := afterDsap.1, ssap := afterSsap.1,
    pdu := afterSsap.2.take (afterSsap.2.length - 2) }

theorem readSap_spec {rx tail rest : List UInt8} {p : Nat} (raw : UInt8)
    (h : rx.drop p = tail ++ rest) (hne : tail ≠ []) :
    ∃ q, readSap rx raw p = some ((takeSap raw tail).1, q) ∧
      rx.drop q = (takeSap raw tail).2 ++ rest ∧
      q + (takeSap raw tail).2.length = p + tail.length ∧ q ≤ p + 1 := by
  obtain ⟨b, tail, rfl⟩ := List.exists_cons_of_ne_nil hne
  by_cases hraw : raw &&& 0x80 = 0
  · exact ⟨p, by simp [readSap, takeSap, hraw], by simp [takeSap, hraw, h],
      by simp [takeSap, hraw], Nat.le_succ p⟩
  · have hget : rx[p]? = some b := by
      rw [← List.head?_drop, h]
      rfl
    refine ⟨p + 1, by simp [readSap, takeSap, hraw, hget], ?_, ?_, le_rfl⟩
    · rw [← List.drop_drop, h]
      simp [takeSap, hraw]
    · simp only [takeSap, hraw, if_false, List.length_cons]
      omega

/-- The frame that is made of a telegram with variable data. -/
theorem readSd2_spec (a le le' b da sa fc : UInt8) (data rest : List UInt8) (fcs ed : UInt8) :
    readSd2 (a :: le :: le' :: b :: da :: sa :: fc :: (data ++ fcs :: ed :: rest))
        (3 + data.length) =
      some (sd2Frame da sa fc (data ++ [fcs, ed])) := by
  set rx := a :: le :: le' :: b :: da :: sa :: fc :: (data ++ fcs :: ed :: rest) with hrx
  have hlen : rx.length = 9 + data.length + rest.length := by
    simp only [hrx, List.length_cons, List.length_append]
    omega
  have hdrop : rx.drop 7 = (data ++ [fcs, ed]) ++ rest := by simp [hrx]
  obtain ⟨p, hp, hpdrop, hplen, hple⟩ := readSap_spec da hdrop (by simp)
  -- the first SAP leaves at least one of the last two bytes
  have hne : (takeSap da (data ++ [fcs, ed])).2 ≠ [] := by
    intro hnil
    simp only [hnil, List.length_nil, List.length_append, List.length_cons] at hplen
    omega
  obtain ⟨q, hq, hqdrop, hqlen, hqle⟩ := readSap_spec sa hpdrop hne
  set left := (takeSap sa (takeSap da (data ++ [fcs, ed])).2).2 with hleft
  simp only [List.length_append, List.length_cons, List.length_nil] at hplen
  have hcount : (if q < 4 + (3 + data.length) then 4 + (3 + data.length) - q else 0) =
      left.length - 2 := by
    split <;> omega
  have hpdu : bytesAt rx q (left.length - 2) = some (left.take (left.length - 2)) := by
    rw [bytesAt, if_pos (by omega), hqdrop, List.take_append_of_le_length (by omega)]
  have h4 : rx[4]? = some da := rfl
  have h5 : rx[5]? = some sa := rfl
  have h6 : rx[6]? = some fc := rfl
  simp [readSd2, h4, h5, h6, hp, hq, hcount, hpdu, sd2Frame, ← hleft]

/-- What one look at the head comes to. -/
inductive Shape : List UInt8 → Verdict Frame → Prop where
  | sc (rest : List UInt8) : Shape (pbSc :: rest) (.found scFrame 1)
  | sd1Part {rest : List UInt8} : rest.length < 5 → Shape (pbSd1 :: rest) .more
  | sd1 {da sa fc fcs : UInt8} (rest : List UInt8) : pbFcs [da, sa, fc] = fcs →
      Shape (pbSd1 :: da :: sa :: fc :: fcs :: pbEd :: rest) (.found (sd1Frame da sa fc) 6)
  | sd1Bad {da sa fc fcs ed : UInt8} (rest : List UInt8) :
      ¬ (ed = pbEd ∧ pbFcs [da, sa, fc] = fcs) →
      Shape (pbSd1 :: da :: sa :: fc :: fcs :: ed :: rest) .skip
  | headerPart {rest : List UInt8} : rest.length < 3 → Shape (pbSd2 :: rest) .more
  | headerBad {le le2 sd : UInt8} (rest : List UInt8) : le2 ≠ le ∨ sd ≠ pbSd2 →
      Shape (pbSd2 :: le :: le2 :: sd :: rest) .skip
  | lengthBad {le : UInt8} (rest : List UInt8) : le < 3 →
      Shape (pbSd2 :: le :: le :: pbSd2 :: rest) .more
  | sd2Part {le : UInt8} {rest : List UInt8} : 3 ≤ le → rest.length < le.toNat + 2 →
      Shape (pbSd2 :: le :: le :: pbSd2 :: rest) .more
  | sd2 {le da sa fc fcs : UInt8} {data : List UInt8} (rest : List UInt8) :
      le.toNat = 3 + data.length → pbFcs (da :: sa :: fc :: data) = fcs →
      Shape (pbSd2 :: le :: le :: pbSd2 :: da :: sa :: fc :: (data ++ fcs :: pbEd :: rest))
        (.found (sd2Frame da sa fc (data ++ [fcs, pbEd])) (le.toNat + 6))
  | sd2Bad {le da sa fc fcs ed : UInt8} {data : List UInt8} (rest : List UInt8) :
      le.toNat = 3 + data.length → ¬ (ed = pbEd ∧ pbFcs (da :: sa :: fc :: data) = fcs) →
      Shape (pbSd2 :: le :: le :: pbSd2 :: da :: sa :: fc :: (data ++ fcs :: ed :: rest)) .skip
  | other {sd : UInt8} (rest : List UInt8) : sd ≠ pbSc → sd ≠ pbSd1 → sd ≠ pbSd2 →
      Shape (sd :: rest) .skip

theorem sd1_ne_sc : pbSd1 ≠ pbSc := by decide
theorem sd2_ne_sc : pbSd2 ≠ pbSc := by decide
theorem sd2_ne_sd1 : pbSd2 ≠ pbSd1 := by decide

theorem head_sd1 (rest : List UInt8) : head (pbSd1 :: rest) = parseSd1 (pbSd1 :: rest) := by
  simp [head, sd1_ne_sc]

theorem head_sd2 (rest : List UInt8) : head (pbSd2 :: rest) = parseSd2 (pbSd2 :: rest) := by
  simp [head, sd2_ne_sc, sd2_ne_sd1]

theorem parseSd1_full (sd da sa fc fcs ed : UInt8) (rest : List UInt8) :
    parseSd1 (sd :: da :: sa :: fc :: fcs :: ed :: rest) =
      some (if ed = pbEd ∧ pbFcs [da, sa, fc] = fcs then .found (sd1Frame da sa fc) 6
        else .skip) := by
  have hbody : bytesAt (sd :: da :: sa :: fc :: fcs :: ed :: rest) 1 3 = some [da, sa, fc] := by
    simp [bytesAt]
  have hlen : ¬ (sd :: da :: sa :: fc :: fcs :: ed :: rest).length < 6 := by
    simp only [List.length_cons]
    omega
  rw [parseSd1, if_neg hlen, hbody]
  by_cases h : ed = pbEd ∧ pbFcs [da, sa, fc] = fcs
  · simp [h]
  · simp [h]

/-- A complete telegram is found if its end and checksum are right, and skipped if not. -/
theorem parseSd2_full {le : UInt8} (sd da sa fc fcs ed : UInt8) {data : List UInt8}
    (rest : List UInt8) (hle : le.toNat = 3 + data.length) :
    parseSd2 (sd :: le :: le :: pbSd2 :: da :: sa :: fc :: (data ++ fcs :: ed :: rest)) =
      some (if ed = pbEd ∧ pbFcs (da :: sa :: fc :: data) = fcs then
          .found (sd2Frame da sa fc (data ++ [fcs, ed])) (le.toNat + 6)
        else .skip) := by
  set rx := sd :: le :: le :: pbSd2 :: da :: sa :: fc :: (data ++ fcs :: ed :: rest) with hrx
  have hlen : rx.length = 4 + le.toNat + 2 + rest.length := by
    simp only [hrx, List.length_cons, List.length_append]
    omega
  have hsplit : rx = (sd :: le :: le :: pbSd2 :: da :: sa :: fc :: data) ++ fcs :: ed :: rest := by
    simp [hrx]
  have hfcs : rx[4 + le.toNat]? = some fcs := by
    rw [hsplit, List.getElem?_append_right (by simp only [List.length_cons]; omega)]
    simp only [List.length_cons]
    rw [show 4 + le.toNat - (data.length + 1 + 1 + 1 + 1 + 1 + 1 + 1) = 0 by omega]
    rfl
  have hed : rx[4 + le.toNat + 1]? = some ed := by
    rw [hsplit, List.getElem?_append_right (by simp only [List.length_cons]; omega)]
    simp only [List.length_cons]
    rw [show 4 + le.toNat + 1 - (data.length + 1 + 1 + 1 + 1 + 1 + 1 + 1) = 1 by omega]
    rfl
  have hbody : bytesAt rx 4 le.toNat = some (da :: sa :: fc :: data) := by
    rw [bytesAt, if_pos (by omega), hle, hrx]
    simp [Nat.add_comm 3]
  have hthree : (3 : UInt8) ≤ le := by
    rw [UInt8.le_iff_toNat_le]
    show 3 ≤ le.toNat
    omega
  have hread : readSd2 rx le.toNat = some (sd2Frame da sa fc (data ++ [fcs, ed])) := by
    rw [hle]
    exact readSd2_spec _ _ _ _ _ _ _ _ _ _ _
  have h1 : rx[1]? = some le := rfl
  have h2 : rx[2]? = some le := rfl
  have h3 : rx[3]? = some pbSd2 := rfl
  rw [parseSd2, if_neg (by omega)]
  simp only [h1, h2, h3, hfcs, hed, hbody, hread, Option.bind_eq_bind, Option.bind_some,
    hthree, true_and, if_true]
  rw [if_neg (by omega)]
  by_cases h : ed = pbEd ∧ pbFcs (da :: sa :: fc :: data) = fcs
  · rw [if_pos h, if_pos h]
    simp only [Option.pure_def, Option.some.injEq, Verdict.found.injEq, true_and]
    omega
  · rw [if_neg h, if_neg h]
    rfl

/-- The verdict on each kind of beginning. -/
theorem head_of_shape {buf : List UInt8} {v : Verdict Frame} (h : Shape buf v) :
    head buf = some v := by
  cases h with
  | sc rest => simp [head]
  | sd1Part hlen =>
    rw [head_sd1, parseSd1, if_pos]
    simp only [List.length_cons]
    omega
  | sd1 rest hfcs => rw [head_sd1, parseSd1_full, if_pos ⟨rfl, hfcs⟩]
  | sd1Bad rest hbad => rw [head_sd1, parseSd1_full, if_neg hbad]
  | headerPart hlen =>
    rw [head_sd2, parseSd2, if_pos]
    simp only [List.length_cons]
    omega
  | @headerBad le le2 sd rest hbad =>
    have hnot : ¬ (le2 = le ∧ sd = pbSd2 ∧ 3 ≤ le) := fun h => hbad.elim (· h.1) (· h.2.1)
    rw [head_sd2, parseSd2, if_neg (by simp only [List.length_cons]; omega)]
    simp [hnot, hbad]
  | @lengthBad le rest hle =>
    have hnot : ¬ 3 ≤ le := UInt8.not_le.mpr hle
    rw [head_sd2, parseSd2, if_neg (by simp only [List.length_cons]; omega)]
    simp [hnot]
  | @sd2Part le rest hle hlen =>
    rw [head_sd2, parseSd2, if_neg (by simp only [List.length_cons]; omega)]
    simp only [List.getElem?_cons_succ, List.getElem?_cons_zero, Option.bind_eq_bind,
      Option.bind_some, hle, true_and, if_true, List.length_cons]
    rw [if_pos (by omega)]
    rfl
  | sd2 rest hle hfcs => rw [head_sd2, parseSd2_full _ _ _ _ _ _ _ hle, if_pos ⟨rfl, hfcs⟩]
  | sd2Bad rest hle hbad => rw [head_sd2, parseSd2_full _ _ _ _ _ _ _ hle, if_neg hbad]
  | other rest hsc hsd1 hsd2 => simp [head, hsc, hsd1, hsd2]

/-- Every buffer has one of them. -/
theorem exists_shape (sd : UInt8) (rest : List UInt8) : ∃ v, Shape (sd :: rest) v := by
  by_cases hsc : sd = pbSc
  · subst hsc
    exact ⟨_, .sc rest⟩
  by_cases hsd1 : sd = pbSd1
  · subst hsd1
    match rest with
    | [] | [_] | [_, _] | [_, _, _] | [_, _, _, _] => exact ⟨_, .sd1Part (by simp)⟩
    | da :: sa :: fc :: fcs :: ed :: rest =>
      by_cases h : ed = pbEd ∧ pbFcs [da, sa, fc] = fcs
      · obtain ⟨rfl, h⟩ := h
        exact ⟨_, .sd1 rest h⟩
      · exact ⟨_, .sd1Bad rest h⟩
  by_cases hsd2 : sd = pbSd2
  · subst hsd2
    match rest with
    | [] | [_] | [_, _] => exact ⟨_, .headerPart (by simp)⟩
    | le :: le2 :: sd :: rest =>
      by_cases hheader : le2 ≠ le ∨ sd ≠ pbSd2
      · exact ⟨_, .headerBad rest hheader⟩
      rw [not_or, not_not, not_not] at hheader
      obtain ⟨rfl, rfl⟩ := hheader
      by_cases hle : le2 < 3
      · exact ⟨_, .lengthBad rest hle⟩
      have hle : 3 ≤ le2 := UInt8.not_lt.mp hle
      by_cases hlen : rest.length < le2.toNat + 2
      · exact ⟨_, .sd2Part hle hlen⟩
      -- the whole frame is there
      have hthree : 3 ≤ le2.toNat := UInt8.le_iff_toNat_le.mp hle
      match rest with
      | [] | [_] | [_, _] => simp only [List.length_cons, List.length_nil] at hlen; omega
      | da :: sa :: fc :: rest =>
        simp only [List.length_cons] at hlen
        have hdata : le2.toNat = 3 + (rest.take (le2.toNat - 3)).length := by
          rw [List.length_take]
          omega
        have hrest : (rest.drop (le2.toNat - 3)).length = rest.length - (le2.toNat - 3) :=
          List.length_drop
        obtain ⟨fcs, ed, last, hlast⟩ :
            ∃ fcs ed last, rest.drop (le2.toNat - 3) = fcs :: ed :: last := by
          match hdrop : rest.drop (le2.toNat - 3) with
          | [] | [_] => simp only [hdrop, List.length_cons, List.length_nil] at hrest; omega
          | fcs :: ed :: last => exact ⟨fcs, ed, last, rfl⟩
        rw [← List.take_append_drop (le2.toNat - 3) rest, hlast]
        by_cases h : ed = pbEd ∧ pbFcs (da :: sa :: fc :: rest.take (le2.toNat - 3)) = fcs
        · obtain ⟨rfl, h⟩ := h
          exact ⟨_, .sd2 last hdata h⟩
        · exact ⟨_, .sd2Bad last hdata h⟩
  exact ⟨_, .other rest hsc hsd1 hsd2⟩

theorem shape_of_head {sd : UInt8} {rest : List UInt8} {v : Verdict Frame}
    (h : head (sd :: rest) = some v) : Shape (sd :: rest) v := by
  obtain ⟨w, hw⟩ := exists_shape sd rest
  rw [head_of_shape hw, Option.some.injEq] at h
  exact h ▸ hw

end TedgeDot.Profibus
