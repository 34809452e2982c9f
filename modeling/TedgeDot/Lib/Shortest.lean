import TedgeDot.Lib.Numeral

/-!
# The shortest decimal of a float

A float is written with the fewest digits that read back as it, without an exponent. For a float
that is a natural number below `2 ^ 53` these are the digits of the number (`display_natCast`).
-/

namespace TedgeDot.Decimal

open Binary64

/-! ## Digits -/

/-- The power of ten of the first digit of a positive number. -/
def floorLog10 (q : ℚ) : Int :=
  if 1 ≤ q then (Nat.log 10 q.floor.toNat : Int) else -(Nat.clog 10 q⁻¹.ceil.toNat : Int)

/-- A decimal whose nearest float is `a`. -/
def readsBack (m : Nat) (e : Int) (a : Float) : Bool := nearest .positive (scaled m e) == a

/-- The decimal with `p + 1` digits that reads back as `a`, which is the number `q`: of the two
that `q` lies between the nearer one, and halfway the greater one. -/
def candidate (a : Float) (q : ℚ) (p : Nat) : Option (Nat × Int) :=
  let e := floorLog10 q - p
  let s := q * scaled 1 (-e)
  let m := s.floor.toNat
  let down := readsBack m e a
  let up := readsBack (m + 1) e a
  if up && (!down || 1 ≤ 2 * (s - m)) then some (m + 1, e) else if down then some (m, e) else none

/-- The shortest digits of a positive float. Seventeen are always enough. -/
def shortest (a : Float) : Option (Nat × Int) := (List.range 17).findSome? (candidate a (toRat a))

/-- Without the zeros at the end; the fuel is a bound on their number. -/
def strip : Nat → Nat → Int → Nat × Int
  | 0, m, e => (m, e)
  | fuel + 1, m, e => if m % 10 = 0 then strip fuel (m / 10) (e + 1) else (m, e)

/-- `m * 10 ^ e` in positional notation. -/
def positional (m : Nat) (e : Int) : List Char :=
  let (m, e) := strip m m e
  let digits := Nat.toDigits 10 m
  let pos := digits.length + e
  if pos ≤ 0 then '0' :: '.' :: (List.replicate (-pos).toNat '0' ++ digits)
  else if digits.length ≤ pos then digits ++ List.replicate (pos - digits.length).toNat '0'
  else digits.take pos.toNat ++ '.' :: digits.drop pos.toNat

/-- `{n}` of a finite float. -/
def display (n : Float) : Option String :=
  if n == ofInt 0 then some "0"
  else (shortest n.abs).map fun d =>
    String.ofList (if n < ofInt 0 then '-' :: positional d.1 d.2 else positional d.1 d.2)

/-! ## Natural numbers -/

theorem strip_spec (fuel : Nat) {m : Nat} (e : Int) (hm : 0 < m) : ∃ k : Nat,
    (strip fuel m e).2 = e + k ∧ m = (strip fuel m e).1 * 10 ^ k ∧ 0 < (strip fuel m e).1 := by
  induction fuel generalizing m e with
  | zero => exact ⟨0, by simp [strip], by simp [strip], hm⟩
  | succ fuel ih =>
    unfold strip
    split
    · rename_i hzero
      have hdiv := Nat.div_mul_cancel (Nat.dvd_of_mod_eq_zero hzero)
      obtain ⟨k, he, hvalue, hpos⟩ := ih (m := m / 10) (e + 1) (by omega)
      refine ⟨k + 1, by rw [he]; push_cast; ring, ?_, hpos⟩
      calc m = m / 10 * 10 := hdiv.symm
        _ = (strip fuel (m / 10) (e + 1)).1 * 10 ^ k * 10 := by rw [← hvalue]
        _ = _ := by rw [Nat.mul_assoc, ← Nat.pow_succ]
    · exact ⟨0, by simp, by simp, hm⟩

theorem toDigits_mul_pow {m : Nat} (hm : 0 < m) (k : Nat) :
    Nat.toDigits 10 (m * 10 ^ k) = Nat.toDigits 10 m ++ List.replicate k '0' := by
  induction k with
  | zero => simp
  | succ k ih =>
    have hpos : 0 < m * 10 ^ k := Nat.mul_pos hm (Nat.pow_pos (by decide))
    have happend := Nat.toDigits_append_toDigits (b := 10) (n := m * 10 ^ k) (d := 0) (by decide)
      hpos (by decide)
    have hmul : m * 10 ^ (k + 1) = 10 * (m * 10 ^ k) + 0 := by rw [Nat.pow_succ]; ring
    rw [hmul, ← happend, ih, Nat.toDigits_zero, List.append_assoc, List.replicate_succ']

theorem positional_natCast {m : Nat} {e : Int} (hm : 0 < m) (he : 0 ≤ e) :
    positional m e = Nat.toDigits 10 (m * 10 ^ e.toNat) := by
  obtain ⟨k, hexp, hvalue, hpos⟩ := strip_spec m e hm
  unfold positional
  generalize strip m m e = d at hexp hvalue hpos
  obtain ⟨m', e'⟩ := d
  simp only at hexp hvalue hpos ⊢
  subst hexp
  have hlen : 0 < (Nat.toDigits 10 m').length := List.length_pos_of_ne_nil Nat.toDigits_ne_nil
  rw [if_neg (by omega), if_pos (by omega)]
  have hcount : (((Nat.toDigits 10 m').length : Int) + (e + k) -
      (Nat.toDigits 10 m').length).toNat = k + e.toNat := by
    omega
  rw [hcount, ← toDigits_mul_pow hpos, hvalue, Nat.mul_assoc, ← Nat.pow_add]

section Integers

variable {v : Nat}

theorem floorLog10_natCast (hv : 0 < v) : floorLog10 v = Nat.log 10 v := by
  have hone : (1 : ℚ) ≤ v := by exact_mod_cast hv
  rw [floorLog10, if_pos hone]
  have hfloor : ((v : ℚ)).floor = v := by
    rw [← Int.cast_natCast, Rat.floor_intCast]
  rw [hfloor, Int.toNat_natCast]

/-- Among the natural numbers, only the number itself reads back as its float. -/
theorem readsBack_iff (hlt : v < 2 ^ 53) {m : Nat} {e : Int} (he : 0 ≤ e) :
    readsBack m e (Binary64.ofInt v) = true ↔ m * 10 ^ e.toNat = v := by
  have hscaled : scaled m e = ((m * 10 ^ e.toNat : Nat) : ℚ) := by rw [scaled, if_pos he]
  have hspec := ofInt_spec (moderate_of_lt (n := (v : Int)) (by omega) (by omega))
  unfold readsBack
  rw [hscaled]
  constructor
  · intro heq
    have hfinite : (nearest .positive ((m * 10 ^ e.toNat : Nat) : ℚ)).isFinite = true := by
      by_contra hnot
      rw [Bool.not_eq_true] at hnot
      rw [beq_of_not_finite hnot hspec.1] at heq
      cases heq
    have hrat := (beq_iff hfinite hspec.1).mp heq
    rw [toRat_nearest_nat hfinite, hspec.2, roundInt_of_le (by omega) (by omega)] at hrat
    have hround : roundInt ((m * 10 ^ e.toNat : Nat) : Int) = v := by
      have hcast : Float.Model.UnpackedFloat.Sign.positive.apply
          ((roundNat (m * 10 ^ e.toNat) : Nat) : Int) = v := by
        exact_mod_cast hrat
      rw [roundInt, if_pos (Int.natCast_nonneg _), Int.toNat_natCast]
      exact hcast
    have := eq_of_roundInt_eq (by omega) (by omega) hround
    exact_mod_cast this
  · intro heq
    have hint := nearest_int (n := (v : Int)) (Int.natCast_nonneg v)
    rw [heq, ← Int.cast_natCast, hint]
    exact (beq_iff hspec.1 hspec.1).mpr rfl

theorem candidate_natCast (hv : 0 < v) (hlt : v < 2 ^ 53) {p m : Nat} {e : Int}
    (hp : p ≤ Nat.log 10 v) (h : candidate (Binary64.ofInt v) v p = some (m, e)) :
    0 ≤ e ∧ m * 10 ^ e.toNat = v := by
  have he : 0 ≤ floorLog10 v - p := by
    rw [floorLog10_natCast hv]
    omega
  unfold candidate at h
  simp only at h
  split at h
  · rename_i hup
    rw [Bool.and_eq_true] at hup
    cases h
    exact ⟨he, (readsBack_iff hlt he).mp hup.1⟩
  · split at h
    · rename_i hdown
      cases h
      exact ⟨he, (readsBack_iff hlt he).mp hdown⟩
    · cases h

theorem candidate_log (hv : 0 < v) (hlt : v < 2 ^ 53) :
    candidate (Binary64.ofInt v) v (Nat.log 10 v) ≠ none := by
  have he : floorLog10 v - (Nat.log 10 v : Nat) = 0 := by
    rw [floorLog10_natCast hv, Int.sub_self]
  have hfloor : ((v : ℚ)).floor.toNat = v := by
    rw [← Int.cast_natCast, Rat.floor_intCast, Int.toNat_natCast]
  have hdown : readsBack v 0 (Binary64.ofInt v) = true :=
    (readsBack_iff hlt (Int.le_refl 0)).mpr (by simp)
  unfold candidate
  simp only [he, Int.neg_zero, scaled_zero, Nat.cast_one, mul_one, hfloor, hdown]
  split
  · exact Option.some_ne_none _
  · exact Option.some_ne_none _

/-- The shortest text of an integer below 2^53 is its decimals. -/
theorem shortest_natCast (hv : 0 < v) (hlt : v < 2 ^ 53) : ∃ m e,
    shortest (Binary64.ofInt v) = some (m, e) ∧ 0 ≤ e ∧ m * 10 ^ e.toNat = v := by
  have hspec := ofInt_spec (moderate_of_lt (n := (v : Int)) (by omega) (by omega))
  have hrat : toRat (Binary64.ofInt v) = v := by
    rw [hspec.2, roundInt_of_le (by omega) (by omega), Int.cast_natCast]
  have hlog : Nat.log 10 v < 17 := by
    apply Nat.log_lt_of_lt_pow hv.ne'
    exact Nat.lt_trans hlt (by decide)
  unfold shortest
  rw [hrat]
  cases hfind : (List.range 17).findSome? (candidate (Binary64.ofInt v) v) with
  | none =>
    have := List.findSome?_eq_none_iff.mp hfind _ (List.mem_range.mpr hlog)
    exact absurd this (candidate_log hv hlt)
  | some d =>
    obtain ⟨m, e⟩ := d
    obtain ⟨before, p, after, hrange, hp, hbefore⟩ := List.findSome?_eq_some_iff.mp hfind
    have hle : p ≤ Nat.log 10 v := by
      -- the digit counts before this one gave nothing, and that of the number gives something
      by_contra hgt
      have hmem : Nat.log 10 v ∈ before ++ p :: after := by
        rw [← hrange]
        exact List.mem_range.mpr hlog
      have hsorted : (before ++ p :: after).Pairwise (· < ·) := by
        rw [← hrange]
        exact List.pairwise_lt_range
      have hafter := List.pairwise_cons.mp (List.pairwise_append.mp hsorted).2.1
      rcases List.mem_append.mp hmem with hmem | hmem
      · exact candidate_log hv hlt (hbefore _ hmem)
      · rcases List.mem_cons.mp hmem with heq | hmem
        · omega
        · have := hafter.1 _ hmem
          omega
    exact ⟨m, e, rfl, candidate_natCast hv hlt hle hp⟩

end Integers

/-! ## Integers -/

theorem round_abs (s : Float.Model.UnpackedFloat.Sign) (m : Nat) (e : Int) :
    (Float.Model.UnpackedFloat.round Float.Model.Format.binary64 s m e).abs =
      Float.Model.UnpackedFloat.round Float.Model.Format.binary64 .positive m e := by
  unfold Float.Model.UnpackedFloat.round Float.Model.UnpackedFloat.roundWithAccuracy
  simp only
  split <;> rfl

/-- The absolute value of an integer's double. -/
theorem abs_ofInt {v : Int} (hne : v ≠ 0) (hmax : Moderate v) :
    (Binary64.ofInt v).abs = Binary64.ofInt v.natAbs := by
  have hofInt : Float.Model.UnpackedFloat.ofInt Float.Model.Format.binary64 (v.natAbs : Int) =
      Float.Model.UnpackedFloat.round Float.Model.Format.binary64 .positive v.natAbs 0 := by
    rw [Float.Model.UnpackedFloat.ofInt, Float.Model.UnpackedFloat.normalize,
      compare_gt_iff_gt.mpr (by omega)]
    rfl
  have hunpack : (Binary64.ofInt v).toModel.unpack.abs =
      Float.Model.UnpackedFloat.ofInt Float.Model.Format.binary64 (v.natAbs : Int) := by
    rw [hofInt]
    rcases Int.lt_or_gt_of_ne hne with hv | hv
    · rw [unpack_ofInt_of_neg hv (show (-v).toNat.log2 ≤ 1000 by
        rwa [show (-v).toNat = v.natAbs by omega]), round_abs]
      congr 1
      omega
    · rw [unpack_ofInt_of_pos hv (show v.toNat.log2 ≤ 1000 by
        rwa [show v.toNat = v.natAbs by omega]), round_abs]
      congr 1
      omega
  show Float.ofModel (Float.Model.pack (Binary64.ofInt v).toModel.unpack.abs) = _
  rw [hunpack]
  rfl

/-- An integer is displayed as it is written. -/
theorem display_ofInt {v : Int} (hlow : -2 ^ 53 < v) (hhigh : v < 2 ^ 53) :
    display (Binary64.ofInt v) = some (toString v) := by
  have hspec := ofInt_spec (moderate_of_lt (n := v) (by omega) (by omega))
  have hzero := ofInt_spec (moderate_of_lt (n := 0) (by omega) (by omega))
  have hrat : toRat (Binary64.ofInt v) = v := by
    rw [hspec.2, roundInt_of_le (by omega) (by omega)]
  have hrat0 : toRat (Binary64.ofInt 0) = 0 := by
    rw [hzero.2, roundInt_of_le (by omega) (by omega), Int.cast_zero]
  unfold display
  by_cases hv : v = 0
  · subst hv
    rw [if_pos ((beq_iff hzero.1 hzero.1).mpr rfl)]
    rfl
  · have hne : ¬ (Binary64.ofInt v == Binary64.ofInt 0) = true := by
      rw [beq_iff hspec.1 hzero.1, hrat, hrat0]
      exact_mod_cast hv
    -- the sign is written apart, and the digits are those of the absolute value
    have hneg : Binary64.ofInt v < Binary64.ofInt 0 ↔ v < 0 := by
      rw [lt_iff hspec.1 hzero.1, hrat, hrat0]
      exact_mod_cast Iff.rfl
    obtain ⟨m, e, hshortest, he, hvalue⟩ :=
      shortest_natCast (v := v.natAbs) (by omega) (by omega)
    have hm : 0 < m := by
      apply Nat.pos_of_ne_zero
      rintro rfl
      rw [Nat.zero_mul] at hvalue
      omega
    rw [if_neg hne, abs_ofInt hv (moderate_of_lt (by omega) (by omega)), hshortest, Option.map_some]
    simp only [positional_natCast hm he, hvalue, hneg]
    congr 1
    apply String.toList_inj.mp
    split
    · rename_i hlt
      rw [String.toList_ofList, toList_toString_of_neg hlt]
      congr 2
      omega
    · rename_i hge
      rw [String.toList_ofList, toList_toString_of_nonneg (by omega)]
      congr 1
      omega

end TedgeDot.Decimal
