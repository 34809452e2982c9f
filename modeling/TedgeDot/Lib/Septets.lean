import Mathlib.Data.Nat.Digits.Lemmas

/-!
# Numbers in septets

Numbers written one after the other, base 128 and the most significant septet first: a set top bit
of an octet says that the number goes on. A reader collects septets, up to a limit, and pushes each
number that ends.

- `writes_septets`, `septets_fewest`: the septets of a number write it, and no octets that write it
  are fewer.
- `fold_reads`, `reads_of_fold`: a reader takes the octets that write numbers within the limit, and
  no others.
-/

namespace TedgeDot.Septets

/-- An octet with more septets after it. -/
def continues (b : UInt8) : Bool := b &&& 0x80 != 0

theorem continues_iff {b : UInt8} : continues b = true ↔ 128 ≤ b.toNat := by
  have h : ∀ v : BitVec 8, continues ⟨v⟩ = true ↔ 128 ≤ v.toNat := by decide +kernel
  exact h b.toBitVec

/-- Read numbers and push them, from a number that has begun. -/
def fold {σ ε : Type} (push : σ → Nat → Except ε σ) (limit : Nat) (overflow : ε) :
    σ → Nat → List UInt8 → Except ε σ
  | s, _, [] => .ok s
  | s, value, b :: rest =>
    let value := value * 128 + b.toNat % 128
    if limit < value then .error overflow
    else if continues b then fold push limit overflow s value rest
    else do
      let s ← push s value
      fold push limit overflow s 0 rest

/-- Base-128 digits as octets that go on. -/
def more (ds : List Nat) : List UInt8 := ds.map fun d => UInt8.ofNat (d + 128)

/-- The number that base-128 digits stand for. -/
def value (ds : List Nat) : Nat := ds.foldl (fun v d => v * 128 + d) 0

def Writes (octets : List UInt8) (n : Nat) : Prop :=
  ∃ ds last, octets = more ds ++ [UInt8.ofNat last] ∧ (∀ d ∈ ds, d < 128) ∧ last < 128 ∧
    value (ds ++ [last]) = n

theorem toNat_more {d : Nat} (h : d < 128) : (UInt8.ofNat (d + 128)).toNat = d + 128 := by
  rw [UInt8.toNat_ofNat']
  apply Nat.mod_eq_of_lt
  omega

theorem toNat_last {d : Nat} (h : d < 128) : (UInt8.ofNat d).toNat = d := by
  rw [UInt8.toNat_ofNat']
  apply Nat.mod_eq_of_lt
  omega

theorem continues_more {d : Nat} (h : d < 128) : continues (UInt8.ofNat (d + 128)) = true := by
  rw [continues_iff, toNat_more h]
  exact Nat.le_add_left 128 d

theorem continues_last {d : Nat} (h : d < 128) : continues (UInt8.ofNat d) = false := by
  apply Bool.eq_false_iff.mpr
  rw [ne_eq, continues_iff, toNat_last h]
  exact Nat.not_le.mpr h

theorem le_foldl (ds : List Nat) (v : Nat) : v ≤ ds.foldl (fun v d => v * 128 + d) v := by
  induction ds generalizing v with
  | nil => exact Nat.le_refl v
  | cons d ds ih =>
    calc v ≤ v * 128 + d := by omega
      _ ≤ _ := ih _

section

variable {σ ε : Type} (push : σ → Nat → Except ε σ) {limit : Nat} (overflow : ε)

theorem fold_more {ds : List Nat} (hds : ∀ d ∈ ds, d < 128) (s : σ) {v : Nat} (rest : List UInt8)
    (hlimit : ds.foldl (fun v d => v * 128 + d) v ≤ limit) :
    fold push limit overflow s v (more ds ++ rest) =
      fold push limit overflow s (ds.foldl (fun v d => v * 128 + d) v) rest := by
  induction ds generalizing v with
  | nil => rfl
  | cons d ds ih =>
    have hd := hds d List.mem_cons_self
    have hstep : v * 128 + (UInt8.ofNat (d + 128)).toNat % 128 = v * 128 + d := by
      rw [toNat_more hd]
      omega
    have hle : v * 128 + d ≤ limit := Nat.le_trans (le_foldl ds _) hlimit
    show fold push limit overflow s v (UInt8.ofNat (d + 128) :: (more ds ++ rest)) = _
    rw [fold]
    simp only [hstep]
    rw [if_neg (Nat.not_lt.mpr hle), if_pos (continues_more hd)]
    exact ih (fun x hx => hds x (List.mem_cons_of_mem _ hx)) hlimit

theorem fold_writes {octets : List UInt8} {n : Nat} (h : Writes octets n) (hn : n ≤ limit) (s : σ)
    (rest : List UInt8) :
    fold push limit overflow s 0 (octets ++ rest) =
      (push s n).bind fun s => fold push limit overflow s 0 rest := by
  obtain ⟨ds, last, rfl, hds, hlast, rfl⟩ := h
  have hvalue : value (ds ++ [last]) = value ds * 128 + last := by
    unfold value
    rw [List.foldl_concat]
  have hstep : ds.foldl (fun v d => v * 128 + d) 0 * 128 + (UInt8.ofNat last).toNat % 128 =
      value (ds ++ [last]) := by
    rw [toNat_last hlast, Nat.mod_eq_of_lt hlast, hvalue]
    rfl
  have hlimit : ds.foldl (fun v d => v * 128 + d) 0 ≤ limit := by
    have hle : value ds ≤ value (ds ++ [last]) := by omega
    exact Nat.le_trans hle hn
  rw [List.append_assoc, fold_more push overflow hds s _ hlimit, List.singleton_append, fold]
  simp only [hstep]
  rw [if_neg (Nat.not_lt.mpr hn), continues_last hlast]
  rfl

end

/-! ## The septets of a number -/

theorem value_reverse (ds : List Nat) : value ds.reverse = Nat.ofDigits 128 ds := by
  unfold value
  rw [List.foldl_reverse]
  induction ds with
  | nil => rfl
  | cons d ds ih =>
    rw [List.foldr_cons, ih, Nat.ofDigits_cons]
    ring

theorem writes_of_digits {ds : List Nat} {last : Nat} (hds : ∀ d ∈ ds ++ [last], d < 128) :
    Writes (more ds ++ [UInt8.ofNat last]) (value (ds ++ [last])) :=
  ⟨ds, last, rfl, fun d hd => hds d (List.mem_append_left _ hd),
    hds last (List.mem_append_right _ List.mem_cons_self), rfl⟩

/-- The septets of a number: those that go on, and the last. -/
def septets (n : Nat) : List UInt8 :=
  more (Nat.digits 128 (n / 128)).reverse ++ [UInt8.ofNat (n % 128)]

theorem writes_septets (n : Nat) : Writes (septets n) n := by
  have hdigits : ∀ d ∈ (Nat.digits 128 (n / 128)).reverse ++ [n % 128], d < 128 := by
    intro d hd
    rcases List.mem_append.mp hd with hd | hd
    · exact Nat.digits_lt_base (by omega) (List.mem_reverse.mp hd)
    · rw [List.mem_singleton.mp hd]
      exact Nat.mod_lt n (by omega)
  have hvalue : value ((Nat.digits 128 (n / 128)).reverse ++ [n % 128]) = n := by
    have hhigh : value (Nat.digits 128 (n / 128)).reverse = n / 128 := by
      rw [value_reverse, Nat.ofDigits_digits]
    unfold value at hhigh ⊢
    rw [List.foldl_concat, hhigh]
    exact Nat.div_add_mod' n 128
  have h := writes_of_digits hdigits
  rwa [hvalue] at h

/-! ## Fewest octets -/

theorem value_concat (ds : List Nat) (last : Nat) : value (ds ++ [last]) = value ds * 128 + last := by
  unfold value
  rw [List.foldl_concat]

theorem length_more (ds : List Nat) : (more ds).length = ds.length := List.length_map _

theorem digits_value {ds : List Nat} (hds : ∀ d ∈ ds, d < 128) (hhead : ds.head? ≠ some 0) :
    (Nat.digits 128 (value ds)).reverse = ds := by
  have hvalue : value ds = Nat.ofDigits 128 ds.reverse := by
    rw [← value_reverse, List.reverse_reverse]
  rw [hvalue, Nat.digits_ofDigits 128 (by omega), List.reverse_reverse]
  · exact fun d hd => hds d (List.mem_reverse.mp hd)
  · intro hne hlast
    rw [List.getLast_reverse] at hlast
    cases ds with
    | nil => exact hne rfl
    | cons d ds => exact hhead (congrArg some hlast)

variable {octets : List UInt8}

/-- No encoding is shorter, and none other as short. -/
theorem septets_fewest {n : Nat} (h : Writes octets n) :
    (septets n).length ≤ octets.length ∧ (octets.length = (septets n).length → octets =
      septets n) := by
  obtain ⟨ds, last, rfl, hds, hlast, rfl⟩ := h
  induction ds with
  | nil =>
    have hsmall : septets (value ([] ++ [last])) = [UInt8.ofNat last] := by
      have hvalue : value ([] ++ [last]) = last := by
        simp [value]
      rw [hvalue, septets, Nat.div_eq_of_lt hlast, Nat.mod_eq_of_lt hlast]
      rfl
    rw [hsmall]
    exact ⟨le_rfl, fun _ => rfl⟩
  | cons d ds ih =>
    by_cases hzero : d = 0
    · -- a septet of zeros in front writes the same number
      have hsame : value (d :: ds ++ [last]) = value (ds ++ [last]) := by
        rw [hzero]
        rfl
      obtain ⟨hle, -⟩ := ih fun x hx => hds x (List.mem_cons_of_mem _ hx)
      rw [hsame]
      simp only [List.length_append, length_more, List.length_cons] at hle ⊢
      exact ⟨by omega, fun hlen => by omega⟩
    · have hdiv : value (d :: ds ++ [last]) / 128 = value (d :: ds) := by
        rw [value_concat]
        omega
      have hmod : value (d :: ds ++ [last]) % 128 = last := by
        rw [value_concat]
        omega
      have hdigits := digits_value hds (by simpa using hzero)
      rw [septets, hdiv, hmod, hdigits]
      exact ⟨le_rfl, fun _ => rfl⟩

/-- Octets that write numbers one after the other. -/
inductive Reads : List UInt8 → List Nat → Prop where
  | nil : Reads [] []
  | cons {octets rest : List UInt8} {n : Nat} {ns : List Nat} :
      Writes octets n → Reads rest ns → Reads (octets ++ rest) (n :: ns)

theorem Reads.eq_nil (h : Reads octets []) : octets = [] := by
  cases h
  rfl

theorem reads_septets (ns : List Nat) : Reads (ns.flatMap septets) ns := by
  induction ns with
  | nil => exact .nil
  | cons n ns ih => exact .cons (writes_septets n) ih

theorem Writes.ends {n : Nat} (h : Writes octets n) :
    ∃ b, octets.getLast? = some b ∧ continues b = false := by
  obtain ⟨ds, last, rfl, -, hlast, -⟩ := h
  exact ⟨_, List.getLast?_concat, continues_last hlast⟩

theorem Reads.ends {ns : List Nat} (h : Reads octets ns) (hne : ns ≠ []) :
    ∃ b, octets.getLast? = some b ∧ continues b = false := by
  induction h with
  | nil => exact absurd rfl hne
  | @cons octets rest n ns hwrites hreads ih =>
    cases ns with
    | nil =>
      cases hreads
      rw [List.append_nil]
      exact hwrites.ends
    | cons m ns =>
      obtain ⟨b, hb, hstop⟩ := ih (by simp)
      exact ⟨b, by rw [List.getLast?_append, hb]; rfl, hstop⟩

theorem Reads.fewest {ns : List Nat} (h : Reads octets ns) :
    (ns.flatMap septets).length ≤ octets.length ∧
      (octets.length = (ns.flatMap septets).length → octets = ns.flatMap septets) := by
  induction h with
  | nil => exact ⟨le_rfl, fun _ => rfl⟩
  | @cons octets rest n ns hwrites _ ih =>
    obtain ⟨hle, heq⟩ := septets_fewest hwrites
    simp only [List.flatMap_cons, List.length_append]
    refine ⟨Nat.add_le_add hle ih.1, fun hlen => ?_⟩
    rw [heq (by omega), ih.2 (by omega)]

section

variable {σ ε : Type} {push : σ → Nat → Except ε σ} {limit : Nat} {overflow : ε}

theorem octet_eq (b : UInt8) :
    b = UInt8.ofNat (b.toNat % 128 + if continues b = true then 128 else 0) := by
  have hb := b.toNat_lt
  apply UInt8.toNat_inj.mp
  rw [UInt8.toNat_ofNat']
  by_cases hgoes : continues b = true
  · have hlarge := continues_iff.mp hgoes
    rw [if_pos hgoes]
    omega
  · have hsmall := mt continues_iff.mpr hgoes
    rw [if_neg hgoes]
    omega

/-- What the fold accepts is a list of encoded numbers. -/
theorem reads_of_fold {content : List UInt8} {ds : List Nat} {s s' : σ}
    (hds : ∀ d ∈ ds, d < 128)
    (h : fold push limit overflow s (value ds) content = .ok s')
    (hend : ∃ b, content.getLast? = some b ∧ continues b = false) :
    ∃ ns, Reads (more ds ++ content) ns ∧ ns.foldlM push s = .ok s' ∧ ∀ n ∈ ns, n ≤ limit := by
  induction content generalizing ds s with
  | nil =>
    obtain ⟨b, hb, -⟩ := hend
    cases hb
  | cons b rest ih =>
    have hlow : b.toNat % 128 < 128 := Nat.mod_lt _ (by omega)
    have hds' : ∀ d ∈ ds ++ [b.toNat % 128], d < 128 := by
      intro d hd
      rcases List.mem_append.mp hd with hd | hd
      · exact hds d hd
      · rw [List.mem_singleton.mp hd]
        exact hlow
    rw [fold, ← value_concat] at h
    split at h
    · cases h
    rename_i hlimit
    -- the number goes on, or ends here and is pushed
    by_cases hgoes : continues b = true
    · rw [if_pos hgoes] at h
      have hrest : ∃ c, rest.getLast? = some c ∧ continues c = false := by
        obtain ⟨c, hc, hstop⟩ := hend
        cases rest with
        | nil =>
          obtain rfl : b = c := by simpa using hc
          simp [hgoes] at hstop
        | cons x rest => exact ⟨c, by simpa using hc, hstop⟩
      obtain ⟨ns, hreads, hpush, hns⟩ := ih hds' h hrest
      refine ⟨ns, ?_, hpush, hns⟩
      have hsame : more (ds ++ [b.toNat % 128]) ++ rest = more ds ++ b :: rest := by
        have hb := octet_eq b
        rw [if_pos hgoes] at hb
        rw [more, List.map_append, List.map_singleton, ← hb, List.append_assoc]
        rfl
      rw [← hsame]
      exact hreads
    · rw [if_neg hgoes] at h
      have hb := octet_eq b
      rw [if_neg hgoes, Nat.add_zero] at hb
      have hwrites : Writes (more ds ++ [b]) (value (ds ++ [b.toNat % 128])) := by
        have hw := writes_of_digits hds'
        rw [← hb] at hw
        exact hw
      have hsplit : more ds ++ b :: rest = (more ds ++ [b]) ++ rest := by simp
      rw [hsplit]
      cases hpush : push s (value (ds ++ [b.toNat % 128])) with
      | error e =>
        rw [hpush] at h
        cases h
      | ok t =>
        rw [hpush] at h
        have h : fold push limit overflow t 0 rest = .ok s' := h
        cases rest with
        | nil =>
          have hs : t = s' := by simpa [fold] using h
          refine ⟨[value (ds ++ [b.toNat % 128])], .cons hwrites .nil, ?_, ?_⟩
          · rw [List.foldlM_cons, hpush, hs]
            rfl
          · intro n hn
            rw [List.mem_singleton.mp hn]
            exact Nat.not_lt.mp hlimit
        | cons x rest =>
          obtain ⟨ns, hreads, hpushes, hns⟩ := @ih [] t (by simp) h
            (by
              obtain ⟨c, hc, hstop⟩ := hend
              exact ⟨c, by simpa using hc, hstop⟩)
          refine ⟨value (ds ++ [b.toNat % 128]) :: ns, .cons hwrites hreads, ?_, ?_⟩
          · rw [List.foldlM_cons, hpush]
            exact hpushes
          · intro n hn
            rcases List.mem_cons.mp hn with rfl | hn
            · exact Nat.not_lt.mp hlimit
            · exact hns n hn

theorem fold_reads {octets : List UInt8} {ns : List Nat} (h : Reads octets ns)
    (hns : ∀ n ∈ ns, n ≤ limit) (s : σ) :
    fold push limit overflow s 0 octets = ns.foldlM push s := by
  induction h generalizing s with
  | nil => rfl
  | @cons octets rest n ns hwrites _ ih =>
    rw [fold_writes push overflow hwrites (hns n List.mem_cons_self) s rest, List.foldlM_cons]
    cases push s n with
    | error e => rfl
    | ok t => exact ih (fun m hm => hns m (List.mem_cons_of_mem _ hm)) t

end

end TedgeDot.Septets
