import Mathlib.Tactic.Common
import TedgeDot.Lib.Machine
import TedgeDot.Flows.ParameterState

/-!
# The ownership of parameter keys

The tables of `ot-parameter-state` agree in every state a device can reach: a point owns a key of a
set exactly when it has claimed it, every value belongs to an owner, a set holds one literal value or
keys, and the twin shows the values.

## Main definitions

- `Tables`: the invariant. The points that are open may have claims under a key that is not theirs
  any more, as in the middle of a pruning.
- `Touches`: every set whose values differ is reported.
- `Faithful`: the twin is the table of owners.

## Main result

- `twin_is_table`: every run of messages whose points have names keeps the tables and the twin.
-/

namespace TedgeDot.Flows.ParameterState

open TedgeDot.Machine

/-! ## Names of claims -/

theorem pointKey_inj {set set' key key' : String} (h : ColonFree set) (h' : ColonFree set')
    (heq : pointKey set key = pointKey set' key') : set = set' ∧ key = key' := by
  have hlists : set.toList ++ ':' :: key.toList = set'.toList ++ ':' :: key'.toList := by
    have hchars := congrArg String.toList heq
    simpa [pointKey, String.toList_append] using hchars
  -- what stands before the first colon is the set
  have hfirst : ∀ (xs ys : List Char), ':' ∉ xs → (xs ++ ':' :: ys).takeWhile (· != ':') = xs := by
    intro xs ys hxs
    have hall : ∀ c ∈ xs, (c != ':') = true := by
      intro c hc
      simpa using fun heq : c = ':' => hxs (heq ▸ hc)
    rw [List.takeWhile_append_of_pos hall]
    simp
  have hset : set.toList = set'.toList := by
    rw [← hfirst set.toList key.toList h, hlists, hfirst _ _ h']
  rw [hset] at hlists
  exact ⟨String.toList_inj.1 hset,
    String.toList_inj.1 (List.cons_eq_cons.1 (List.append_cancel_left hlists)).2⟩

/-! ## The invariant -/

/-- The four tables agree. A point that is not `open` has its claims under its key. -/
structure Tables (isOpen : String → Prop) (s : Device) : Prop where
  owned : ∀ set key p, ColonFree set → (ownerOf s set key = some p ↔ (set, key) ∈ s.claims p)
  claimant : ∀ p c, c ∈ s.claims p → p ∈ s.claimants
  named : ∀ p c, c ∈ s.claims p → ColonFree c.1
  keyed : ∀ p c, ¬ isOpen p → c ∈ s.claims p → c.2 = keyOf s p
  valued : ∀ set key, (s.values set).containsKey key = true →
    ColonFree set ∧ ∃ p, ownerOf s set key = some p
  shapes : ∀ set key p q, (set, literalKey) ∈ s.claims p → (set, key) ∈ s.claims q →
    key = literalKey
  plain : ∀ set, (s.values set).containsKey "__proto__" = false
  placed : ∀ p sets, s.placed p = some (some sets) → ∀ set ∈ sets, ColonFree set

/-- Every set whose values differ is reported, and none is forgotten. -/
structure Touches (w w' : Work) : Prop where
  kept : ∀ set ∈ w.changed, set ∈ w'.changed
  reported : ∀ set, w'.device.values set ≠ w.device.values set → set ∈ w'.changed

theorem Touches.refl (w : Work) : Touches w w := ⟨fun _ h => h, fun _ h => absurd rfl h⟩

theorem Touches.trans {w w' w'' : Work} (h : Touches w w') (h' : Touches w' w'') :
    Touches w w'' where
  kept := fun set hset => h'.kept set (h.kept set hset)
  reported := by
    intro set hne
    by_cases hsame : w'.device.values set = w.device.values set
    · exact h'.reported set (hsame ▸ hne)
    · exact h'.kept set (h.reported set hsame)

variable {w : Work} {s : Device} {set : String} {point : String} {names : Names}
  {configured : List String} {cfg : Config}

theorem Touches.of_values (h : s.values = w.device.values) : Touches w { w with device := s } :=
  ⟨fun _ hset => hset, fun set hne => absurd (congrFun h set) hne⟩

theorem mem_addTo {list : List String} {s t : String} : t ∈ addTo list s ↔ t ∈ list ∨ t = s := by
  unfold addTo
  split
  · next hin => exact ⟨Or.inl, fun h => h.elim id fun heq => heq ▸ hin⟩
  · simp

variable {isOpen : String → Prop}

theorem tables_empty (isOpen : String → Prop) : Tables isOpen Device.empty where
  owned := by simp [ownerOf, Device.empty]
  claimant := by simp [Device.empty]
  named := by simp [Device.empty]
  keyed := by simp [Device.empty]
  valued := by simp [Device.empty, JsonMap.containsKey, JsonMap.get]
  shapes := by simp [Device.empty]
  plain := by simp [Device.empty, JsonMap.containsKey, JsonMap.get]
  placed := by simp [Device.empty]

theorem Tables.mono {isOpen' : String → Prop} (h : Tables isOpen s)
    (hopen : ∀ p, isOpen p → isOpen' p) : Tables isOpen' s :=
  { h with keyed := fun p c hp hc => h.keyed p c (fun hp' => hp (hopen p hp')) hc }

theorem Tables.claimer_unique (h : Tables isOpen s) {c : String × String} {p q : String}
    (hp : c ∈ s.claims p) (hq : c ∈ s.claims q) : p = q := by
  have hname := h.named p c hp
  have hp' := (h.owned c.1 c.2 p hname).2 hp
  have hq' := (h.owned c.1 c.2 q hname).2 hq
  exact Option.some.inj (hp'.symm.trans hq')

theorem owner_ne_empty {set key p : String} (h : ownerOf s set key = some p) : p ≠ "" := by
  have := (Option.filter_eq_some_iff.1 h).2
  simpa using this

/-! ## Claiming and dropping -/

/-- One entry of the table of owners is written. -/
def Device.setPoint (s : Device) (set key : String) (owner : Option String) : Device :=
  { s with point := Function.update s.point (pointKey set key) owner }

theorem ownerOf_setPoint {set key set' key' : String} {owner : Option String} (h : ColonFree set)
    (h' : ColonFree set') :
    ownerOf (s.setPoint set key owner) set' key' =
      if set' = set ∧ key' = key then owner.filter fun p => p != "" else ownerOf s set' key' := by
  unfold ownerOf Device.setPoint
  dsimp only
  split
  · next heq => rw [heq.1, heq.2, Function.update_self]
  · next hne => rw [Function.update_of_ne fun heq => hne (pointKey_inj h' h heq)]

@[simp] theorem claim_values (s : Device) (set key point : String) :
    (claim s set key point).1.values = s.values := by
  unfold claim
  split
  · rfl
  · split <;> rfl

@[simp] theorem claim_key (s : Device) (set key point : String) :
    (claim s set key point).1.key = s.key := by
  unfold claim
  split
  · rfl
  · split <;> rfl

/-- A set that takes the point's key has keys of one shape only. -/
theorem Tables.shape_free (h : Tables isOpen s) {set point : String} (hset : ColonFree set)
    (hclosed : ¬ isOpen point) (htaken : shapeTaken s set (keyOf s point) point = false)
    {q key : String} (hq : (set, key) ∈ s.claims q) :
    key = literalKey ↔ keyOf s point = literalKey := by
  by_cases hqp : q = point
  · have hkey : key = keyOf s point := hqp ▸ h.keyed q (set, key) (hqp ▸ hclosed) hq
    rw [hkey]
  · unfold shapeTaken at htaken
    split at htaken
    · next hkey =>
      refine iff_of_false ?_ hkey
      rintro rfl
      -- its owner would be another point
      rw [(h.owned set literalKey q hset).2 hq] at htaken
      simp [hqp] at htaken
    · next hkey =>
      refine iff_of_true ?_ (not_not.1 hkey)
      by_contra hne
      have hany := List.any_eq_false.1 htaken q (h.claimant q _ hq)
      refine hany ?_
      simp only [Bool.and_eq_true, bne_iff_ne, ne_eq, List.any_eq_true, beq_iff_eq]
      exact ⟨hqp, _, hq, rfl, hne⟩

/-- A free key is given to a point. -/
theorem Tables.added {s s' : Device} (h : Tables isOpen s) {set point : String}
    (hset : ColonFree set) (hclosed : ¬ isOpen point) (hfree : ownerOf s set (keyOf s point) = none)
    (htaken : shapeTaken s set (keyOf s point) point = false)
    (howner : ∀ set' key', ColonFree set' → ownerOf s' set' key' =
      if set' = set ∧ key' = keyOf s point then some point else ownerOf s set' key')
    (hclaims : ∀ p c, c ∈ s'.claims p ↔ c ∈ s.claims p ∨ (p = point ∧ c = (set, keyOf s point)))
    (hclaimants : ∀ p, p ∈ s'.claimants ↔ p ∈ s.claimants ∨ p = point) (hkey : s'.key = s.key)
    (hvalues : s'.values = s.values) (hplaced : s'.placed = s.placed) : Tables isOpen s' where
  owned := by
    intro set' key' p hset'
    rw [howner set' key' hset', hclaims, ← h.owned set' key' p hset']
    split
    · next heq =>
      obtain ⟨rfl, rfl⟩ := heq
      simp [hfree, eq_comm]
    · next hne => simpa using fun _ hs hk => absurd ⟨hs, hk⟩ hne
  claimant := by
    intro p c hc
    rw [hclaimants]
    exact ((hclaims p c).1 hc).imp (h.claimant p c) And.left
  named := by
    intro p c hc
    rcases (hclaims p c).1 hc with hc | ⟨-, rfl⟩
    · exact h.named p c hc
    · exact hset
  keyed := by
    intro p c hp hc
    rw [keyOf, hkey]
    rcases (hclaims p c).1 hc with hc | ⟨rfl, rfl⟩
    · exact h.keyed p c hp hc
    · rfl
  valued := by
    intro set' key' hvalue
    obtain ⟨hname, p, hp⟩ := h.valued set' key' (hvalues ▸ hvalue)
    refine ⟨hname, ?_⟩
    by_cases heq : set' = set ∧ key' = keyOf s point
    · exact ⟨point, (howner set' key' hname).trans (if_pos heq)⟩
    · exact ⟨p, (howner set' key' hname).trans ((if_neg heq).trans hp)⟩
  shapes := by
    intro set' key' p q hp hq
    rcases (hclaims p _).1 hp with hp | ⟨hp, heq⟩
    · rcases (hclaims q _).1 hq with hq | ⟨-, heq'⟩
      · exact h.shapes set' key' p q hp hq
      · obtain ⟨rfl, rfl⟩ := Prod.mk.inj heq'
        exact (h.shape_free hset hclosed htaken hp).1 rfl
    · obtain ⟨rfl, hlit⟩ := Prod.mk.inj heq
      rcases (hclaims q _).1 hq with hq | ⟨-, heq'⟩
      · exact (h.shape_free hset hclosed htaken hq).2 hlit.symm
      · exact (Prod.mk.inj heq').2.trans hlit.symm
  plain := hvalues ▸ h.plain
  placed := fun p sets hp => h.placed p sets (hplaced ▸ hp)

/-- A point claims its key in a set, and gets it unless another has it. -/
theorem Tables.claimed (h : Tables isOpen s) {set point : String} (hset : ColonFree set)
    (hpoint : point ≠ "") (hclosed : ¬ isOpen point) :
    Tables isOpen (claim s set (keyOf s point) point).1 ∧
      ((claim s set (keyOf s point) point).2 = true →
        ownerOf (claim s set (keyOf s point) point).1 set (keyOf s point) = some point) := by
  unfold claim
  split
  · next owner howner => exact ⟨h, fun heq => by simpa [beq_iff_eq.1 heq] using howner⟩
  · next hfree =>
    split
    · exact ⟨h, fun hfalse => by cases hfalse⟩
    · next htaken =>
      have howner : ∀ set' key', ColonFree set' →
          ownerOf (s.setPoint set (keyOf s point) (some point)) set' key' =
            if set' = set ∧ key' = keyOf s point then some point else ownerOf s set' key' := by
        intro set' key' hset'
        rw [ownerOf_setPoint hset hset']
        simp [Option.filter, hpoint]
      refine ⟨h.added hset hclosed hfree (by simpa using htaken) howner ?_ ?_ rfl rfl rfl,
        fun _ => (howner set _ hset).trans (if_pos ⟨rfl, rfl⟩)⟩
      · intro p c
        by_cases hp : p = point
        · subst hp
          simp
        · simp [hp]
      · exact fun p => mem_addTo

/-- A key is taken from its owner. -/
theorem Tables.removed {s s' : Device} (h : Tables isOpen s) {set key : String}
    (howner : ∀ set' key', ColonFree set' → ownerOf s' set' key' =
      if set' = set ∧ key' = key then none else ownerOf s set' key')
    (hclaims : ∀ p c, c ∈ s'.claims p ↔ c ∈ s.claims p ∧ c ≠ (set, key))
    (hvalues : ∀ set' key', (s'.values set').containsKey key' = true →
      (s.values set').containsKey key' = true ∧ ¬ (set' = set ∧ key' = key))
    (hclaimants : s'.claimants = s.claimants) (hkey : s'.key = s.key)
    (hplaced : s'.placed = s.placed) : Tables isOpen s' where
  owned := by
    intro set' key' p hset'
    rw [howner set' key' hset', hclaims, ← h.owned set' key' p hset']
    by_cases heq : set' = set ∧ key' = key
    · simp [heq]
    · simp [heq]
  claimant := fun p c hc => hclaimants ▸ h.claimant p c ((hclaims p c).1 hc).1
  named := fun p c hc => h.named p c ((hclaims p c).1 hc).1
  keyed := by
    intro p c hp hc
    rw [keyOf, hkey]
    exact h.keyed p c hp ((hclaims p c).1 hc).1
  valued := by
    intro set' key' hvalue
    obtain ⟨hthere, hne⟩ := hvalues set' key' hvalue
    obtain ⟨hname, p, hp⟩ := h.valued set' key' hthere
    exact ⟨hname, p, (howner set' key' hname).trans ((if_neg hne).trans hp)⟩
  shapes := fun set' key' p q hp hq =>
    h.shapes set' key' p q ((hclaims p _).1 hp).1 ((hclaims q _).1 hq).1
  plain := fun set' => Bool.eq_false_iff.2 fun hproto =>
    Bool.eq_false_iff.1 (h.plain set') (hvalues set' "__proto__" hproto).1
  placed := fun p sets hp => h.placed p sets (hplaced ▸ hp)

theorem containsKey_erase (map : JsonMap) (key other : String) :
    JsonMap.containsKey (map.filter fun m => m.1 != other) key = true ↔
      map.containsKey key = true ∧ key ≠ other := by
  unfold JsonMap.containsKey
  rw [get_erase]
  by_cases h : key = other <;> simp [h]

/-- A point drops its key in a set, with the value. -/
theorem Tables.dropped (h : Tables isOpen w.device) (hset : ColonFree set) (point key : String) :
    Tables isOpen (dropFrom point key w set).device ∧ Touches w (dropFrom point key w set) ∧
      (∀ p c, c ∈ (dropFrom point key w set).device.claims p ↔
        c ∈ w.device.claims p ∧ ¬ (p = point ∧ c = (set, key))) := by
  unfold dropFrom
  dsimp only
  split
  · next hother =>
    refine ⟨h, Touches.refl w, fun p c => ⟨fun hc => ⟨hc, ?_⟩, And.left⟩⟩
    rintro ⟨rfl, rfl⟩
    -- a claim of the point would make it the owner
    have howner := (h.owned set key p hset).2 hc
    simp [howner] at hother
  · next hthis =>
    have hthis : (ownerOf w.device set key).getD key = point := not_not.1 hthis
    have howner : ∀ set' key', ColonFree set' →
        ownerOf (w.device.setPoint set key none) set' key' =
          if set' = set ∧ key' = key then none else ownerOf w.device set' key' := by
      intro set' key' hset'
      rw [ownerOf_setPoint hset hset']
      simp
    have honly : ∀ p, (set, key) ∈ w.device.claims p → p = point := by
      intro p hp
      have howner := (h.owned set key p hset).2 hp
      simpa [howner] using hthis
    have hclaims : ∀ p c, c ∈ Function.update w.device.claims point
        ((w.device.claims point).filter fun c => c ≠ (set, key)) p ↔
          c ∈ w.device.claims p ∧ c ≠ (set, key) := by
      intro p c
      by_cases hp : p = point
      · subst hp
        simp
      · rw [Function.update_of_ne hp]
        exact ⟨fun hc => ⟨hc, fun heq => hp (honly p (heq ▸ hc))⟩, And.left⟩
    have hgone : ∀ p c, (c ∈ w.device.claims p ∧ c ≠ (set, key)) ↔
        (c ∈ w.device.claims p ∧ ¬ (p = point ∧ c = (set, key))) := by
      intro p c
      refine and_congr_right fun hc => not_congr ⟨fun heq => ⟨honly p (heq ▸ hc), heq⟩, And.right⟩
    split
    · refine ⟨h.removed howner hclaims ?_ rfl rfl rfl, ⟨?_, ?_⟩,
        fun p c => (hclaims p c).trans (hgone p c)⟩
      · intro set' key' hvalue
        by_cases hs : set' = set
        · subst hs
          simp only [Function.update_self, containsKey_erase] at hvalue
          exact ⟨hvalue.1, fun heq => hvalue.2 heq.2⟩
        · simp only [Function.update_of_ne hs] at hvalue
          exact ⟨hvalue, fun heq => hs heq.1⟩
      · exact fun set' hset' => mem_addTo.2 (Or.inl hset')
      · intro set' hne
        by_cases hs : set' = set
        · exact mem_addTo.2 (Or.inr hs)
        · exact absurd (Function.update_of_ne hs _ _) hne
    · next hvalue =>
      refine ⟨h.removed howner hclaims ?_ rfl rfl rfl, Touches.of_values rfl,
        fun p c => (hclaims p c).trans (hgone p c)⟩
      rintro set' key' hthere
      refine ⟨hthere, ?_⟩
      rintro ⟨rfl, rfl⟩
      exact hvalue hthere

theorem Tables.droppedClaims (h : Tables isOpen w.device) (point : String)
    {claims : List (String × String)} (hnames : ∀ c ∈ claims, ColonFree c.1) :
    Tables isOpen (dropClaims point w claims).device ∧ Touches w (dropClaims point w claims) ∧
      (∀ p c, c ∈ (dropClaims point w claims).device.claims p ↔
        c ∈ w.device.claims p ∧ ¬ (p = point ∧ c ∈ claims)) := by
  induction claims generalizing w with
  | nil => exact ⟨h, Touches.refl w, fun p c => by simp [dropClaims]⟩
  | cons first claims ih =>
    obtain ⟨hfirst, hnames⟩ := List.forall_mem_cons.1 hnames
    obtain ⟨htables, htouches, hleft⟩ := h.dropped hfirst point first.2
    obtain ⟨htables', htouches', hleft'⟩ := ih htables hnames
    refine ⟨htables', htouches.trans htouches', fun p c => (hleft' p c).trans ?_⟩
    rw [hleft p c, List.mem_cons]
    tauto

theorem Tables.droppedAll (h : Tables isOpen w.device) (point : String) :
    Tables isOpen (dropClaims point w (w.device.claims point)).device ∧
      Touches w (dropClaims point w (w.device.claims point)) ∧
      (dropClaims point w (w.device.claims point)).device.claims point = [] := by
  obtain ⟨htables, htouches, hleft⟩ := h.droppedClaims point (h.named point)
  refine ⟨htables, htouches, List.eq_nil_iff_forall_not_mem.2 fun c hc => ?_⟩
  obtain ⟨hclaim, hkept⟩ := (hleft point c).1 hc
  exact hkept ⟨rfl, hclaim⟩

/-- A point that may be inconsistent, or has no claims, can be forgotten. -/
theorem Tables.forgot (h : Tables isOpen w.device)
    (hpoint : isOpen point ∨ w.device.claims point = []) :
    Tables isOpen (forgetPoint w point).device :=
  { h with
    keyed := by
      intro p c hp hc
      have hne : p ≠ point := by
        rintro rfl
        rcases hpoint with hopen | hnil
        · exact hp hopen
        · rw [show (forgetPoint w p).device.claims p = w.device.claims p from rfl, hnil] at hc
          cases hc
      have hkeyed := h.keyed p c hp hc
      simpa [forgetPoint, keyOf, Function.update_of_ne hne] using hkeyed
    placed := by
      intro p sets hp
      by_cases hne : p = point
      · simp [forgetPoint, hne] at hp
      · exact h.placed p sets (by simpa [forgetPoint, Function.update_of_ne hne] using hp) }

theorem forgetPoint_touches (w : Work) (point : String) : Touches w (forgetPoint w point) :=
  Touches.of_values rfl

/-! ## Placing a point -/

theorem Tables.claimedAll (h : Tables isOpen w.device) (hpoint : point ≠ "")
    (hclosed : ¬ isOpen point) {sets : List String} (hsets : ∀ set ∈ sets, ColonFree set)
    {key : String} (hkey : keyOf w.device point = key) :
    Tables isOpen (claimAll point key w sets).device ∧ Touches w (claimAll point key w sets) := by
  induction sets generalizing w with
  | nil => exact ⟨h, Touches.refl w⟩
  | cons set sets ih =>
    obtain ⟨hset, hsets⟩ := List.forall_mem_cons.1 hsets
    subst hkey
    have hclaim := (h.claimed hset hpoint hclosed).1
    obtain ⟨htables, htouches⟩ := ih (w := { w with
      device := (claim w.device set (keyOf w.device point) point).1 }) hclaim hsets
      (by simp [keyOf])
    exact ⟨htables, (Touches.of_values (claim_values _ _ _ _)).trans htouches⟩

theorem recordSets_touches (w : Work) (point : String) (sets : Option (List String)) :
    Touches w (w.recordSets point sets) := Touches.of_values rfl

theorem recordKey_touches (w : Work) (point key : String) : Touches w (w.recordKey point key) :=
  Touches.of_values rfl

@[simp] theorem keyOf_recordKey (w : Work) (point key : String) :
    keyOf (w.recordKey point key).device point = key := by
  simp [Work.recordKey, keyOf]

theorem Tables.recordedSets (h : Tables isOpen w.device) (point : String)
    {sets : Option (List String)} (hsets : ∀ set ∈ sets.getD [], ColonFree set) :
    Tables isOpen (w.recordSets point sets).device :=
  { h with
    placed := by
      intro p sets' hp
      by_cases hne : p = point
      · obtain rfl : sets = some sets' := by simpa [Work.recordSets, hne] using hp
        exact hsets
      · exact h.placed p sets' (by simpa [Work.recordSets, Function.update_of_ne hne] using hp) }

theorem Tables.recordedKey (h : Tables isOpen w.device) {point key : String}
    (hclaims : ∀ c ∈ w.device.claims point, c.2 = key) :
    Tables isOpen (w.recordKey point key).device :=
  { h with
    keyed := by
      intro p c hp hc
      by_cases hne : p = point
      · subst hne
        simpa [Work.recordKey, keyOf] using hclaims c hc
      · have hold := h.keyed p c hp hc
        simpa [Work.recordKey, keyOf, Function.update_of_ne hne] using hold }

theorem Tables.stale_named (h : Tables isOpen s) {point key : String} {current : List String} :
    ∀ c ∈ staleClaims s point current key, ColonFree c.1 :=
  fun c hc => h.named point c (List.mem_filter.1 hc).1

/-- Placing a point keeps the tables, and touches what it changes. -/
theorem Tables.placedPoint (h : Tables isOpen w.device) (hpoint : point ≠ "")
    (hclosed : ¬ isOpen point) {sets : Option (List String)}
    (hsets : ∀ set ∈ sets.getD [], ColonFree set) (key : String) :
    Tables isOpen (placePoint w point sets key).device ∧
      Touches w (placePoint w point sets key) := by
  have hrecorded := h.recordedSets point hsets
  obtain ⟨hdropped, htouches, hleft⟩ :=
    hrecorded.droppedClaims point
      (hrecorded.stale_named : ∀ c ∈ staleClaims (w.recordSets point sets).device point
        (sets.getD []) key, ColonFree c.1)
  -- the claims left behind are in sets that the sample names as well
  have hkept : ∀ c ∈ (dropClaims point (w.recordSets point sets)
      (staleClaims (w.recordSets point sets).device point (sets.getD []) key)).device.claims point,
      c.2 = key := by
    intro c hc
    obtain ⟨hclaim, hkept⟩ := (hleft point c).1 hc
    by_contra hother
    exact hkept ⟨rfl, List.mem_filter.2 ⟨hclaim, by simp [hother]⟩⟩
  have hkeyed := hdropped.recordedKey hkept
  obtain ⟨hclaimed, htouches'⟩ := hkeyed.claimedAll hpoint hclosed hsets (keyOf_recordKey _ _ _)
  exact ⟨hclaimed, ((recordSets_touches w point sets).trans htouches).trans
    ((recordKey_touches _ point key).trans htouches')⟩

/-! ## Values -/

/-- A value at a key that has an owner. -/
theorem Tables.valuedKey (h : Tables isOpen s) {set key p : String} (hset : ColonFree set)
    (howner : ownerOf s set key = some p) (value : Json) (sets : List String) :
    Tables isOpen { s with
      values := Function.update s.values set (setMember (s.values set) key value)
      sets := sets } :=
  { h with
    valued := by
      intro set' key' hvalue
      by_cases hs : set' = set
      · subst hs
        refine ⟨hset, ?_⟩
        by_cases hk : key = key'
        · exact ⟨p, hk ▸ howner⟩
        · refine (h.valued set' key' ?_).2
          simpa [JsonMap.containsKey, get_setMember, hk] using hvalue
      · exact h.valued set' key' (by simpa [Function.update_of_ne hs] using hvalue)
    plain := by
      intro set'
      by_cases hs : set' = set
      · subst hs
        have hplain := h.plain set'
        have hother : ¬ (key = "__proto__" ∧ key ≠ "__proto__") := fun hk => hk.2 hk.1
        simpa only [Function.update_self, JsonMap.containsKey, get_setMember, if_neg hother]
          using hplain
      · simpa [Function.update_of_ne hs] using h.plain set' }

variable (stringify : Json → String)

theorem applyValue_key (point key : String) (value : Json) (w : Work) (set : String) :
    (applyValue stringify point key value w set).device.key = w.device.key := by
  unfold applyValue
  dsimp only
  split
  · split <;> simp
  · rfl

theorem Tables.appliedValue (h : Tables isOpen w.device) (hpoint : point ≠ "")
    (hclosed : ¬ isOpen point) (hset : ColonFree set) (value : Json) :
    Tables isOpen (applyValue stringify point (keyOf w.device point) value w set).device ∧
      Touches w (applyValue stringify point (keyOf w.device point) value w set) := by
  obtain ⟨hclaimed, howner⟩ := h.claimed hset hpoint hclosed
  have hvalues := claim_values w.device set (keyOf w.device point) point
  unfold applyValue
  dsimp only
  split
  · next hok =>
    split
    · exact ⟨hclaimed, Touches.of_values hvalues⟩
    · refine ⟨hclaimed.valuedKey hset (howner hok) value _, ?_, ?_⟩
      · exact fun set' hset' => mem_addTo.2 (Or.inl hset')
      · intro set' hne
        by_cases hs : set' = set
        · exact mem_addTo.2 (Or.inr hs)
        · simp [Function.update_of_ne hs] at hne
  · exact ⟨h, Touches.refl w⟩

theorem Tables.appliedSets (h : Tables isOpen w.device) (hpoint : point ≠ "")
    (hclosed : ¬ isOpen point) {sets : List String} (hsets : ∀ set ∈ sets, ColonFree set)
    {key : String} (hkey : keyOf w.device point = key) (value : Json) :
    Tables isOpen (sets.foldl (applyValue stringify point key value) w).device ∧
      Touches w (sets.foldl (applyValue stringify point key value) w) := by
  induction sets generalizing w with
  | nil => exact ⟨h, Touches.refl w⟩
  | cons set sets ih =>
    obtain ⟨hset, hsets⟩ := List.forall_mem_cons.1 hsets
    subst hkey
    obtain ⟨htables, htouches⟩ := h.appliedValue stringify hpoint hclosed hset value
    obtain ⟨htables', htouches'⟩ := ih htables hsets (by simp [keyOf, applyValue_key])
    exact ⟨htables', htouches.trans htouches'⟩

theorem tables_foldl {α : Type} {f : Work → α → Work} {l : List α}
    (hstep : ∀ w, Tables isOpen w.device → ∀ a ∈ l, Tables isOpen (f w a).device ∧ Touches w (f w a))
    (h : Tables isOpen w.device) :
    Tables isOpen (l.foldl f w).device ∧ Touches w (l.foldl f w) := by
  induction l generalizing w with
  | nil => exact ⟨h, Touches.refl w⟩
  | cons a l ih =>
    obtain ⟨hfirst, hrest⟩ := List.forall_mem_cons.1 (hstep w h)
    obtain ⟨htables, htouches⟩ := ih (fun w hw b hb => hstep w hw b (List.mem_cons_of_mem a hb))
      hfirst.1
    exact ⟨htables, hfirst.2.trans htouches⟩

theorem Tables.appliedValues (h : Tables isOpen w.device) {updates : JsonMap}
    (hpoints : ∀ m ∈ updates, m.1 ≠ "" ∧ ¬ isOpen m.1) {resolveSets : String → Option (List String)}
    (hsets : ∀ point sets, resolveSets point = some sets → ∀ set ∈ sets, ColonFree set) :
    Tables isOpen (applyValues stringify updates resolveSets w).device ∧
      Touches w (applyValues stringify updates resolveSets w) := by
  refine tables_foldl (fun w hw m hm => ?_) h
  obtain ⟨hpoint, hclosed⟩ := hpoints m (mem_ownOrder.1 hm)
  unfold applyUpdate
  split
  · next sets hresolved =>
    exact hw.appliedSets stringify hpoint hclosed (hsets m.1 sets hresolved) rfl m.2
  · exact ⟨hw, Touches.refl w⟩

/-! ## Declarations and removed points -/

theorem mem_declarations {entries : List Json} {e : Declaration}
    (h : e ∈ declarations names entries) :
    e.point ≠ "" ∧ ∃ entry ∈ entries, e.sets = setsOf entry names := by
  obtain ⟨entry, hentry, hplace⟩ := List.mem_filterMap.1 h
  split at hplace
  · next point key hpoint hkey =>
    obtain rfl := Option.some.inj hplace
    have hne := (Option.filter_eq_some_iff.1 hpoint).2
    exact ⟨by simpa using hne, entry, hentry, rfl⟩
  · cases hplace

/-- First all surrenders, then all placements: each keeps the tables. -/
theorem Tables.appliedDeclarations (h : Tables (fun _ => False) w.device)
    (hnames : ColonFree names.forced) (protocol : String) :
    Tables (fun _ => False) (applyDeclarations w names protocol).device ∧
      Touches w (applyDeclarations w names protocol) := by
  unfold applyDeclarations
  dsimp only
  generalize hentries : declarations names (w.device.declared protocol) = entries
  have hsurrender : ∀ w, Tables (fun _ => False) w.device → ∀ e ∈ entries,
      Tables (fun _ => False) (surrender entries w e).device ∧ Touches w (surrender entries w e) := by
    intro w hw e _
    have hclaims : ∀ c ∈ surrendered w.device entries e.point, ColonFree c.1 :=
      fun c hc => hw.named e.point c (List.mem_filter.1 hc).1
    obtain ⟨htables, htouches, -⟩ := hw.droppedClaims e.point hclaims
    exact ⟨htables, htouches⟩
  have hplace : ∀ w, Tables (fun _ => False) w.device → ∀ e ∈ entries,
      Tables (fun _ => False) (placeDeclared w e).device ∧ Touches w (placeDeclared w e) := by
    intro w hw e he
    obtain ⟨hpoint, entry, -, hsets⟩ := mem_declarations (hentries ▸ he)
    refine hw.placedPoint hpoint id ?_ e.key
    simpa [hsets] using colonFree_setsOf hnames entry
  obtain ⟨hfirst, htouches⟩ := tables_foldl hsurrender h
  obtain ⟨hsecond, htouches'⟩ := tables_foldl hplace hfirst
  exact ⟨hsecond, htouches.trans htouches'⟩

theorem Tables.released (h : Tables (fun _ => False) w.device) (entry : Json) :
    Tables (fun _ => False) (releaseDeclaration w entry).device ∧
      Touches w (releaseDeclaration w entry) := by
  unfold releaseDeclaration
  split
  · next point hpoint =>
    split
    · obtain ⟨htables, htouches, hnone⟩ := h.droppedAll point
      exact ⟨htables.forgot (Or.inr hnone), htouches.trans (forgetPoint_touches _ _)⟩
    · exact ⟨h, Touches.refl w⟩
  · exact ⟨h, Touches.refl w⟩

/-- While the removed points are forgotten, their tables may be open. -/
theorem Tables.prunedSet (h : Tables (fun p => p ∉ configured) w.device) (set : String) :
    Tables (fun p => p ∉ configured) (pruneSet configured w set).device ∧
      Touches w (pruneSet configured w set) := by
  unfold pruneSet
  by_cases hset : ColonFree set
  · refine tables_foldl (fun w hw m _ => ?_) h
    unfold pruneKey
    dsimp only
    split
    · exact ⟨hw, Touches.refl w⟩
    · next hgone =>
      obtain ⟨htables, htouches, -⟩ := hw.dropped hset ((ownerOf w.device set m.1).getD m.1) m.1
      exact ⟨htables.forgot (Or.inl hgone), htouches.trans (forgetPoint_touches _ _)⟩
  · -- a set of another name has no values
    have hnone : w.device.values set = [] := by
      refine List.eq_nil_iff_forall_not_mem.2 fun m hm => hset ?_
      have hkey : (w.device.values set).containsKey m.1 = true := by
        have hkeys : m.1 ∈ Members.keys (w.device.values set) := List.mem_map_of_mem hm
        exact (Members.isSome_get_iff _ _).2 hkeys
      exact (h.valued set m.1 hkey).1
    simpa [hnone, ownOrder] using ⟨h, Touches.refl w⟩

theorem Tables.prunedPoint (h : Tables (fun p => p ∉ configured) w.device)
    (hgone : point ∉ configured) :
    Tables (fun p => p ∉ configured) (prunePoint w point).device ∧
      Touches w (prunePoint w point) ∧
      ∀ p c, c ∈ (prunePoint w point).device.claims p → c ∈ w.device.claims p ∧ p ≠ point := by
  obtain ⟨htables, htouches, hnone⟩ := h.droppedAll point
  obtain ⟨-, -, hleft⟩ := h.droppedClaims point (h.named point)
  have hsame : Function.update (dropClaims point w (w.device.claims point)).device.claims point [] =
      (dropClaims point w (w.device.claims point)).device.claims := by
    rw [← hnone, Function.update_eq_self]
  unfold prunePoint
  dsimp only
  rw [hsame]
  refine ⟨htables.forgot (Or.inl hgone), htouches.trans (forgetPoint_touches _ _), ?_⟩
  intro p c hc
  have hc : c ∈ (dropClaims point w (w.device.claims point)).device.claims p := hc
  refine ⟨((hleft p c).1 hc).1, ?_⟩
  rintro rfl
  rw [hnone] at hc
  cases hc

theorem Tables.prunedPoints {points : List String} (hgone : ∀ p ∈ points, p ∉ configured)
    (h : Tables (fun p => p ∉ configured) w.device) :
    Tables (fun p => p ∉ configured) (points.foldl prunePoint w).device ∧
      Touches w (points.foldl prunePoint w) ∧
      ∀ p c, c ∈ (points.foldl prunePoint w).device.claims p → c ∈ w.device.claims p ∧ p ∉ points := by
  induction points generalizing w with
  | nil => exact ⟨h, Touches.refl w, fun p c hc => ⟨hc, by simp⟩⟩
  | cons point points ih =>
    obtain ⟨hpoint, hgone⟩ := List.forall_mem_cons.1 hgone
    obtain ⟨htables, htouches, hleft⟩ := h.prunedPoint hpoint
    obtain ⟨htables', htouches', hleft'⟩ := ih hgone htables
    refine ⟨htables', htouches.trans htouches', fun p c hc => ?_⟩
    obtain ⟨hmid, hother⟩ := hleft' p c hc
    obtain ⟨hold, hne⟩ := hleft p c hmid
    exact ⟨hold, by simpa using ⟨hne, hother⟩⟩

/-- Pruning closes the tables again, and only configured points keep claims. -/
theorem Tables.pruned (h : Tables (fun _ => False) w.device) :
    Tables (fun _ => False) (pruneRemovedPoints w).device ∧ Touches w (pruneRemovedPoints w) ∧
      ∀ configured ∈ configuredPoints w.device, ∀ p c,
        c ∈ (pruneRemovedPoints w).device.claims p → p ∈ configured := by
  unfold pruneRemovedPoints
  split
  · next hnone => exact ⟨h, Touches.refl w, by simp [hnone]⟩
  · next configured hconfigured =>
    dsimp only
    have hopen : Tables (fun p => p ∉ configured) w.device := h.mono fun _ => False.elim
    have hpruned := tables_foldl (l := w.device.sets) (fun w hw set _ => Tables.prunedSet hw set) hopen
    obtain ⟨hsets, htouches⟩ := hpruned
    generalize w.device.sets.foldl (pruneSet configured) w = w' at hsets htouches ⊢
    have hgone : ∀ p ∈ w'.device.claimants.filter fun p => p ∉ configured, p ∉ configured :=
      fun p hp => by simpa using (List.mem_filter.1 hp).2
    obtain ⟨hpoints, htouches', hleft⟩ := Tables.prunedPoints hgone hsets
    have hclaimant := hsets.claimant
    generalize (w'.device.claimants.filter fun p => p ∉ configured).foldl prunePoint w' = w''
      at hpoints htouches' hleft ⊢
    -- whoever still has a claim is configured
    have hleftover : ∀ p c, c ∈ w''.device.claims p → p ∈ configured ∧ p ∈ w'.device.claimants := by
      intro p c hc
      obtain ⟨hold, hkept⟩ := hleft p c hc
      have hin := hclaimant p c hold
      refine ⟨?_, hin⟩
      by_contra hgone
      exact hkept (List.mem_filter.2 ⟨hin, by simpa using hgone⟩)
    refine ⟨?_, (htouches.trans htouches').trans (Touches.of_values rfl), ?_⟩
    · exact
        { hpoints with
          claimant := fun p c hc => by
            obtain ⟨hin, hold⟩ := hleftover p c hc
            exact List.mem_filter.2 ⟨hold, by simpa using hin⟩
          keyed := fun p c _ hc => hpoints.keyed p c (not_not.2 (hleftover p c hc).1) hc }
    · intro configured' hsame p c hc
      obtain rfl := Option.some.inj (hconfigured.symm.trans hsame)
      exact (hleftover p c hc).1

/-! ## Messages -/

/-- Tables that agree, with nothing open. -/
abbrev Agree (s : Device) : Prop := Tables (fun _ => False) s

/-- What a message does to the store and reports of it. -/
def Kept (s : Device) (w : Work) : Prop := Agree w.device ∧ Touches s.work w

theorem Kept.refl (h : Agree s) : Kept s s.work := ⟨h, Touches.refl _⟩

theorem Tables.of_records {s s' : Device} (h : Tables isOpen s) (hpoint : s'.point = s.point)
    (hclaims : s'.claims = s.claims) (hclaimants : s'.claimants = s.claimants)
    (hkey : s'.key = s.key) (hvalues : s'.values = s.values) (hplaced : s'.placed = s.placed) :
    Tables isOpen s' where
  owned := by simpa [ownerOf, hpoint, hclaims] using h.owned
  claimant := by simpa [hclaims, hclaimants] using h.claimant
  named := by simpa [hclaims] using h.named
  keyed := by simpa [hclaims, keyOf, hkey] using h.keyed
  valued := by simpa [hvalues, ownerOf, hpoint] using h.valued
  shapes := by simpa [hclaims] using h.shapes
  plain := by simpa [hvalues] using h.plain
  placed := by simpa [hplaced] using h.placed

theorem recordDeclared_touches (w : Work) (protocol : String) (declared : List Json) :
    Touches w (w.recordDeclared protocol declared) := Touches.of_values rfl

theorem Tables.declared (h : Agree w.device) {defaultSet : String}
    (hforced : ColonFree (trimC defaultSet)) (protocol : String) (declared : List Json) :
    Agree (declare defaultSet protocol declared w).device ∧
      Touches w (declare defaultSet protocol declared w) := by
  unfold declare
  dsimp only
  generalize (w.device.declared protocol).filter _ = gone
  have hrelease := tables_foldl (l := gone) (fun w hw entry _ => Tables.released hw entry) h
  obtain ⟨hreleased, htouches⟩ := hrelease
  have hrecorded : Agree ((gone.foldl releaseDeclaration w).recordDeclared protocol declared).device :=
    hreleased.of_records rfl rfl rfl rfl rfl rfl
  obtain ⟨happlied, htouches'⟩ := Tables.appliedDeclarations hrecorded
    (show ColonFree (naming defaultSet
      ((gone.foldl releaseDeclaration w).recordDeclared protocol declared).device.deviceType
      protocol).forced from hforced) protocol
  exact ⟨happlied, (htouches.trans (recordDeclared_touches _ _ _)).trans htouches'⟩

theorem recordType_records (s : Device) (kind : String) (payload : Json) :
    (recordType s kind payload).point = s.point ∧ (recordType s kind payload).claims = s.claims ∧
      (recordType s kind payload).claimants = s.claimants ∧
      (recordType s kind payload).key = s.key ∧ (recordType s kind payload).values = s.values ∧
      (recordType s kind payload).placed = s.placed := by
  unfold recordType
  split
  · split
    · exact ⟨rfl, rfl, rfl, rfl, rfl, rfl⟩
    · split <;> exact ⟨rfl, rfl, rfl, rfl, rfl, rfl⟩
  · exact ⟨rfl, rfl, rfl, rfl, rfl, rfl⟩

theorem recordMessage_values (s : Device) (protocol kind : String) (payload : Json) :
    (recordMessage s protocol kind payload).values = s.values :=
  (recordType_records _ kind payload).2.2.2.2.1

theorem Tables.recordedMessage (h : Agree s) (protocol kind : String) (payload : Json) :
    Agree (recordMessage s protocol kind payload) := by
  unfold recordMessage
  have hfirst : Agree { s with
      protocol := some protocol
      protocols := if kind = "sample" ∨ kind = "status" then addTo s.protocols protocol
        else s.protocols } := h.of_records rfl rfl rfl rfl rfl rfl
  obtain ⟨hpoint, hclaims, hclaimants, hkey, hvalues, hplaced⟩ := recordType_records _ kind payload
  exact hfirst.of_records hpoint hclaims hclaimants hkey hvalues hplaced

theorem Tables.reported (h : Agree s) {defaultSet : String} (hforced : ColonFree (trimC defaultSet))
    (protocol : String) (payload : Json) : Kept s (onStatus defaultSet protocol payload s) := by
  unfold onStatus
  dsimp only
  have hlisted : Agree (s.recordPoints protocol (listedPoints payload)).work.device :=
    h.of_records rfl rfl rfl rfl rfl rfl
  have hvalues : Touches s.work (s.recordPoints protocol (listedPoints payload)).work :=
    Touches.of_values rfl
  obtain ⟨hpruned, htouches, -⟩ := Tables.pruned hlisted
  generalize pruneRemovedPoints (s.recordPoints protocol (listedPoints payload)).work = w
    at hpruned htouches ⊢
  obtain ⟨happlied, htouches'⟩ := Tables.appliedDeclarations hpruned
    (show ColonFree (naming defaultSet w.device.deviceType protocol).forced from hforced) protocol
  exact ⟨happlied, (hvalues.trans htouches).trans htouches'⟩

/-- A sample keeps the tables, whatever it describes. -/
theorem Tables.sampled (h : Agree s) (hforced : ColonFree names.forced) (hpoint : point ≠ "")
    (payload : Json) : Kept s (onSample stringify names point payload s) := by
  have hsets : ∀ sets, setsFromSample payload names = some sets → ∀ set ∈ sets, ColonFree set :=
    fun sets heq => colonFree_setsFromSample hforced heq
  have hplaced : Kept s (if isDescribed payload = true then placePoint s.work point
      (setsFromSample payload names) (keyFromSample payload point) else s.work) := by
    split
    · apply Tables.placedPoint h hpoint id
      cases heq : setsFromSample payload names with
      | none => simp
      | some sets => exact hsets sets heq
    · exact Kept.refl h
  obtain ⟨htables, htouches⟩ := hplaced
  unfold onSample
  dsimp only
  split
  · next sets value heq hvalue =>
    split
    · have hresolved : ∀ point' sets', (fun _ : String => some sets) point' = some sets' →
          ∀ set ∈ sets', ColonFree set := by
        intro _ sets' heq'
        exact Option.some.inj heq' ▸ hsets sets heq
      obtain ⟨htables', htouches'⟩ := htables.appliedValues stringify
        (show ∀ m ∈ [(point, value)], m.1 ≠ "" ∧ ¬ False by simpa using hpoint) hresolved
      exact ⟨htables', htouches.trans htouches'⟩
    · exact ⟨htables, htouches⟩
  · exact ⟨htables, htouches⟩

theorem Tables.recordedPoints (h : Agree s) {points : List String}
    (hset : points = [] ∨ ColonFree set) :
    Agree (recordSets points set s) ∧ (recordSets points set s).values = s.values := by
  unfold recordSets
  induction points generalizing s with
  | nil => exact ⟨h, rfl⟩
  | cons point points ih =>
    have hset : ColonFree set := hset.resolve_left (by simp)
    simp only [List.foldl_cons]
    split
    · have hfirst := Tables.recordedSets (w := s.work) h point
        (show ∀ set' ∈ (some [set]).getD [], ColonFree set' by simpa using hset)
      exact ih hfirst (Or.inr hset)
    · exact ih h (Or.inr hset)

theorem colonFree_writtenSets (h : Agree s) (hforced : ColonFree names.forced)
    (protocol point : String) (sets : List String)
    (hsets : writtenSets names protocol s point = some sets) : ∀ set ∈ sets, ColonFree set := by
  unfold writtenSets at hsets
  split at hsets
  · cases hsets
  · split at hsets
    · obtain rfl := Option.some.inj hsets
      simpa using colonFree_setFor hforced ""
    · next sets' hplaced =>
      subst hsets
      exact h.placed point sets hplaced

/-- So does a command's result. -/
theorem Tables.commanded (h : Agree s) (hforced : ColonFree names.forced) (protocol : String)
    {verb : String} {payload : Json}
    (hnamed : (payload.get "status").bind Json.asStr = some "successful" →
      ∀ updates ∈ writtenValues verb payload, ∀ m ∈ updates, m.1 ≠ "") :
    Kept s (onCommand stringify names protocol verb payload s) := by
  unfold onCommand
  dsimp only
  split
  · exact Kept.refl h
  · next points hpoints =>
    have hset : points = [] ∨ ColonFree ((originSet payload).getD "") := by
      cases heq : originSet payload with
      | none =>
        rw [heq] at hpoints
        exact Or.inl (Option.some.inj hpoints).symm
      | some set => exact Or.inr (colonFree_of_valid (Option.filter_eq_some_iff.1 heq).2)
    obtain ⟨hrecorded, hvalues⟩ := h.recordedPoints hset
    generalize recordSets points ((originSet payload).getD "") s = s' at hrecorded hvalues ⊢
    have htouches : Touches s.work s'.work := ⟨fun _ hin => hin, fun set hne =>
      absurd (congrFun hvalues set) hne⟩
    split
    · next hsuccessful =>
      split
      · next updates hupdates =>
        have hpoints : ∀ m ∈ updates, m.1 ≠ "" ∧ ¬ False :=
          fun m hm => ⟨hnamed hsuccessful updates hupdates m hm, id⟩
        obtain ⟨htables, htouches'⟩ := Tables.appliedValues stringify (w := s'.work) hrecorded
          hpoints (colonFree_writtenSets hrecorded hforced protocol)
        exact ⟨htables, htouches.trans htouches'⟩
      · exact ⟨hrecorded, htouches⟩
    · exact ⟨hrecorded, htouches⟩

theorem Tables.described (h : Agree s) (hforced : ColonFree (trimC cfg.defaultSet))
    (device service : String) (caps : Json) :
    Kept s (onCapabilities cfg device s service caps) := by
  unfold onCapabilities
  split
  · next protocol entries _ _ =>
    dsimp only
    split
    · obtain ⟨hdeclared, htouches⟩ := Tables.declared (w := s.work) h hforced protocol
        ((entries.filter fun e => e.1 = device).map (·.2))
      exact ⟨hdeclared.of_records rfl rfl rfl rfl rfl rfl,
        htouches.trans (Touches.of_values rfl)⟩
    · exact Kept.refl h
  · exact Kept.refl h

/-! ## The flow and its twin -/

/-- The points a message gives a value or a place have names: a sample's `point` is a string, where
it counts, and a command reports no value of the empty one. -/
def Named (cfg : Config) : Event → Prop
  | .message _ kind name payload =>
    (kind = "sample" → samplePoint cfg.text name payload ≠ "" ∧
      ∀ v ∈ payload.get "point", truthy v = true → v.asStr.isSome) ∧
    (kind = "cmd" → (payload.get "status").bind Json.asStr = some "successful" →
      ∀ updates ∈ writtenValues name payload, ∀ m ∈ updates, m.1 ≠ "")
  | .capabilities _ _ => True

/-- Every message keeps the tables, and what it touches is what it publishes. -/
theorem Tables.stepped (h : Agree s) (hforced : ColonFree (trimC cfg.defaultSet)) (device : String)
    {event : Event} (hnamed : Named cfg event) :
    ∃ w, Kept s w ∧ step cfg device s event = (w.device, twinMessages w) := by
  cases event with
  | message protocol kind name payload =>
    refine ⟨onTopic cfg s protocol kind name payload, ?_, rfl⟩
    unfold onTopic
    dsimp only
    split
    · have hrecorded := h.recordedMessage protocol kind payload
      have hvalues := recordMessage_values s protocol kind payload
      generalize recordMessage s protocol kind payload = s' at hrecorded hvalues ⊢
      have hforced' : ColonFree (naming cfg.defaultSet s'.deviceType protocol).forced := hforced
      have hbefore : ∀ w, Kept s' w → Kept s w := by
        intro w hw
        refine ⟨hw.1, hw.2.kept, fun set hne => hw.2.reported set ?_⟩
        rwa [show s'.work.device.values set = s.work.device.values set from congrFun hvalues set]
      apply hbefore
      split
      · exact hrecorded.reported hforced protocol payload
      · split
        · next hsample => exact hrecorded.sampled cfg.stringify hforced' (hnamed.1 hsample).1 payload
        · split
          · next hcmd => exact hrecorded.commanded cfg.stringify hforced' protocol (hnamed.2 hcmd)
          · exact Kept.refl hrecorded
    · exact Kept.refl h
  | capabilities service caps => exact ⟨_, h.described hforced device service caps, rfl⟩

/-- The flow's store of a device, with the retained messages of its twin. -/
structure Twin where
  device : Device
  retained : String → Option Json

def Twin.initial : Twin where
  device := Device.empty
  retained _ := none

/-- Retained messages after those that are published; an empty one removes what is there. -/
def publish (retained : String → Option Json) (messages : List (String × Option Json)) :
    String → Option Json :=
  messages.foldl (fun retained m => Function.update retained m.1 m.2) retained

/-- A message for the device, and what it publishes. -/
def Twin.step (cfg : Config) (device : String) (t : Twin) (event : Event) : Twin × Unit :=
  let next := ParameterState.step cfg device t.device event
  ({ device := next.1, retained := publish t.retained next.2 }, ())

theorem publish_twinMessages (w : Work) (retained : String → Option Json) (set : String) :
    publish retained (twinMessages w) set =
      if set ∈ w.changed then twinPayload (w.device.values set) else retained set := by
  unfold publish twinMessages
  generalize w.changed = changed
  induction changed generalizing retained with
  | nil => simp
  | cons first changed ih =>
    rw [List.map_cons, List.foldl_cons, ih]
    by_cases hlater : set ∈ changed
    · simp [hlater]
    · by_cases hfirst : set = first
      · simp [hfirst]
      · simp [hlater, hfirst]

/-- The twin is the table of owners: who owns a key has claimed it and is a claimant, every value
has an owner, a literal value is alone in its set, and what is retained are the values. -/
structure Faithful (t : Twin) : Prop where
  owned : ∀ set key p, ColonFree set → (ownerOf t.device set key = some p ↔
    (set, key) ∈ t.device.claims p ∧ p ∈ t.device.claimants)
  exclusive : ∀ c p q, c ∈ t.device.claims p → c ∈ t.device.claims q → p = q
  valued : ∀ set key, (t.device.values set).containsKey key = true →
    ∃ p, ownerOf t.device set key = some p
  literal : ∀ set key, (t.device.values set).containsKey literalKey = true →
    (t.device.values set).containsKey key = true → key = literalKey
  retained : ∀ set, t.retained set = twinPayload (t.device.values set)

theorem Tables.faithful {t : Twin} (h : Agree t.device)
    (hretained : ∀ set, t.retained set = twinPayload (t.device.values set)) : Faithful t where
  owned := by
    intro set key p hset
    rw [h.owned set key p hset]
    exact ⟨fun hc => ⟨hc, h.claimant p _ hc⟩, And.left⟩
  exclusive := fun _ _ _ hp hq => h.claimer_unique hp hq
  valued := fun set key hvalue => (h.valued set key hvalue).2
  literal := by
    intro set key hliteral hvalue
    obtain ⟨hset, p, hp⟩ := h.valued set literalKey hliteral
    obtain ⟨-, q, hq⟩ := h.valued set key hvalue
    have hp' := (h.owned set literalKey p hset).1 hp
    exact h.shapes set key p q hp' ((h.owned set key q hset).1 hq)
  retained := hretained

theorem Twin.stepped {t : Twin} (h : Agree t.device)
    (hretained : ∀ set, t.retained set = twinPayload (t.device.values set))
    (hforced : ColonFree (trimC cfg.defaultSet)) (device : String) {event : Event}
    (hnamed : Named cfg event) :
    Agree (t.step cfg device event).1.device ∧
      ∀ set, (t.step cfg device event).1.retained set =
        twinPayload ((t.step cfg device event).1.device.values set) := by
  obtain ⟨w, ⟨hagree, htouches⟩, hstep⟩ := h.stepped hforced device hnamed
  unfold Twin.step
  dsimp only
  rw [hstep]
  refine ⟨hagree, fun set => ?_⟩
  rw [publish_twinMessages]
  split
  · rfl
  · next hquiet =>
    -- what is not reported has the values it had
    have hsame : w.device.values set = t.device.values set := by
      by_contra hne
      exact hquiet (htouches.reported set hne)
    rw [hretained set, hsame]

theorem Twin.final_keeps (hforced : ColonFree (trimC cfg.defaultSet)) (device : String)
    {events : List Event} (hnamed : ∀ event ∈ events, Named cfg event) {t : Twin}
    (h : Agree t.device) (hretained : ∀ set, t.retained set = twinPayload (t.device.values set)) :
    Agree (final (Twin.step cfg device) t events).device ∧
      ∀ set, (final (Twin.step cfg device) t events).retained set =
        twinPayload ((final (Twin.step cfg device) t events).device.values set) := by
  induction events generalizing t with
  | nil => exact ⟨h, hretained⟩
  | cons event events ih =>
    obtain ⟨hevent, hevents⟩ := List.forall_mem_cons.1 hnamed
    obtain ⟨hagree, hretained'⟩ := Twin.stepped h hretained hforced device hevent
    exact ih hevents hagree hretained'

theorem Twin.initial_retained (set : String) :
    Twin.initial.retained set = twinPayload (Twin.initial.device.values set) := by
  simp [Twin.initial, Device.empty, twinPayload, JsonMap.get]

theorem Twin.final_device (cfg : Config) (device : String) (t : Twin) (events : List Event) :
    (final (Twin.step cfg device) t events).device = final (ParameterState.step cfg device) t.device
      events := by
  induction events generalizing t with
  | nil => rfl
  | cons event events ih => exact ih (t.step cfg device event).1

theorem agree_final (hforced : ColonFree (trimC cfg.defaultSet)) (device : String)
    {events : List Event} (hnamed : ∀ event ∈ events, Named cfg event) (h : Agree s) :
    Agree (final (step cfg device) s events) := by
  have htwin : ∀ set, twinPayload (s.values set) = twinPayload (s.values set) := fun _ => rfl
  have hkeeps := (Twin.final_keeps hforced device hnamed
    (t := ⟨s, fun set => twinPayload (s.values set)⟩) h htwin).1
  rwa [Twin.final_device] at hkeeps

/-- After any messages, what the twin retains is each point's value in its sets, by its key. -/
theorem twin_is_table {cfg : Config} (hforced : ColonFree (trimC cfg.defaultSet))
    (device : String) (events : List Event) (hnamed : ∀ event ∈ events, Named cfg event) :
    Faithful (final (Twin.step cfg device) Twin.initial events) := by
  obtain ⟨hagree, hretained⟩ := Twin.final_keeps hforced device hnamed
    (tables_empty (fun _ => False)) Twin.initial_retained
  exact hagree.faithful hretained

section Instances

/-- A configuration without a `default_set`; numbers and texts are enough here. -/
def plainConfig : Config where
  defaultSet := ""
  stringify v := match v with
    | .number (.posInt n) => toString n.toNat
    | _ => ""
  text _ := ""

def sampleOf (point : String) (value : UInt64) : Event :=
  .message "modbus" "sample" point (.object [("point", .string point),
    ("access", .string "read_write"), ("quality", .string "good"),
    ("value", .number (.posInt value))])

def writeOf (point : String) (value : UInt64) : Event :=
  .message "modbus" "cmd" "write" (.object [("status", .string "successful"),
    ("point", .string point), ("value", .number (.posInt value))])

theorem named_sampleOf {point : String} (h : point ≠ "") (value : UInt64) :
    Named plainConfig (sampleOf point value) := by
  simp [Named, sampleOf, samplePoint, Json.get, JsonMap.get, truthy, h, Json.asStr, Option.filter]

theorem named_writeOf {point : String} (h : point ≠ "") (value : UInt64) :
    Named plainConfig (writeOf point value) := by
  have hmember : ∀ m ∈ setMember [] point (.number (.posInt value)), m.1 ≠ "" := by
    simp only [setMember]
    split <;> simp [Members.set, h]
  simpa [Named, writeOf, writtenValues, Json.get, JsonMap.get, Json.asStr] using hmember

/-- A sampled point and a written one. -/
theorem twin_is_table_two : Faithful (final (Twin.step plainConfig "meter") Twin.initial
    [sampleOf "p" 1, writeOf "q" 2]) := by
  apply twin_is_table
  · simp [ColonFree, plainConfig, trimC]
  · simp [named_sampleOf, named_writeOf]

/-- The write of a point with an empty name: its value has no owner, and stands with another key. -/
theorem nameless_write : ¬ Faithful (final (Twin.step plainConfig "meter") Twin.initial
    [writeOf "" 1, sampleOf "q" 2]) := by
  intro h
  have hliteral : ((final (Twin.step plainConfig "meter") Twin.initial
      [writeOf "" 1, sampleOf "q" 2]).device.values "modbus_control_parameters").containsKey
        literalKey = true := by decide +kernel
  have hother : ((final (Twin.step plainConfig "meter") Twin.initial
      [writeOf "" 1, sampleOf "q" 2]).device.values "modbus_control_parameters").containsKey
        "q" = true := by decide +kernel
  have hsame : "q" = literalKey := h.literal _ _ hliteral hother
  simp [literalKey] at hsame

end Instances

end TedgeDot.Flows.ParameterState
