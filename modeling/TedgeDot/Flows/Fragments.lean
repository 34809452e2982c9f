import TedgeDot.Flows.Ownership

/-!
# What the fragments show of a point

A fragment shows a value of the point that has claimed its key. An operation on one point leaves
what the fragments show of the other points.
-/

namespace TedgeDot.Flows.ParameterState

/-- The fragment of a set shows a value of a point. -/
def Shows (s : Device) (set point key : String) (x : Json) : Prop :=
  (set, key) ∈ s.claims point ∧ (s.values set).get key = some x

/-- What is claimed and shown of the points `others` is as it was. -/
structure Leaves (others : String → Prop) (s s' : Device) : Prop where
  claims : ∀ q, others q → s'.claims q = s.claims q
  values : ∀ q, others q → ∀ set key, (set, key) ∈ s.claims q →
    (s'.values set).get key = (s.values set).get key

variable {others : String → Prop} {isOpen : String → Prop}

theorem Leaves.refl (others : String → Prop) (s : Device) : Leaves others s s :=
  ⟨fun _ _ => rfl, fun _ _ _ _ _ => rfl⟩

theorem Leaves.trans {s s' s'' : Device} (h : Leaves others s s') (h' : Leaves others s' s'') :
    Leaves others s s'' where
  claims := fun q hq => (h'.claims q hq).trans (h.claims q hq)
  values := by
    intro q hq set key hc
    have hc' : (set, key) ∈ s'.claims q := (h.claims q hq).symm ▸ hc
    exact (h'.values q hq set key hc').trans (h.values q hq set key hc)

theorem Leaves.of_records {s s' : Device} (hclaims : s'.claims = s.claims)
    (hvalues : s'.values = s.values) : Leaves others s s' :=
  ⟨fun q _ => congrFun hclaims q, fun _ _ set key _ => by rw [hvalues]⟩

theorem Leaves.shows {s s' : Device} (h : Leaves others s s') {set q key : String} {x : Json}
    (hq : others q) : Shows s' set q key x ↔ Shows s set q key x := by
  unfold Shows
  rw [h.claims q hq]
  exact and_congr_right fun hc => by rw [h.values q hq set key hc]

/-! ## Claims and drops -/

theorem claim_claims_other (s : Device) (set key : String) {point other : String}
    (hother : other ≠ point) : (claim s set key point).1.claims other = s.claims other := by
  unfold claim
  split
  · rfl
  · split
    · rfl
    · exact Function.update_of_ne hother _ _

variable {c : String × String} {w : Work}

theorem mem_claim_claims {s : Device} {set key point : String}
    (h : c ∈ (claim s set key point).1.claims point) : c ∈ s.claims point ∨ c = (set, key) := by
  unfold claim at h
  split at h
  · exact Or.inl h
  · split at h
    · exact Or.inl h
    · simpa using h

theorem claim_of_owner {s : Device} {set key point : String}
    (h : ownerOf s set key = some point) : claim s set key point = (s, true) := by
  simp [claim, h]

theorem claim_leaves (s : Device) (set key point : String) :
    Leaves (· ≠ point) s (claim s set key point).1 where
  claims := fun _ hq => claim_claims_other s set key hq
  values := fun _ _ _ _ _ => by rw [claim_values]

theorem claimAll_leaves (point key : String) (w : Work) (sets : List String) :
    Leaves (· ≠ point) w.device (claimAll point key w sets).device := by
  unfold claimAll
  induction sets generalizing w with
  | nil => exact Leaves.refl _ _
  | cons set sets ih =>
    exact (claim_leaves w.device set key point).trans
      (ih { w with device := (claim w.device set key point).1 })

theorem mem_claimAll_claims {point key : String} {sets : List String}
    (h : c ∈ (claimAll point key w sets).device.claims point) :
    c ∈ w.device.claims point ∨ (c.2 = key ∧ c.1 ∈ sets) := by
  unfold claimAll at h
  induction sets generalizing w with
  | nil => exact Or.inl h
  | cons set sets ih =>
    rcases ih h with hmid | ⟨hkey, hset⟩
    · rcases mem_claim_claims hmid with hbefore | rfl
      · exact Or.inl hbefore
      · exact Or.inr ⟨rfl, List.mem_cons_self⟩
    · exact Or.inr ⟨hkey, List.mem_cons_of_mem set hset⟩

/-- What a point drops is its own. -/
theorem dropFrom_leaves (h : Tables isOpen w.device) (point key set : String) :
    Leaves (· ≠ point) w.device (dropFrom point key w set).device := by
  unfold dropFrom
  dsimp only
  split
  · exact Leaves.refl _ _
  · next howner =>
    have hothers : ∀ q, q ≠ point → (set, key) ∉ w.device.claims q := by
      intro q hq hc
      apply howner
      rw [(h.owned set key q (h.named q _ hc)).2 hc]
      exact hq
    split
    · refine ⟨fun q hq => Function.update_of_ne hq _ _, fun q hq set' key' hc => ?_⟩
      by_cases hs : set' = set
      · subst hs
        have hk : key' ≠ key := by
          rintro rfl
          exact hothers q hq hc
        simp [get_erase, hk]
      · simp [Function.update_of_ne hs]
    · exact ⟨fun q hq => Function.update_of_ne hq _ _, fun _ _ _ _ _ => rfl⟩

theorem dropClaims_leaves (h : Tables isOpen w.device) (point : String)
    {claims : List (String × String)} (hnames : ∀ c ∈ claims, ColonFree c.1) :
    Leaves (· ≠ point) w.device (dropClaims point w claims).device := by
  unfold dropClaims
  induction claims generalizing w with
  | nil => exact Leaves.refl _ _
  | cons c claims ih =>
    obtain ⟨hfirst, hnames⟩ := List.forall_mem_cons.1 hnames
    exact (dropFrom_leaves h point c.2 c.1).trans (ih (h.dropped hfirst point c.2).1 hnames)

theorem placePoint_leaves (h : Tables isOpen w.device) (point : String)
    {sets : Option (List String)} (hsets : ∀ set ∈ sets.getD [], ColonFree set) (key : String) :
    Leaves (· ≠ point) w.device (placePoint w point sets key).device := by
  have hrecorded := h.recordedSets point hsets
  have hfirst : Leaves (· ≠ point) w.device (w.recordSets point sets).device :=
    Leaves.of_records rfl rfl
  have hdropped := dropClaims_leaves hrecorded point (hrecorded.stale_named :
    ∀ c ∈ staleClaims (w.recordSets point sets).device point (sets.getD []) key, ColonFree c.1)
  unfold placePoint
  dsimp only
  generalize dropClaims point (w.recordSets point sets) _ = w' at hdropped ⊢
  have hkeyed : Leaves (· ≠ point) w'.device (w'.recordKey point key).device :=
    Leaves.of_records rfl rfl
  exact ((hfirst.trans hdropped).trans hkeyed).trans (claimAll_leaves point key _ _)

theorem placePoint_claims (h : Tables isOpen w.device) {point : String}
    {sets : Option (List String)} (hsets : ∀ set ∈ sets.getD [], ColonFree set) {key : String}
    (hc : c ∈ (placePoint w point sets key).device.claims point) :
    c.2 = key ∧ c.1 ∈ sets.getD [] := by
  have hrecorded := h.recordedSets point hsets
  obtain ⟨-, -, hleft⟩ := hrecorded.droppedClaims point (hrecorded.stale_named :
    ∀ c ∈ staleClaims (w.recordSets point sets).device point (sets.getD []) key, ColonFree c.1)
  rcases mem_claimAll_claims hc with hbefore | hclaimed
  · obtain ⟨hheld, hkept⟩ := (hleft point c).1 hbefore
    by_contra hstale
    exact hkept ⟨rfl, List.mem_filter.2 ⟨hheld, decide_eq_true hstale⟩⟩
  · exact hclaimed

/-! ## Values -/

section Values

variable (stringify : Json → String)

theorem applyValue_cases (point key : String) (value : Json) (w : Work) (set : String) :
    ((claim w.device set key point).2 = false ∧ applyValue stringify point key value w set = w) ∨
    (claim w.device set key point).2 = true ∧
      (((property (w.device.values set) key).map stringify = some (stringify value) ∧
        applyValue stringify point key value w set =
          { w with device := (claim w.device set key point).1 }) ∨
      applyValue stringify point key value w set =
        { device := { (claim w.device set key point).1 with
            values := Function.update w.device.values set
              (setMember (w.device.values set) key value)
            sets := addTo (claim w.device set key point).1.sets set }
          changed := addTo w.changed set }) := by
  unfold applyValue
  dsimp only
  simp only [claim_values]
  split
  · next hok =>
    refine Or.inr ⟨hok, ?_⟩
    split
    · next hsame => exact Or.inl ⟨hsame, rfl⟩
    · exact Or.inr rfl
  · next hno => exact Or.inl ⟨by simpa using hno, rfl⟩

theorem applyValue_claims_other (key : String) (value : Json) (w : Work) (set : String)
    {point other : String} (hother : other ≠ point) :
    (applyValue stringify point key value w set).device.claims other = w.device.claims other := by
  have hclaim := claim_claims_other w.device set key hother
  rcases applyValue_cases stringify point key value w set with
    ⟨-, heq⟩ | ⟨-, ⟨-, heq⟩ | heq⟩
  · rw [heq]
  · rwa [heq]
  · rwa [heq]

theorem mem_applyValue_claims {point key : String} {value : Json} {w : Work} {set : String}
    {c : String × String}
    (h : c ∈ (applyValue stringify point key value w set).device.claims point) :
    c ∈ w.device.claims point ∨ c = (set, key) := by
  rcases applyValue_cases stringify point key value w set with
    ⟨-, heq⟩ | ⟨-, ⟨-, heq⟩ | heq⟩
  · exact Or.inl (heq ▸ h)
  · rw [heq] at h
    exact mem_claim_claims h
  · rw [heq] at h
    exact mem_claim_claims h

theorem applyValue_values_other (point key : String) (value : Json) (w : Work) {set other : String}
    (hother : other ≠ set) :
    (applyValue stringify point key value w set).device.values other = w.device.values other := by
  rcases applyValue_cases stringify point key value w set with
    ⟨-, heq⟩ | ⟨-, ⟨-, heq⟩ | heq⟩
  · rw [heq]
  · rw [heq]
    simp
  · rw [heq]
    exact Function.update_of_ne hother _ _

/-- Applying a value leaves every other point alone. -/
theorem applyValue_leaves {w : Work} (h : Tables isOpen w.device) {point set : String}
    (hpoint : point ≠ "") (hclosed : ¬ isOpen point) (hset : ColonFree set) (value : Json) :
    Leaves (· ≠ point) w.device
      (applyValue stringify point (keyOf w.device point) value w set).device where
  claims := fun q hq => applyValue_claims_other stringify _ value w set hq
  values := by
    intro q hq set' key hc
    by_cases hs : set' = set
    · subst hs
      have hafter := (h.appliedValue stringify hpoint hclosed hset value).1
      have hclaimed := (h.claimed hset hpoint hclosed).2
      have hc' := hc
      rw [← applyValue_claims_other stringify (keyOf w.device point) value w set' hq] at hc'
      have howned := (hafter.owned set' key q hset).2 hc'
      rcases applyValue_cases stringify point (keyOf w.device point) value w set' with
        ⟨-, heq⟩ | ⟨hok, ⟨-, heq⟩ | heq⟩
      · rw [heq]
      · rw [heq]
        simp
      · rw [heq] at howned ⊢
        -- the key that was written has another owner
        have hkey : keyOf w.device point ≠ key := by
          intro hkey
          have howner := hclaimed hok
          rw [hkey] at howner howned
          exact hq (Option.some.inj (howned.symm.trans howner))
        simp [get_setMember, hkey]
    · rw [applyValue_values_other stringify point _ value w hs]

end Values

end TedgeDot.Flows.ParameterState
