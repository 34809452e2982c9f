import TedgeDot.Flows.Configuration
import TedgeDot.Flows.Fragments

/-!
# Convergence of the twin

Whatever a device went through, the fragments of its twin become those of the configuration: once
the descriptor and the link status of the configuration have been handled, in either order, and every
point that is read has delivered two samples. In the first round each such point leaves what it is
not to have; in the second nothing is in the way of what it is to have.

## Main definitions

- `Clear`: no point without samples holds what a point that is read is to have.
- `Converged`: the fragments show the latest value of every point that is read, and nothing else but
  the values of points that are only written.

## Main result

- `converges`: where the way is clear the twin converges, and the messages of the configuration
  change nothing any more.
-/

namespace TedgeDot.Flows.ParameterState

open TedgeDot.Machine

variable {isOpen : String → Prop}

/-! ## A sample -/

/-- Nobody else holds the key of the point in the set, nor the other shape of the set. -/
def Unblocked (s : Device) (point set key : String) : Prop :=
  ∀ q, q ≠ point → ∀ k, (set, k) ∈ s.claims q → k ≠ key ∧ k ≠ literalKey ∧ key ≠ literalKey

theorem Unblocked.of_leaves {s s' : Device} {point set key : String} (h : Unblocked s point set key)
    (hleaves : Leaves (· ≠ point) s s') : Unblocked s' point set key := by
  intro q hq k hk
  rw [hleaves.claims q hq] at hk
  exact h q hq k hk

/-- A point that nobody blocks in a set gets the key it claims there. -/
theorem claim_unblocked {s : Device} (h : Tables isOpen s) {point set key : String}
    (hset : ColonFree set) (hfree : Unblocked s point set key) :
    (claim s set key point).2 = true := by
  unfold claim
  split
  · next owner howner =>
    by_contra hother
    have hne : owner ≠ point := by simpa using hother
    exact (hfree owner hne key ((h.owned set key owner hset).1 howner)).1 rfl
  · split
    · next htaken =>
      exfalso
      unfold shapeTaken at htaken
      split at htaken
      · obtain ⟨q, hq, hne⟩ := (Option.any_eq_true _ _).1 htaken
        have hclaim := (h.owned set literalKey q hset).1 hq
        exact (hfree q (by simpa using hne) literalKey hclaim).2.1 rfl
      · next hliteral =>
        obtain ⟨q, -, hq⟩ := List.any_eq_true.1 htaken
        simp only [Bool.and_eq_true, bne_iff_ne, ne_eq, List.any_eq_true, beq_iff_eq] at hq
        obtain ⟨hne, c, hc, rfl, -⟩ := hq
        exact (hfree q hne c.2 hc).2.2 (not_not.1 hliteral)
    · rfl

theorem claim_claims_subset {s : Device} {set key point : String} {c : String × String}
    (h : c ∈ s.claims point) : c ∈ (claim s set key point).1.claims point := by
  unfold claim
  split
  · exact h
  · split
    · exact h
    · simp [h]

section Samples

variable (stringify : Json → String)

/-- The set has the value, by its text. -/
def Carries (s : Device) (set key : String) (value : Json) : Prop :=
  ∃ x, (s.values set).get key = some x ∧ stringify x = stringify value

variable {value : Json} {w : Work} {point : String} {sets : List String}

theorem applyValue_claims_subset {point key : String} {set : String} {c : String × String}
    (h : c ∈ w.device.claims point) :
    c ∈ (applyValue stringify point key value w set).device.claims point := by
  rcases applyValue_cases stringify point key value w set with
    ⟨-, heq⟩ | ⟨-, ⟨-, heq⟩ | heq⟩
  · rwa [heq]
  · rw [heq]
    exact claim_claims_subset h
  · rw [heq]
    exact claim_claims_subset h

theorem applyValue_keeps {point key set set' : String} (hkey : key ≠ "__proto__")
    (h : Carries stringify w.device set' key value) :
    Carries stringify (applyValue stringify point key value w set).device set' key value := by
  rcases applyValue_cases stringify point key value w set with
    ⟨-, heq⟩ | ⟨-, ⟨-, heq⟩ | heq⟩
  · rwa [heq]
  · rw [heq]
    simpa [Carries] using h
  · rw [heq]
    by_cases hs : set' = set
    · exact ⟨value, by simp [hs, get_setMember, hkey], rfl⟩
    · simpa [Carries, Function.update_of_ne hs] using h

theorem applyValue_carries (h : Tables isOpen w.device) {point set : String} (hpoint : point ≠ "")
    (hclosed : ¬ isOpen point) (hset : ColonFree set) (hkey : keyOf w.device point ≠ "__proto__")
    (hfree : Unblocked w.device point set (keyOf w.device point)) (value : Json) :
    (set, keyOf w.device point) ∈ (applyValue stringify point (keyOf w.device point) value w
        set).device.claims point ∧
      Carries stringify (applyValue stringify point (keyOf w.device point) value w set).device set
        (keyOf w.device point) value := by
  have hok := claim_unblocked h hset hfree
  obtain ⟨hclaimed, howner⟩ := h.claimed hset hpoint hclosed
  have hclaim := (hclaimed.owned set _ point hset).1 (howner hok)
  rcases applyValue_cases stringify point (keyOf w.device point) value w set with
    ⟨hno, -⟩ | ⟨-, ⟨hsame, heq⟩ | heq⟩
  · rw [hok] at hno
    cases hno
  · rw [heq]
    refine ⟨hclaim, ?_⟩
    obtain ⟨x, hx, htext⟩ := Option.map_eq_some_iff.1 hsame
    exact ⟨x, by simpa [property, hkey] using hx, htext⟩
  · rw [heq]
    exact ⟨hclaim, value, by simp [get_setMember, hkey], rfl⟩

theorem appliedSets_leaves (h : Tables isOpen w.device) (hpoint : point ≠ "")
    (hclosed : ¬ isOpen point) (hsets : ∀ set ∈ sets, ColonFree set) {own : String}
    (hown : keyOf w.device point = own) (value : Json) :
    Leaves (· ≠ point) w.device (sets.foldl (applyValue stringify point own value) w).device := by
  induction sets generalizing w with
  | nil => exact Leaves.refl _ _
  | cons set sets ih =>
    obtain ⟨hset, hsets⟩ := List.forall_mem_cons.1 hsets
    subst hown
    have hafter := (h.appliedValue stringify hpoint hclosed hset value).1
    exact (applyValue_leaves stringify h hpoint hclosed hset value).trans
      (ih hafter hsets (by rw [keyOf, applyValue_key]; rfl))

theorem mem_appliedSets_claims {point own : String} {c : String × String}
    (h : c ∈ (sets.foldl (applyValue stringify point own value) w).device.claims point) :
    c ∈ w.device.claims point ∨ (c.2 = own ∧ c.1 ∈ sets) := by
  induction sets generalizing w with
  | nil => exact Or.inl h
  | cons set sets ih =>
    rcases ih h with hmid | ⟨hkey, hset⟩
    · rcases mem_applyValue_claims stringify hmid with hbefore | rfl
      · exact Or.inl hbefore
      · exact Or.inr ⟨rfl, List.mem_cons_self⟩
    · exact Or.inr ⟨hkey, List.mem_cons_of_mem set hset⟩

/-- A sample's value stands in each set it names that lets the point have its key. -/
theorem appliedSets_carries (h : Tables isOpen w.device) (hpoint : point ≠ "")
    (hclosed : ¬ isOpen point) (hsets : ∀ set ∈ sets, ColonFree set) {own : String}
    (hown : keyOf w.device point = own) (hkey : own ≠ "__proto__")
    (hfree : ∀ set ∈ sets, Unblocked w.device point set own) (value : Json) {set : String}
    (hin : set ∈ sets ∨ (set, own) ∈ w.device.claims point ∧ Carries stringify w.device set own
      value) :
    (set, own) ∈ (sets.foldl (applyValue stringify point own value) w).device.claims point ∧
      Carries stringify (sets.foldl (applyValue stringify point own value) w).device set own
        value := by
  -- a set taken already keeps the value while the remaining ones are served
  induction sets generalizing w with
  | nil => exact hin.resolve_left List.not_mem_nil
  | cons first sets ih =>
    obtain ⟨hfirst, hsets⟩ := List.forall_mem_cons.1 hsets
    obtain ⟨hfreefirst, hfree⟩ := List.forall_mem_cons.1 hfree
    subst hown
    have hafter := (h.appliedValue stringify hpoint hclosed hfirst value).1
    have hleaves := applyValue_leaves stringify h hpoint hclosed hfirst value
    have hkeys : keyOf (applyValue stringify point (keyOf w.device point) value w first).device
        point = keyOf w.device point := by
      rw [keyOf, applyValue_key]
      rfl
    refine ih hafter hsets hkeys (fun set hset => (hfree set hset).of_leaves hleaves) ?_
    rcases hin with hin | ⟨hclaim, hcarries⟩
    · rcases List.mem_cons.1 hin with rfl | hlater
      · exact Or.inr (applyValue_carries stringify h hpoint hclosed hfirst hkey hfreefirst value)
      · exact Or.inl hlater
    · exact Or.inr ⟨applyValue_claims_subset stringify hclaim,
        applyValue_keeps stringify hkey hcarries⟩

/-- The effect of a good sample that describes its point. -/
structure Sampled (s s' : Device) (names : Names) (point : String) (payload value : Json) :
    Prop where
  leaves : Leaves (· ≠ point) s s'
  claims : ∀ c ∈ s'.claims point, c.2 = keyFromSample payload point ∧
    c.1 ∈ (setsFromSample payload names).getD []
  carries : keyFromSample payload point ≠ "__proto__" →
    (∀ set ∈ (setsFromSample payload names).getD [],
      Unblocked s point set (keyFromSample payload point)) →
    ∀ set ∈ (setsFromSample payload names).getD [],
      (set, keyFromSample payload point) ∈ s'.claims point ∧
        Carries stringify s' set (keyFromSample payload point) value

theorem keyOf_claimAll (point key : String) (w : Work) (sets : List String) (p : String) :
    keyOf (claimAll point key w sets).device p = keyOf w.device p := by
  unfold claimAll
  induction sets generalizing w with
  | nil => rfl
  | cons set sets ih =>
    refine (ih { w with device := (claim w.device set key point).1 }).trans ?_
    simp [keyOf]

theorem keyOf_placePoint (w : Work) (point : String) (sets : Option (List String)) (key : String) :
    keyOf (placePoint w point sets key).device point = key := by
  unfold placePoint
  dsimp only
  rw [keyOf_claimAll, keyOf_recordKey]

/-- What a good sample does: the point is where the sample says, and its value with it. -/
theorem onSample_sampled {s : Device} (h : Agree s) {names : Names}
    (hforced : ColonFree names.forced) (hpoint : point ≠ "") {payload value : Json}
    (hdescribed : isDescribed payload = true)
    (hquality : payload.get "quality" = some (.string "good"))
    (hvalue : payload.get "value" = some value) :
    Sampled stringify s (onSample stringify names point payload s).device names point payload
      value := by
  have hsets : ∀ set ∈ (setsFromSample payload names).getD [], ColonFree set := by
    cases heq : setsFromSample payload names with
    | none => simp
    | some sets => exact colonFree_setsFromSample hforced heq
  have hplaced := (Tables.placedPoint (w := s.work) h hpoint id hsets
    (keyFromSample payload point)).1
  have hleaves := placePoint_leaves (w := s.work) h point hsets (keyFromSample payload point)
  have hclaims : ∀ c ∈ (placePoint s.work point (setsFromSample payload names)
      (keyFromSample payload point)).device.claims point, c.2 = keyFromSample payload point ∧
      c.1 ∈ (setsFromSample payload names).getD [] :=
    fun c hc => placePoint_claims (w := s.work) h hsets hc
  have hkey := keyOf_placePoint s.work point (setsFromSample payload names)
    (keyFromSample payload point)
  have hgood : (payload.get "quality").bind Json.asStr = some "good" := by rw [hquality]; rfl
  unfold onSample
  dsimp only
  rw [if_pos hdescribed, hvalue]
  -- the rest of the sample works on the store the point is placed in
  generalize placePoint s.work point (setsFromSample payload names)
    (keyFromSample payload point) = w at hplaced hleaves hclaims hkey ⊢
  cases heq : setsFromSample payload names with
  | none =>
    rw [heq] at hclaims
    exact ⟨hleaves, fun c hc => by simpa [heq] using hclaims c hc, fun _ _ => by simp [heq]⟩
  | some sets =>
    rw [heq] at hclaims hsets
    have hone : applyValues stringify [(point, value)] (fun _ => some sets) w =
        sets.foldl (applyValue stringify point (keyOf w.device point) value) w := by
      cases harray : arrayIndex point <;> simp [applyValues, ownOrder, harray, applyUpdate]
    simp only [hgood, if_true, hone]
    rw [hkey]
    constructor
    · exact hleaves.trans (appliedSets_leaves stringify hplaced hpoint id hsets hkey value)
    · intro c hc
      rw [heq]
      rcases mem_appliedSets_claims stringify hc with hbefore | hclaimed
      · exact hclaims c hbefore
      · exact hclaimed
    · intro hplain hfree set hset
      rw [heq] at hfree hset
      exact appliedSets_carries stringify hplaced hpoint id hsets hkey hplain
        (fun set hset => (hfree set hset).of_leaves hleaves) value (Or.inl hset)

end Samples

/-! ## Declarations -/

theorem dropClaims_key (point : String) (w : Work) (claims : List (String × String)) :
    (dropClaims point w claims).device.key = w.device.key := by
  unfold dropClaims
  induction claims generalizing w with
  | nil => rfl
  | cons c claims ih =>
    refine (ih _).trans ?_
    unfold dropFrom
    dsimp only
    split
    · rfl
    · split <;> rfl

theorem keyOf_placePoint_other (w : Work) (point : String) (sets : Option (List String))
    (key : String) {other : String} (hother : other ≠ point) :
    keyOf (placePoint w point sets key).device other = keyOf w.device other := by
  unfold placePoint
  dsimp only
  rw [keyOf_claimAll]
  simp only [keyOf, Work.recordKey, Function.update_of_ne hother, dropClaims_key]
  rfl

/-- What holds of the claims and the key of a point after its declarations: they are those of one
of its entries, or as they were. -/
def DeclaredAs (entries : List Declaration) (s s' : Device) (q : String) : Prop :=
  (∃ e ∈ entries, e.point = q ∧ keyOf s' q = e.key ∧ ∀ c ∈ s'.claims q, c.2 = e.key ∧ c.1 ∈ e.sets) ∨
    ((∀ e ∈ entries, e.point ≠ q) ∧ keyOf s' q = keyOf s q ∧ ∀ c ∈ s'.claims q, c ∈ s.claims q)

variable {w : Work} {names : Names} {event : Event} {payload : Json} {caps : Json} {s : Device}
  {e : Declaration} {p : ConfiguredPoint} {value : Json}
  {deliveries : List (ConfiguredPoint × Json)} {events : List Event}

/-- After the declared entries a point is where one of its own puts it, or where it was. -/
theorem placed_declaredAs {entries : List Declaration}
    (hsets : ∀ e ∈ entries, e.point ≠ "" ∧ ∀ set ∈ e.sets, ColonFree set) (h : Agree w.device)
    (q : String) : DeclaredAs entries w.device (entries.foldl placeDeclared w).device q := by
  induction entries generalizing w with
  | nil => exact Or.inr ⟨by simp, rfl, fun _ hc => hc⟩
  | cons e entries ih =>
    obtain ⟨⟨hpoint, hfirst⟩, hsets⟩ := List.forall_mem_cons.1 hsets
    have hfirst : ∀ set ∈ (some e.sets).getD [], ColonFree set := hfirst
    have hafter := (h.placedPoint hpoint id hfirst e.key).1
    rcases ih hsets hafter with ⟨e', he', hdone⟩ | ⟨hnone, hkey, hclaims⟩
    · exact Or.inl ⟨e', List.mem_cons_of_mem e he', hdone⟩
    · by_cases hq : e.point = q
      · subst hq
        refine Or.inl ⟨e, List.mem_cons_self, rfl, hkey.trans (keyOf_placePoint _ _ _ _), ?_⟩
        exact fun c hc => placePoint_claims h hfirst (hclaims c hc)
      · have hleaves := placePoint_leaves h e.point hfirst e.key
        refine Or.inr ⟨List.forall_mem_cons.2 ⟨hq, hnone⟩,
          hkey.trans (keyOf_placePoint_other _ _ _ _ (Ne.symm hq)), fun c hc => ?_⟩
        have hbefore := hclaims c hc
        rwa [hleaves.claims q (Ne.symm hq)] at hbefore

theorem surrendered_claims (entries list : List Declaration) (h : Agree w.device) :
    Agree (list.foldl (surrender entries) w).device ∧
      (list.foldl (surrender entries) w).device.key = w.device.key ∧
      ∀ q, ∀ c ∈ (list.foldl (surrender entries) w).device.claims q, c ∈ w.device.claims q := by
  induction list generalizing w with
  | nil => exact ⟨h, rfl, fun _ _ hc => hc⟩
  | cons e list ih =>
    have hnames : ∀ c ∈ surrendered w.device entries e.point, ColonFree c.1 :=
      fun c hc => h.named e.point c (List.mem_filter.1 hc).1
    obtain ⟨hafter, -, hleft⟩ := h.droppedClaims e.point hnames
    obtain ⟨hagree, hkey, hclaims⟩ := ih hafter
    exact ⟨hagree, hkey.trans (dropClaims_key _ _ _),
      fun q c hc => ((hleft q c).1 (hclaims q c hc)).1⟩

theorem mem_declarations_sets (hforced : ColonFree names.forced) (entries : List Json) :
    ∀ e ∈ declarations names entries,
      e.point ≠ "" ∧ ∀ set ∈ e.sets, ColonFree set := by
  intro e he
  obtain ⟨hpoint, entry, -, hsets⟩ := mem_declarations he
  exact ⟨hpoint, hsets ▸ colonFree_setsOf hforced entry⟩

theorem applyDeclarations_declaredAs (h : Agree w.device) (hforced : ColonFree names.forced)
    (protocol : String) (q : String) :
    DeclaredAs (declarations names (w.device.declared protocol)) w.device
      (applyDeclarations w names protocol).device q := by
  unfold applyDeclarations
  dsimp only
  have hsets := mem_declarations_sets hforced (w.device.declared protocol)
  generalize declarations names (w.device.declared protocol) = entries at hsets ⊢
  obtain ⟨hagree, hkey, hclaims⟩ := surrendered_claims entries entries h
  rcases placed_declaredAs hsets hagree q with hdone | ⟨hnone, hkey', hclaims'⟩
  · exact Or.inl hdone
  · refine Or.inr ⟨hnone, hkey'.trans ?_, fun c hc => hclaims q c (hclaims' c hc)⟩
    rw [keyOf, hkey]
    rfl

/-! ## Releases -/

/-- What a descriptor that lets an entry go does to the claims of a point. -/
theorem release_claims (h : Agree w.device) (entry : Json) {q : String} :
    (∀ c ∈ (releaseDeclaration w entry).device.claims q, c ∈ w.device.claims q) ∧
      (entryPoint entry = some q → declaredKey entry = some (keyOf w.device q) →
        (releaseDeclaration w entry).device.claims q = []) ∧
      ((releaseDeclaration w entry).device.claims q = [] ∨
        keyOf (releaseDeclaration w entry).device q = keyOf w.device q) := by
  unfold releaseDeclaration
  cases hpoint : entryPoint entry with
  | none => exact ⟨fun _ hc => hc, by simp, Or.inr rfl⟩
  | some point =>
    dsimp only
    obtain ⟨-, -, hnone⟩ := h.droppedAll point
    obtain ⟨-, -, hleft⟩ := h.droppedClaims point (h.named point)
    split
    · next hkey =>
      refine ⟨fun c hc => ((hleft q c).1 hc).1, ?_, ?_⟩
      · rintro heq -
        obtain rfl := Option.some.inj heq
        exact hnone
      · by_cases hq : q = point
        · subst hq
          exact Or.inl hnone
        · right
          simp [forgetPoint, keyOf, Function.update_of_ne hq, dropClaims_key]
    · next hkey =>
      refine ⟨fun _ hc => hc, ?_, Or.inr rfl⟩
      rintro heq hsame
      obtain rfl := Option.some.inj heq
      exact absurd hsame.symm hkey

/-- A point loses all its claims if an entry let go is its own. -/
theorem released_claims (list : List Json) (h : Agree w.device) (q : String) :
    (∀ c ∈ (list.foldl releaseDeclaration w).device.claims q, c ∈ w.device.claims q) ∧
      ((∃ entry ∈ list, entryPoint entry = some q ∧ declaredKey entry = some (keyOf w.device q)) →
        (list.foldl releaseDeclaration w).device.claims q = []) := by
  induction list generalizing w with
  | nil => exact ⟨fun _ hc => hc, by simp⟩
  | cons entry list ih =>
    obtain ⟨hsubset, hgone, hkeep⟩ := release_claims h entry (q := q)
    obtain ⟨hsubset', hgone'⟩ := ih (h.released entry).1
    have hempty : (releaseDeclaration w entry).device.claims q = [] →
        ((entry :: list).foldl releaseDeclaration w).device.claims q = [] := by
      intro hnil
      refine List.eq_nil_iff_forall_not_mem.2 fun c hc => ?_
      have hbefore := hsubset' c hc
      rw [hnil] at hbefore
      cases hbefore
    refine ⟨fun c hc => hsubset c (hsubset' c hc), ?_⟩
    rintro ⟨entry', hentry', hpoint, hkey⟩
    rcases List.mem_cons.1 hentry' with rfl | hlater
    · exact hempty (hgone hpoint hkey)
    · rcases hkeep with hnil | hkept
      · exact hempty hnil
      · exact hgone' ⟨entry', hlater, hpoint, hkept ▸ hkey⟩

/-! ## What was heard -/

/-- Records of a device that only this connector serves. -/
structure Alone (conf : Configuration) (src : Sources) : Prop where
  protocols : src.protocols = [] ∨ src.protocols = [conf.protocol]
  declaring : ∀ service ∈ src.declaring, service = conf.service
  declared : src.declared conf.protocol ≠ [] → conf.service ∈ src.declaring

/-- The link status of the configuration was the last one. -/
structure Told (conf : Configuration) (src : Sources) : Prop where
  type : src.deviceType = conf.deviceType
  protocols : src.protocols = [conf.protocol]
  points : src.points conf.protocol = some conf.ids

variable {cfg : Config} {conf : Configuration} {src : Sources}

theorem addTo_protocols (h : src.protocols = [] ∨ src.protocols = [conf.protocol]) :
    addTo src.protocols conf.protocol = [conf.protocol] := by
  rcases h with h | h <;> simp [addTo, h]

theorem Alone.hearMessage (h : Alone conf src) {protocol kind : String}
    (hserves : kind = "sample" ∨ kind = "status" → protocol = conf.protocol) (payload : Json) :
    Alone conf (src.hearMessage protocol kind payload) := by
  refine ⟨?_, h.declaring, h.declared⟩
  unfold Sources.hearMessage
  dsimp only
  split
  · next hkind =>
    rw [hserves hkind]
    exact Or.inr (addTo_protocols h.protocols)
  · exact h.protocols

theorem Alone.hearDescriptor (h : Alone conf src) (declared : List Json) :
    Alone conf (src.hearDescriptor conf.service conf.protocol declared) := by
  unfold Sources.hearDescriptor
  split
  · refine ⟨h.protocols, ?_, ?_⟩
    · intro service hservice
      dsimp only at hservice
      split at hservice
      · exact h.declaring service (List.mem_filter.1 hservice).1
      · exact (mem_addTo.1 hservice).elim (h.declaring service) id
    · intro hsome
      have hnonempty : declared ≠ [] := by simpa using hsome
      simp [hnonempty, mem_addTo]
  · exact h

/-- Messages that the connector may send leave it the only one that serves the device. -/
theorem Alone.hear (h : Alone conf src) (hserves : conf.Serves event) :
    Alone conf (src.hear conf.device event) := by
  cases event with
  | message protocol kind name payload =>
    unfold Sources.hear
    dsimp only
    split
    · exact h.hearMessage hserves payload
    · exact h
  | capabilities service caps =>
    unfold Sources.hear
    dsimp only
    split
    · next protocol listed hprotocol hlisted =>
      obtain ⟨hown, hother⟩ := hserves
      by_cases hservice : service = conf.service
      · obtain rfl := hown hservice protocol hprotocol
        subst hservice
        exact h.hearDescriptor _
      · -- another service lists nothing of the device, and never did
        have hnone : (listed.filter fun e => e.1 = conf.device) = [] :=
          List.filter_eq_nil_iff.2 fun e he => by simpa using hother hservice listed hlisted e he
        have hquiet : src.hearDescriptor service protocol [] = src := by
          unfold Sources.hearDescriptor
          rw [if_neg]
          simpa using fun hin => hservice (h.declaring service hin)
        simpa [hnone, hquiet] using h
    · exact h

theorem Alone.heard (history : List Event) (hserves : ∀ event ∈ history, conf.Serves event)
    (h : Alone conf src) : Alone conf (history.foldl (Sources.hear conf.device) src) := by
  induction history generalizing src with
  | nil => exact h
  | cons event history ih =>
    obtain ⟨hevent, hhistory⟩ := List.forall_mem_cons.1 hserves
    exact ih hhistory (h.hear hevent)

/-- The link status and the descriptor of the configuration, and a sample of a point. -/
def statusEvent (conf : Configuration) (payload : Json) : Event :=
  .message conf.protocol "status" "link" payload

def descriptorEvent (conf : Configuration) (caps : Json) : Event :=
  .capabilities conf.service caps

theorem typeAfter_said (h : conf.SaysType payload) {deviceType kind : String}
    (hkind : kind = "status" ∨ (kind = "sample" ∧ deviceType = conf.deviceType)) :
    typeAfter deviceType kind payload = conf.deviceType := by
  have hsaid : textOf payload "type" = (some conf.deviceType).filter fun type => type != "" := h
  unfold typeAfter
  by_cases hempty : conf.deviceType = ""
  · rcases hkind with rfl | ⟨rfl, rfl⟩ <;> simp [hsaid, hempty, Option.filter]
  · rcases hkind with rfl | ⟨rfl, rfl⟩ <;> simp [hsaid, hempty, Option.filter]

theorem Alone.told (h : Alone conf src) (hlists : conf.Lists payload) :
    Told conf (src.hear conf.device (statusEvent conf payload)) := by
  obtain ⟨hobject, htype, hlisted⟩ := hlists
  simp only [Sources.hear, statusEvent, hobject, if_true]
  exact ⟨typeAfter_said htype (Or.inl rfl), by simp [Sources.hearMessage, addTo_protocols h.protocols],
    by simp [Sources.hearMessage, hlisted]⟩

theorem hear_descriptor (hdescribes : conf.Describes caps) :
    src.hear conf.device (descriptorEvent conf caps) =
      src.hearDescriptor conf.service conf.protocol conf.entries := by
  obtain ⟨hprotocol, listed, hlisted, hentries⟩ := hdescribes
  simp only [Sources.hear, descriptorEvent, hprotocol, hlisted, hentries]

theorem Alone.described (h : Alone conf src) (hdescribes : conf.Describes caps) :
    (src.hear conf.device (descriptorEvent conf caps)).declared conf.protocol = conf.entries := by
  rw [hear_descriptor hdescribes]
  unfold Sources.hearDescriptor
  split
  · simp
  · next hquiet =>
    have hboth : conf.service ∉ src.declaring ∧ conf.entries = [] := by simpa using hquiet
    rw [hboth.2]
    by_contra hsome
    exact hboth.1 (h.declared hsome)

theorem Told.described (h : Told conf src) (hdescribes : conf.Describes caps) :
    Told conf (src.hear conf.device (descriptorEvent conf caps)) := by
  rw [hear_descriptor hdescribes]
  unfold Sources.hearDescriptor
  split
  · exact ⟨h.type, h.protocols, h.points⟩
  · exact h

theorem hear_status_declared (payload : Json) :
    (src.hear conf.device (statusEvent conf payload)).declared = src.declared := by
  unfold Sources.hear statusEvent
  dsimp only
  split <;> rfl

/-! ## The store after the configuration's messages -/

/-- The store in which the removed points of a link status are looked for. -/
def listedStore (conf : Configuration) (s : Device) (payload : Json) : Work :=
  ((recordMessage s conf.protocol "status" payload).recordPoints conf.protocol
    (listedPoints payload)).work

/-- The link status prunes what is no longer listed and applies the declarations again. -/
theorem step_status (s : Device) (hlists : conf.Lists payload) :
    step cfg conf.device s (statusEvent conf payload) =
      ((applyDeclarations (pruneRemovedPoints (listedStore conf s payload)) (conf.names cfg)
        conf.protocol).device,
      twinMessages (applyDeclarations (pruneRemovedPoints (listedStore conf s payload))
        (conf.names cfg) conf.protocol)) := by
  have htype : (pruneRemovedPoints (listedStore conf s payload)).device.deviceType =
      conf.deviceType := by
    have hsources := pruneRemovedPoints_sources (listedStore conf s payload)
    refine (congrArg Sources.deviceType hsources).trans ?_
    exact (congrArg Sources.deviceType (recordType_sources _ "status" payload)).trans
      (typeAfter_said hlists.2.1 (Or.inl rfl))
  have htopic : onTopic cfg s conf.protocol "status" "link" payload =
      applyDeclarations (pruneRemovedPoints (listedStore conf s payload)) (conf.names cfg)
        conf.protocol := by
    unfold onTopic
    rw [if_pos hlists.1]
    dsimp only
    rw [if_pos rfl]
    unfold onStatus
    dsimp only
    rw [Configuration.names, ← htype]
    rfl
  unfold step statusEvent
  dsimp only
  rw [htopic]

theorem configuredPoints_listedStore
    (hserved : s.sources.protocols = [] ∨ s.sources.protocols = [conf.protocol])
    (hlists : conf.Lists payload) :
    configuredPoints (listedStore conf s payload).device = some conf.ids := by
  have hprotocols : (listedStore conf s payload).device.protocols = [conf.protocol] :=
    (congrArg Sources.protocols (recordType_sources _ "status" payload)).trans
      (addTo_protocols hserved)
  have hpoints : (listedStore conf s payload).device.points conf.protocol = some conf.ids := by
    simp [listedStore, Device.work, Device.recordPoints, hlists.2.2]
  simp [configuredPoints, hprotocols, hpoints]

theorem agree_listedStore (conf : Configuration) (h : Agree s) (payload : Json) :
    Agree (listedStore conf s payload).device :=
  (h.recordedMessage conf.protocol "status" payload).of_records rfl rfl rfl rfl rfl rfl

theorem declared_pruned (s : Device) (payload : Json) :
    (pruneRemovedPoints (listedStore conf s payload)).device.declared = s.declared :=
  (congrArg Sources.declared (pruneRemovedPoints_sources _)).trans
    (congrArg Sources.declared (recordType_sources _ "status" payload))

theorem status_claims (h : Agree s) (hforced : ColonFree (trimC cfg.defaultSet))
    (halone : Alone conf s.sources) (hlists : conf.Lists payload) (q : String) :
    (∃ e ∈ declarations (conf.names cfg) (s.declared conf.protocol), e.point = q ∧
      keyOf (step cfg conf.device s (statusEvent conf payload)).1 q = e.key ∧
      ∀ c ∈ (step cfg conf.device s (statusEvent conf payload)).1.claims q,
        c.2 = e.key ∧ c.1 ∈ e.sets) ∨
    ((∀ e ∈ declarations (conf.names cfg) (s.declared conf.protocol), e.point ≠ q) ∧
      ∀ c ∈ (step cfg conf.device s (statusEvent conf payload)).1.claims q, q ∈ conf.ids) := by
  rw [step_status s hlists]
  obtain ⟨hpruned, -, hknown⟩ := Tables.pruned (agree_listedStore conf h payload)
  have hdeclared := applyDeclarations_declaredAs hpruned (show ColonFree (conf.names cfg).forced
    from hforced) conf.protocol q
  rw [declared_pruned] at hdeclared
  rcases hdeclared with hentry | ⟨hnone, -, hclaims⟩
  · exact Or.inl hentry
  · exact Or.inr ⟨hnone, fun c hc =>
      hknown _ (configuredPoints_listedStore halone.protocols hlists) q c (hclaims c hc)⟩

theorem mem_ids_of_declared (h : e ∈ declarations names conf.entries) : e.point ∈ conf.ids := by
  obtain ⟨p, hp, hid, -⟩ := Configuration.mem_declarations h
  exact hid ▸ List.mem_map_of_mem hp

/-- The entries a descriptor lets go: those of points it does not list. -/
def releasedBy (conf : Configuration) (s : Device) : List Json :=
  (s.declared conf.protocol).filter fun entry => (entryPoint entry).any fun point =>
    conf.entries.all fun e => (e.get "point").bind Json.asStr != some point

theorem mem_releasedBy {entry : Json} {q : String} (hentry : entry ∈ s.declared conf.protocol)
    (hpoint : entryPoint entry = some q) (hq : q ∉ conf.ids) : entry ∈ releasedBy conf s := by
  refine List.mem_filter.2 ⟨hentry, ?_⟩
  simp only [hpoint, Option.any_some, List.all_eq_true, bne_iff_ne, ne_eq]
  intro e he heq
  obtain ⟨p, hp, hid⟩ := Configuration.entries_point he
  rw [hid] at heq
  exact hq (Option.some.inj heq ▸ List.mem_map_of_mem hp)

/-- The store in which the entries of the descriptor are applied. -/
def describedStore (conf : Configuration) (s : Device) : Work :=
  ((releasedBy conf s).foldl releaseDeclaration s.work).recordDeclared conf.protocol conf.entries

/-- The descriptor replaces the entries of its service and applies them. -/
theorem step_descriptor (s : Device) (hdescribes : conf.Describes caps) :
    step cfg conf.device s (descriptorEvent conf caps) =
      if conf.service ∈ s.declaring ∨ conf.entries ≠ [] then
        let w := applyDeclarations (describedStore conf s)
          (naming cfg.defaultSet s.deviceType conf.protocol) conf.protocol
        ({ w.device with
            declaring := if conf.entries = [] then w.device.declaring.filter fun d => d ≠ conf.service
              else addTo w.device.declaring conf.service },
          twinMessages w)
      else (s, []) := by
  obtain ⟨hprotocol, listed, hlisted, hentries⟩ := hdescribes
  have htype : (describedStore conf s).device.deviceType = s.deviceType :=
    congrArg Sources.deviceType (sources_foldl releaseDeclaration_sources _ s.work)
  unfold step descriptorEvent
  dsimp only
  unfold onCapabilities
  simp only [hprotocol, hlisted, hentries]
  split
  · have hdeclare : declare cfg.defaultSet conf.protocol conf.entries s.work =
        applyDeclarations (describedStore conf s)
          (naming cfg.defaultSet s.deviceType conf.protocol) conf.protocol := by
      rw [← htype]
      rfl
    rw [hdeclare]
    rfl
  · rfl

theorem agree_describedStore (conf : Configuration) (h : Agree s) :
    Agree (describedStore conf s).device := by
  have hreleased := (tables_foldl (l := releasedBy conf s)
    (fun w hw entry _ => Tables.released hw entry) (w := s.work) h).1
  exact hreleased.of_records rfl rfl rfl rfl rfl rfl

/-- After a descriptor a point is where its entry says, or keeps what it had, unless the descriptor
let it go. -/
theorem descriptor_claims (h : Agree s) (hforced : ColonFree (trimC cfg.defaultSet))
    (hdescribes : conf.Describes caps) (halone : Alone conf s.sources) (q : String) :
    (∃ e ∈ declarations (naming cfg.defaultSet s.deviceType conf.protocol) conf.entries,
      e.point = q ∧ ∀ c ∈ (step cfg conf.device s (descriptorEvent conf caps)).1.claims q,
        c.2 = e.key ∧ c.1 ∈ e.sets) ∨
    ((∀ e ∈ declarations (naming cfg.defaultSet s.deviceType conf.protocol) conf.entries,
        e.point ≠ q) ∧
      (∀ c ∈ (step cfg conf.device s (descriptorEvent conf caps)).1.claims q, c ∈ s.claims q) ∧
      (q ∉ conf.ids → (∃ entry ∈ s.declared conf.protocol, entryPoint entry = some q ∧
          declaredKey entry = some (keyOf s q)) →
        (step cfg conf.device s (descriptorEvent conf caps)).1.claims q = [])) := by
  rw [step_descriptor s hdescribes]
  split
  · have happlied := applyDeclarations_declaredAs (agree_describedStore conf h)
      (show ColonFree (naming cfg.defaultSet s.deviceType conf.protocol).forced from hforced)
      conf.protocol q
    have hentries : (describedStore conf s).device.declared conf.protocol = conf.entries := by
      simp [describedStore, Work.recordDeclared]
    rw [hentries] at happlied
    rcases happlied with ⟨e, he, hpoint, -, hclaims⟩ | ⟨hnone, -, hclaims⟩
    · exact Or.inl ⟨e, he, hpoint, hclaims⟩
    · obtain ⟨hsubset, hgone⟩ := released_claims (releasedBy conf s) (w := s.work) h q
      refine Or.inr ⟨hnone, fun c hc => hsubset c (hclaims c hc), ?_⟩
      rintro hq ⟨entry, hentry, hpoint, hkey⟩
      have hnone := hgone ⟨entry, mem_releasedBy hentry hpoint hq, hpoint, hkey⟩
      refine List.eq_nil_iff_forall_not_mem.2 fun c hc => ?_
      have hbefore : c ∈ ((releasedBy conf s).foldl releaseDeclaration s.work).device.claims q :=
        hclaims c hc
      rw [hnone] at hbefore
      cases hbefore
  · next hquiet =>
    have hboth : conf.service ∉ s.declaring ∧ conf.entries = [] := by simpa using hquiet
    refine Or.inr ⟨by simp [hboth.2, declarations], fun _ hc => hc, ?_⟩
    rintro - ⟨entry, hentry, -⟩
    exact absurd (halone.declared (List.ne_nil_of_mem hentry)) hboth.1

def Declares (cfg : Config) (conf : Configuration) (p : ConfiguredPoint) : Prop :=
  ∃ e ∈ declarations (conf.names cfg) conf.entries, e.point = p.id

/-- A store that has taken in the configuration: only its points have claims, and what it declares is
where it is to be. -/
structure Settled (cfg : Config) (conf : Configuration) (s : Device) : Prop where
  agree : Agree s
  told : Told conf s.sources
  entries : s.declared conf.protocol = conf.entries
  known : ∀ q, ∀ c ∈ s.claims q, q ∈ conf.ids
  declared : ∀ p ∈ conf.points, Declares cfg conf p → ∀ c ∈ s.claims p.id,
    c.2 = p.key ∧ c.1 ∈ p.sets (conf.names cfg)

theorem point_unique (hvalid : conf.Valid (conf.names cfg)) {p q : ConfiguredPoint}
    (hp : p ∈ conf.points) (hq : q ∈ conf.points) (hid : p.id = q.id) : p = q :=
  List.inj_on_of_nodup_map hvalid.distinct hp hq hid

theorem claims_of_entry (hvalid : conf.Valid (conf.names cfg)) (hp : p ∈ conf.points)
    (he : e ∈ declarations (conf.names cfg) conf.entries) (hpoint : e.point = p.id)
    {c : String × String} (hc : c.2 = e.key ∧ c.1 ∈ e.sets) :
    c.2 = p.key ∧ c.1 ∈ p.sets (conf.names cfg) := by
  obtain ⟨p', hp', hid, hkey, hsets⟩ := Configuration.mem_declarations he
  obtain rfl := point_unique hvalid hp' hp (hid.trans hpoint)
  rw [hkey, hsets]
  exact hc

/-- A link status after the descriptor settles the store. -/
theorem settled_by_status (h : Agree s) (hforced : ColonFree (trimC cfg.defaultSet))
    (hvalid : conf.Valid (conf.names cfg)) (halone : Alone conf s.sources)
    (hentries : s.declared conf.protocol = conf.entries) (hlists : conf.Lists payload)
    (hagree : Agree (step cfg conf.device s (statusEvent conf payload)).1) :
    Settled cfg conf (step cfg conf.device s (statusEvent conf payload)).1 where
  agree := hagree
  told := by
    rw [step_sources]
    exact halone.told hlists
  entries := by
    have hsources := step_sources cfg conf.device s (statusEvent conf payload)
    have hdeclared := (congrArg Sources.declared hsources).trans (hear_status_declared payload)
    exact (congrFun hdeclared conf.protocol).trans hentries
  known := by
    intro q c hc
    rcases status_claims h hforced halone hlists q with ⟨e, he, rfl, -⟩ | ⟨-, hids⟩
    · exact mem_ids_of_declared (hentries ▸ he)
    · exact hids c hc
  declared := by
    rintro p hp ⟨e, he, hpoint⟩ c hc
    rcases status_claims h hforced halone hlists p.id with ⟨e', he', hpoint', -, hclaims⟩ | ⟨hnone, -⟩
    · exact claims_of_entry hvalid hp (hentries ▸ he') hpoint' (hclaims c hc)
    · exact absurd hpoint (hnone e (hentries ▸ he))

/-- A descriptor after the link status settles it as well. -/
theorem settled_by_descriptor (h : Agree s) (hforced : ColonFree (trimC cfg.defaultSet))
    (hvalid : conf.Valid (conf.names cfg)) (halone : Alone conf s.sources)
    (htold : Told conf s.sources)
    (hknown : ∀ q, ∀ c ∈ s.claims q, q ∉ conf.ids → ∃ entry ∈ s.declared conf.protocol,
      entryPoint entry = some q ∧ declaredKey entry = some (keyOf s q))
    (hdescribes : conf.Describes caps)
    (hagree : Agree (step cfg conf.device s (descriptorEvent conf caps)).1) :
    Settled cfg conf (step cfg conf.device s (descriptorEvent conf caps)).1 := by
  have hnames : naming cfg.defaultSet s.deviceType conf.protocol = conf.names cfg := by
    rw [Configuration.names, ← htold.type]
    rfl
  have hsources := step_sources cfg conf.device s (descriptorEvent conf caps)
  have hclaims := descriptor_claims h hforced hdescribes halone
  rw [hnames] at hclaims
  constructor
  · exact hagree
  · rw [hsources]
    exact htold.described hdescribes
  · exact (congrFun (congrArg Sources.declared hsources) conf.protocol).trans
      (halone.described hdescribes)
  · intro q c hc
    rcases hclaims q with ⟨e, he, rfl, -⟩ | ⟨-, hsubset, hgone⟩
    · exact mem_ids_of_declared he
    · by_contra hq
      rw [hgone hq (hknown q c (hsubset c hc) hq)] at hc
      cases hc
  · rintro p hp ⟨e, he, hpoint⟩ c hc
    rcases hclaims p.id with ⟨e', he', hpoint', hplaced⟩ | ⟨hnone, -⟩
    · exact claims_of_entry hvalid hp he' hpoint' (hplaced c hc)
    · exact absurd hpoint (hnone e he)

/-- The configuration's messages, in either order. -/
inductive Arrives (conf : Configuration) (caps payload : Json) : List Event → Prop where
  | descriptorFirst : Arrives conf caps payload
      [descriptorEvent conf caps, statusEvent conf payload]
  | statusFirst : Arrives conf caps payload [statusEvent conf payload, descriptorEvent conf caps]

/-- The two messages settle the store, whichever comes first. -/
theorem settled (h : Agree s) (hforced : ColonFree (trimC cfg.defaultSet))
    (hvalid : conf.Valid (conf.names cfg)) (halone : Alone conf s.sources) {caps payload : Json}
    (hdescribes : conf.Describes caps) (hlists : conf.Lists payload) {messages : List Event}
    (harrives : Arrives conf caps payload messages) :
    Settled cfg conf (final (step cfg conf.device) s messages) := by
  have hkeep : ∀ {s : Device} (event : Event), Agree s → Named cfg event →
      Agree (step cfg conf.device s event).1 := by
    intro s event hs hnamed
    obtain ⟨w, hkept, hstep⟩ := hs.stepped hforced conf.device hnamed
    rw [hstep]
    exact hkept.1
  have hstatus : Named cfg (statusEvent conf payload) := by simp [Named, statusEvent]
  have hdescriptor : Named cfg (descriptorEvent conf caps) := trivial
  cases harrives with
  | descriptorFirst =>
    have hagree := hkeep _ h hdescriptor
    have hsources := step_sources cfg conf.device s (descriptorEvent conf caps)
    have halone' : Alone conf (step cfg conf.device s (descriptorEvent conf caps)).1.sources := by
      rw [hsources]
      apply halone.hear
      refine ⟨fun _ protocol hprotocol => ?_, fun hne => absurd rfl hne⟩
      exact Option.some.inj (hprotocol.symm.trans hdescribes.1)
    have hentries : (step cfg conf.device s (descriptorEvent conf caps)).1.declared conf.protocol =
        conf.entries := (congrFun (congrArg Sources.declared hsources) conf.protocol).trans
      (halone.described hdescribes)
    exact settled_by_status hagree hforced hvalid halone' hentries hlists (hkeep _ hagree hstatus)
  | statusFirst =>
    have hagree := hkeep _ h hstatus
    have hsources := step_sources cfg conf.device s (statusEvent conf payload)
    have halone' : Alone conf (step cfg conf.device s (statusEvent conf payload)).1.sources := by
      rw [hsources]
      exact halone.hear fun _ => rfl
    have htold : Told conf (step cfg conf.device s (statusEvent conf payload)).1.sources := by
      rw [hsources]
      exact halone.told hlists
    have hdeclared : (step cfg conf.device s (statusEvent conf payload)).1.declared = s.declared :=
      (congrArg Sources.declared hsources).trans (hear_status_declared payload)
    apply settled_by_descriptor hagree hforced hvalid halone' htold _ hdescribes
      (hkeep _ hagree hdescriptor)
    intro q c hc hq
    -- a point that is not listed has claims as a declaration not yet withdrawn placed it again
    rcases status_claims h hforced halone hlists q with ⟨e, he, hpoint, hkey, -⟩ | ⟨-, hids⟩
    · obtain ⟨entry, hentry, hplace⟩ := List.mem_filterMap.1 he
      split at hplace
      · next point key hid hdeclaredKey =>
        obtain rfl := Option.some.inj hplace
        exact ⟨entry, hdeclared ▸ hentry, hpoint ▸ hid, hkey ▸ hdeclaredKey⟩
      · cases hplace
    · exact absurd (hids c hc) hq

/-! ## Rounds of samples -/

/-- No point without samples, and without a declaration, holds what a point that is read is to have,
or the other shape of its set. -/
def Clear (cfg : Config) (conf : Configuration) (s : Device) : Prop :=
  ∀ w ∈ conf.points, w.readable = false → ¬ Declares cfg conf w → ∀ c ∈ s.claims w.id,
    ∀ p ∈ conf.points, p.readable = true → c.1 ∈ p.sets (conf.names cfg) →
      c.2 ≠ p.key ∧ c.2 ≠ literalKey ∧ p.key ≠ literalKey

/-- What the point holds is what it is to have. -/
def Placed (cfg : Config) (conf : Configuration) (s : Device) (p : ConfiguredPoint) : Prop :=
  ∀ c ∈ s.claims p.id, c.2 = p.key ∧ c.1 ∈ p.sets (conf.names cfg)

/-- The point has all it is to have, with this value. -/
def Current (cfg : Config) (conf : Configuration) (s : Device) (p : ConfiguredPoint)
    (value : Json) : Prop :=
  ∀ set ∈ p.sets (conf.names cfg), (set, p.key) ∈ s.claims p.id ∧
    Carries cfg.stringify s set p.key value

/-- The effect of a good sample. -/
structure Taken (cfg : Config) (conf : Configuration) (p : ConfiguredPoint) (value : Json)
    (s s' : Device) : Prop where
  leaves : Leaves (· ≠ p.id) s s'
  placed : Placed cfg conf s' p
  current : p.key ≠ "__proto__" →
    (∀ set ∈ p.sets (conf.names cfg), Unblocked s p.id set p.key) → Current cfg conf s' p value

/-- A good sample of a point, as a message. -/
def IsSample (conf : Configuration) (d : ConfiguredPoint × Json) (event : Event) : Prop :=
  ∃ name payload, conf.Samples d.1 d.2 payload ∧
    event = .message conf.protocol "sample" name payload

theorem named_sample (hid : p.id ≠ "") (h : IsSample conf (p, value) event) : Named cfg event := by
  obtain ⟨name, payload, hsample, rfl⟩ := h
  simp [Named, samplePoint, hsample.point, Option.filter, truthy, hid, Json.asStr]

/-- A sample moves its own point only, to the sets of its message. -/
theorem sample_taken (h : Agree s) (hforced : ColonFree (trimC cfg.defaultSet))
    (htold : Told conf s.sources) (hid : p.id ≠ "") (hsample : IsSample conf (p, value) event) :
    Taken cfg conf p value s (step cfg conf.device s event).1 := by
  obtain ⟨name, payload, hsample, rfl⟩ := hsample
  have hpoint : samplePoint cfg.text name payload = p.id := by
    simp [samplePoint, hsample.point, Option.filter, truthy, hid]
  have hrecorded := h.recordedMessage conf.protocol "sample" payload
  obtain ⟨-, hclaims, -, -, hvalues, -⟩ :=
    recordType_records { s with
      protocol := some conf.protocol
      protocols := if "sample" = "sample" ∨ "sample" = "status" then addTo s.protocols conf.protocol
        else s.protocols } "sample" payload
  have hleaves : Leaves (· ≠ p.id) s (recordMessage s conf.protocol "sample" payload) :=
    Leaves.of_records hclaims hvalues
  have htype : (recordMessage s conf.protocol "sample" payload).deviceType = conf.deviceType :=
    (congrArg Sources.deviceType (recordType_sources _ "sample" payload)).trans
      (typeAfter_said hsample.type (Or.inr ⟨rfl, htold.type⟩))
  have hsets : setsFromSample payload (conf.names cfg) =
      setsFromSample p.description (conf.names cfg) :=
    setsFromSample_congr (by rw [hsample.access, ConfiguredPoint.description_access])
      (by rw [hsample.pointMeta, ConfiguredPoint.description_meta]) _
  have hkey : keyFromSample payload p.id = p.key :=
    keyFromSample_congr (by rw [hsample.pointMeta, ConfiguredPoint.description_meta]) _
  -- recording the message moved no point, so the effect is that on the store before
  have heffect := onSample_sampled cfg.stringify hrecorded
    (show ColonFree (conf.names cfg).forced from hforced) hid
    (show isDescribed payload = true by simp [isDescribed, hsample.access]) hsample.quality
    hsample.value
  have hstep : (step cfg conf.device s (.message conf.protocol "sample" name payload)).1 =
      (onSample cfg.stringify (conf.names cfg) p.id payload
        (recordMessage s conf.protocol "sample" payload)).device := by
    unfold step
    dsimp only
    unfold onTopic
    rw [if_pos hsample.object]
    dsimp only
    rw [if_neg (by decide), if_pos rfl, hpoint, htype]
    rfl
  rw [hstep]
  refine ⟨hleaves.trans heffect.leaves, ?_, ?_⟩
  · intro c hc
    have hclaim := heffect.claims c hc
    rw [hkey, hsets] at hclaim
    exact hclaim
  · intro hplain hfree set hset
    have hcarries := heffect.carries
    rw [hkey, hsets] at hcarries
    exact hcarries hplain (fun set hset => (hfree set hset).of_leaves hleaves) set hset

/-- A sample of a configured point leaves the store settled. -/
theorem Settled.sampled (h : Settled cfg conf s) (hforced : ColonFree (trimC cfg.defaultSet))
    (hvalid : conf.Valid (conf.names cfg)) (hp : p ∈ conf.points)
    (hsample : IsSample conf (p, value) event) :
    Settled cfg conf (step cfg conf.device s event).1 := by
  have htaken := sample_taken h.agree hforced h.told (hvalid.named p hp) hsample
  obtain ⟨w, hkept, hstep⟩ := h.agree.stepped hforced conf.device
    (named_sample (hvalid.named p hp) hsample)
  -- what the flow has heard of the device does not change
  have hsources := step_sources cfg conf.device s event
  obtain ⟨name, payload, hpayload, rfl⟩ := hsample
  have hheard : s.sources.hear conf.device (.message conf.protocol "sample" name payload) =
      s.sources.hearMessage conf.protocol "sample" payload := by
    simp [Sources.hear, hpayload.object]
  rw [hheard] at hsources
  constructor
  · rw [hstep]
    exact hkept.1
  · rw [hsources]
    exact ⟨typeAfter_said hpayload.type (Or.inr ⟨rfl, h.told.type⟩),
      addTo_protocols (Or.inr h.told.protocols), h.told.points⟩
  · exact (congrFun (congrArg Sources.declared hsources) conf.protocol).trans h.entries
  · intro q c hc
    by_cases hq : q = p.id
    · exact hq ▸ List.mem_map_of_mem hp
    · rw [htaken.leaves.claims q hq] at hc
      exact h.known q c hc
  · intro p' hp' hdeclares c hc
    by_cases hid : p'.id = p.id
    · obtain rfl := point_unique hvalid hp' hp hid
      exact htaken.placed c hc
    · rw [htaken.leaves.claims _ hid] at hc
      exact h.declared p' hp' hdeclares c hc

theorem Clear.sampled {s s' : Device} (h : Clear cfg conf s) (hvalid : conf.Valid (conf.names cfg))
    (hp : p ∈ conf.points) (hreadable : p.readable = true) (htaken : Taken cfg conf p value s s') :
    Clear cfg conf s' := by
  intro w hw hsilent hnone c hc
  have hne : w.id ≠ p.id := by
    intro hid
    rw [point_unique hvalid hw hp hid, hreadable] at hsilent
    cases hsilent
  rw [htaken.leaves.claims _ hne] at hc
  exact h w hw hsilent hnone c hc

theorem apart (hvalid : conf.Valid (conf.names cfg)) {p q : ConfiguredPoint} (hp : p ∈ conf.points)
    (hq : q ∈ conf.points) (hne : q.id ≠ p.id) {set : String} (hset : set ∈ p.sets (conf.names cfg))
    (hset' : set ∈ q.sets (conf.names cfg)) :
    q.key ≠ p.key ∧ q.key ≠ literalKey ∧ p.key ≠ literalKey := by
  have hkeys : q.key ≠ p.key := by
    intro hkey
    exact hne (congrArg ConfiguredPoint.id (hvalid.unshared q hq p hp set hset' hset hkey))
  refine ⟨hkeys, fun hliteral => hkeys ?_, fun hliteral => hkeys ?_⟩
  · rw [hliteral, hvalid.oneShape q hq p hp set hset' hset hliteral]
  · rw [hliteral, hvalid.oneShape p hp q hq set hset hset' hliteral]

theorem unblocked (h : Settled cfg conf s) (hclear : Clear cfg conf s)
    (hvalid : conf.Valid (conf.names cfg))
    (hplaced : ∀ q ∈ conf.points, q.readable = true → Placed cfg conf s q) (hp : p ∈ conf.points)
    (hreadable : p.readable = true) {set : String} (hset : set ∈ p.sets (conf.names cfg)) :
    Unblocked s p.id set p.key := by
  intro q hq k hk
  obtain ⟨w, hw, rfl⟩ := List.mem_map.1 (h.known q _ hk)
  have hwhere : (k = w.key ∧ set ∈ w.sets (conf.names cfg)) →
      k ≠ p.key ∧ k ≠ literalKey ∧ p.key ≠ literalKey := by
    rintro ⟨rfl, hset'⟩
    exact apart hvalid hp hw hq hset hset'
  by_cases hsamples : w.readable = true
  · exact hwhere (hplaced w hw hsamples _ hk)
  · by_cases hdeclares : Declares cfg conf w
    · exact hwhere (h.declared w hw hdeclares _ hk)
    · exact hclear w hw (by simpa using hsamples) hdeclares _ hk p hp hreadable hset

/-- Samples of points that are read, one after the other. -/
def Delivers (conf : Configuration) (deliveries : List (ConfiguredPoint × Json))
    (events : List Event) : Prop :=
  List.Forall₂ (fun d event => d.1 ∈ conf.points ∧ d.1.readable = true ∧ IsSample conf d event)
    deliveries events

def Round (conf : Configuration) (deliveries : List (ConfiguredPoint × Json)) : Prop :=
  ∀ p ∈ conf.points, p.readable = true → ∃ value, (p, value) ∈ deliveries

def latest (deliveries : List (ConfiguredPoint × Json)) (p : ConfiguredPoint) : Option Json :=
  deliveries.foldl (fun value d => if d.1.id = p.id then some d.2 else value) none

theorem Placed.of_leaves {s s' : Device} {p q : ConfiguredPoint} (h : Placed cfg conf s p)
    (hleaves : Leaves (· ≠ q.id) s s') (hne : p.id ≠ q.id) : Placed cfg conf s' p := by
  intro c hc
  rw [hleaves.claims _ hne] at hc
  exact h c hc

theorem Current.of_leaves {s s' : Device} {p q : ConfiguredPoint} (h : Current cfg conf s p value)
    (hleaves : Leaves (· ≠ q.id) s s') (hne : p.id ≠ q.id) : Current cfg conf s' p value := by
  intro set hset
  obtain ⟨hclaim, x, hx, htext⟩ := h set hset
  refine ⟨?_, x, ?_, htext⟩
  · rw [hleaves.claims _ hne]
    exact hclaim
  · rw [hleaves.values _ hne set p.key hclaim]
    exact hx

/-- Every point that delivers is placed, and a placed one stays so. -/
theorem round_places (hforced : ColonFree (trimC cfg.defaultSet))
    (hvalid : conf.Valid (conf.names cfg)) (hdelivers : Delivers conf deliveries events)
    (h : Settled cfg conf s) (hclear : Clear cfg conf s) :
    Settled cfg conf (final (step cfg conf.device) s events) ∧
      Clear cfg conf (final (step cfg conf.device) s events) ∧
      ∀ p ∈ conf.points, ((∃ value, (p, value) ∈ deliveries) ∨ Placed cfg conf s p) →
        Placed cfg conf (final (step cfg conf.device) s events) p := by
  induction hdelivers generalizing s with
  | nil => exact ⟨h, hclear, fun p _ hp => hp.resolve_left (by simp)⟩
  | @cons d event deliveries events hfirst hrest ih =>
    obtain ⟨hd, hreadable, hsample⟩ := hfirst
    have htaken := sample_taken h.agree hforced h.told (hvalid.named d.1 hd) hsample
    obtain ⟨hsettled, hclear', hplaced⟩ := ih (h.sampled hforced hvalid hd hsample)
      (hclear.sampled hvalid hd hreadable htaken)
    refine ⟨hsettled, hclear', fun p hp hwas => hplaced p hp ?_⟩
    by_cases hid : p.id = d.1.id
    · obtain rfl := point_unique hvalid hp hd hid
      exact Or.inr htaken.placed
    · rcases hwas with ⟨value, hin⟩ | hwas
      · rcases List.mem_cons.1 hin with heq | hlater
        · exact absurd (congrArg (fun d => d.1.id) heq) hid
        · exact Or.inl ⟨value, hlater⟩
      · exact Or.inr (hwas.of_leaves htaken.leaves hid)

/-- At the end of a round a point has the last value it delivered. -/
theorem round_takes (hforced : ColonFree (trimC cfg.defaultSet))
    (hvalid : conf.Valid (conf.names cfg))
    (hplain : ∀ p ∈ conf.points, p.readable = true → p.key ≠ "__proto__")
    (hdelivers : Delivers conf deliveries events) (h : Settled cfg conf s)
    (hclear : Clear cfg conf s)
    (hplaced : ∀ q ∈ conf.points, q.readable = true → Placed cfg conf s q) (hp : p ∈ conf.points)
    (before : Option Json) (hbefore : ∀ value ∈ before, Current cfg conf s p value) :
    ∀ value ∈ deliveries.foldl (fun value d => if d.1.id = p.id then some d.2 else value) before,
      Current cfg conf (final (step cfg conf.device) s events) p value := by
  -- `before` is the value from an earlier delivery, if there was one
  induction hdelivers generalizing s before with
  | nil => exact hbefore
  | @cons d event deliveries events hfirst hrest ih =>
    obtain ⟨hd, hreadable, hsample⟩ := hfirst
    have htaken := sample_taken h.agree hforced h.told (hvalid.named d.1 hd) hsample
    apply ih (h.sampled hforced hvalid hd hsample) (hclear.sampled hvalid hd hreadable htaken)
    · intro q hq hread
      by_cases hid : q.id = d.1.id
      · obtain rfl := point_unique hvalid hq hd hid
        exact htaken.placed
      · exact (hplaced q hq hread).of_leaves htaken.leaves hid
    · intro value hvalue
      dsimp only at hvalue
      split at hvalue
      · next hid =>
        obtain rfl := point_unique hvalid hd hp hid
        obtain rfl := Option.some.inj hvalue
        exact htaken.current (hplain d.1 hd hreadable) fun set hset =>
          unblocked h hclear hvalid hplaced hd hreadable hset
      · next hid => exact (hbefore value hvalue).of_leaves htaken.leaves (Ne.symm hid)

/-- A point that delivered has a last value. -/
theorem latest_of_mem (h : ∃ value, (p, value) ∈ deliveries) :
    ∃ value, latest deliveries p = some value := by
  have hfold : ∀ (deliveries : List (ConfiguredPoint × Json)) (before : Option Json),
      before.isSome ∨ (∃ value, (p, value) ∈ deliveries) →
      (deliveries.foldl (fun value d => if d.1.id = p.id then some d.2 else value) before).isSome := by
    intro deliveries
    induction deliveries with
    | nil => exact fun _ h => h.resolve_right (by simp)
    | cons d deliveries ih =>
      intro before hsome
      apply ih
      dsimp only
      split
      · exact Or.inl rfl
      · next hid =>
        refine hsome.imp_right ?_
        rintro ⟨value, hin⟩
        rcases List.mem_cons.1 hin with heq | hlater
        · exact absurd (congrArg (fun d => d.1.id) heq).symm hid
        · exact ⟨value, hlater⟩
  exact Option.isSome_iff_exists.1 (hfold deliveries none (Or.inr h))

/-! ## The configuration's messages again -/

theorem claimAll_quiet (point key : String) (w : Work) (sets : List String) :
    (claimAll point key w sets).changed = w.changed ∧
      (claimAll point key w sets).device.values = w.device.values := by
  unfold claimAll
  induction sets generalizing w with
  | nil => exact ⟨rfl, rfl⟩
  | cons set sets ih =>
    obtain ⟨hchanged, hvalues⟩ := ih { w with device := (claim w.device set key point).1 }
    exact ⟨hchanged, hvalues.trans (claim_values _ _ _ _)⟩

/-- Declarations of points that are in place change nothing that is shown. -/
theorem placed_quiet {entries : List Declaration}
    (hsets : ∀ e ∈ entries, e.point ≠ "" ∧ ∀ set ∈ e.sets, ColonFree set) (h : Agree w.device)
    (hplaced : ∀ e ∈ entries, ∀ c ∈ w.device.claims e.point, c.2 = e.key ∧ c.1 ∈ e.sets)
    (hsame : ∀ e ∈ entries, ∀ e' ∈ entries, e.point = e'.point → e.key = e'.key ∧ e.sets = e'.sets) :
    (entries.foldl placeDeclared w).changed = w.changed ∧
      (entries.foldl placeDeclared w).device.values = w.device.values := by
  induction entries generalizing w with
  | nil => exact ⟨rfl, rfl⟩
  | cons e entries ih =>
    obtain ⟨⟨hpoint, hfirst⟩, hsets⟩ := List.forall_mem_cons.1 hsets
    have hfirst : ∀ set ∈ (some e.sets).getD [], ColonFree set := hfirst
    have hafter := (h.placedPoint hpoint id hfirst e.key).1
    -- the point has no claim outside its sets, so there is nothing to drop
    have hstale : staleClaims (w.recordSets e.point (some e.sets)).device e.point
        ((some e.sets).getD []) e.key = [] := by
      refine List.filter_eq_nil_iff.2 fun c hc => ?_
      simpa using hplaced e List.mem_cons_self c hc
    have hquiet : (placeDeclared w e).changed = w.changed ∧
        (placeDeclared w e).device.values = w.device.values := by
      unfold placeDeclared placePoint
      dsimp only
      rw [hstale]
      exact claimAll_quiet e.point e.key _ _
    have hplaced' : ∀ e' ∈ entries, ∀ c ∈ (placeDeclared w e).device.claims e'.point,
        c.2 = e'.key ∧ c.1 ∈ e'.sets := by
      intro e' he' c hc
      by_cases hpoint' : e'.point = e.point
      · rw [hpoint'] at hc
        obtain ⟨hkey, hsets'⟩ := hsame e' (List.mem_cons_of_mem e he') e List.mem_cons_self hpoint'
        rw [hkey, hsets']
        exact placePoint_claims h hfirst hc
      · have hleaves := placePoint_leaves h e.point hfirst e.key
        rw [show (placeDeclared w e).device.claims e'.point = w.device.claims e'.point from
          hleaves.claims _ hpoint'] at hc
        exact hplaced e' (List.mem_cons_of_mem e he') c hc
    obtain ⟨hchanged, hvalues⟩ := ih hsets (w := placeDeclared w e) hafter hplaced'
      (fun e₁ h₁ e₂ h₂ => hsame e₁ (List.mem_cons_of_mem e h₁) e₂ (List.mem_cons_of_mem e h₂))
    exact ⟨hchanged.trans hquiet.1, hvalues.trans hquiet.2⟩

theorem declaration_point (hvalid : conf.Valid (conf.names cfg)) {e e' : Declaration}
    (he : e ∈ declarations (conf.names cfg) conf.entries)
    (he' : e' ∈ declarations (conf.names cfg) conf.entries) (hpoint : e.point = e'.point) :
    e.key = e'.key ∧ e.sets = e'.sets := by
  obtain ⟨p, hp, hid, hkey, hsets⟩ := Configuration.mem_declarations he
  obtain ⟨p', hp', hid', hkey', hsets'⟩ := Configuration.mem_declarations he'
  obtain rfl := point_unique hvalid hp hp' (hid.trans (hpoint.trans hid'.symm))
  exact ⟨hkey.symm.trans hkey', hsets.symm.trans hsets'⟩

/-- A point in its place gives up nothing. -/
theorem surrendered_nil (hforced : ColonFree (trimC cfg.defaultSet))
    (hvalid : conf.Valid (conf.names cfg)) (h : Agree s)
    (he : e ∈ declarations (conf.names cfg) conf.entries)
    (hplaced : ∀ c ∈ s.claims e.point, c.2 = e.key ∧ c.1 ∈ e.sets) :
    surrendered s (declarations (conf.names cfg) conf.entries) e.point = [] := by
  refine List.filter_eq_nil_iff.2 fun c hc hwanted => ?_
  obtain ⟨taker, htaker, hother⟩ := (Option.any_eq_true _ _).1 hwanted
  obtain ⟨x, hfind, rfl⟩ := Option.map_eq_some_iff.1 htaker
  obtain ⟨e', he', hx⟩ := List.mem_flatMap.1 (List.mem_reverse.1 (List.mem_of_find?_eq_some hfind))
  obtain ⟨set, hset, rfl⟩ := List.mem_map.1 hx
  have hname : pointKey set e'.key = pointKey c.1 c.2 := by simpa using List.find?_some hfind
  have hcolon := (mem_declarations_sets (show ColonFree (conf.names cfg).forced from hforced)
    conf.entries e' he').2 set hset
  obtain ⟨rfl, hkeys⟩ := pointKey_inj hcolon (h.named e.point c hc) hname
  obtain ⟨hkey, hin⟩ := hplaced c hc
  -- two entries with one key of a set are of one point
  obtain ⟨p, hp, hid, hpkey, hpsets⟩ := Configuration.mem_declarations he
  obtain ⟨p', hp', hid', hpkey', hpsets'⟩ := Configuration.mem_declarations he'
  have hsame := hvalid.unshared p' hp' p hp c.1 (hpsets' ▸ hset) (hpsets ▸ hin)
    (hpkey'.trans (hkeys.trans (hkey.trans hpkey.symm)))
  have hpoint : e'.point = e.point := hid'.symm.trans ((congrArg ConfiguredPoint.id hsame).trans hid)
  simp [hpoint] at hother

/-- Applied again to a store where all declared points are placed they change no value. -/
theorem applyDeclarations_quiet (hforced : ColonFree (trimC cfg.defaultSet))
    (hvalid : conf.Valid (conf.names cfg)) (h : Agree w.device)
    (hentries : w.device.declared conf.protocol = conf.entries)
    (hdeclared : ∀ p ∈ conf.points, Declares cfg conf p → Placed cfg conf w.device p) :
    (applyDeclarations w (conf.names cfg) conf.protocol).changed = w.changed ∧
      (applyDeclarations w (conf.names cfg) conf.protocol).device.values = w.device.values := by
  have hplaced : ∀ e ∈ declarations (conf.names cfg) conf.entries,
      ∀ c ∈ w.device.claims e.point, c.2 = e.key ∧ c.1 ∈ e.sets := by
    intro e he c hc
    obtain ⟨p, hp, hid, hkey, hsets⟩ := Configuration.mem_declarations he
    rw [← hkey, ← hsets]
    exact hdeclared p hp ⟨e, he, hid.symm⟩ c (hid ▸ hc)
  have hsets := mem_declarations_sets (show ColonFree (conf.names cfg).forced from hforced)
    conf.entries
  -- nothing is surrendered either: each key is wanted by the point that has it
  have hsurrender : ∀ e ∈ declarations (conf.names cfg) conf.entries,
      surrender (declarations (conf.names cfg) conf.entries) w e = w := by
    intro e he
    unfold surrender
    rw [surrendered_nil hforced hvalid h he (hplaced e he)]
    rfl
  have hfirst : ∀ list : List Declaration,
      (∀ e ∈ list, surrender (declarations (conf.names cfg) conf.entries) w e = w) →
      list.foldl (surrender (declarations (conf.names cfg) conf.entries)) w = w := by
    intro list
    induction list with
    | nil => exact fun _ => rfl
    | cons e list ih =>
      intro hlist
      rw [List.foldl_cons, hlist e List.mem_cons_self]
      exact ih fun e' he' => hlist e' (List.mem_cons_of_mem e he')
  unfold applyDeclarations
  dsimp only
  rw [hentries, hfirst _ hsurrender]
  exact placed_quiet hsets h hplaced fun e he e' he' => declaration_point hvalid he he'

/-- With no claims but those of listed points there is nothing to prune. -/
theorem pruneRemovedPoints_quiet (h : Agree w.device) {configured : List String}
    (hconfigured : configuredPoints w.device = some configured)
    (hknown : ∀ q, ∀ c ∈ w.device.claims q, q ∈ configured) :
    (pruneRemovedPoints w).changed = w.changed ∧
      (pruneRemovedPoints w).device.values = w.device.values ∧
      ∀ q, ∀ c ∈ (pruneRemovedPoints w).device.claims q, c ∈ w.device.claims q := by
  have hset : ∀ set, pruneSet configured w set = w := by
    intro set
    unfold pruneSet
    have hmembers : ∀ m ∈ ownOrder (w.device.values set), m ∈ w.device.values set :=
      fun m hm => mem_ownOrder.1 hm
    generalize ownOrder (w.device.values set) = list at hmembers
    induction list with
    | nil => rfl
    | cons m list ih =>
      obtain ⟨hm, hmembers⟩ := List.forall_mem_cons.1 hmembers
      have hkey : (w.device.values set).containsKey m.1 = true :=
        (Members.isSome_get_iff _ _).2 (Members.mem_keys_of_mem hm)
      obtain ⟨hcolon, q, hq⟩ := h.valued set m.1 hkey
      have hin := hknown q _ ((h.owned set m.1 q hcolon).1 hq)
      have hkept : pruneKey configured set w m = w := by
        unfold pruneKey
        simp [hq, hin]
      rw [List.foldl_cons, hkept]
      exact ih hmembers
  have hsets : ∀ sets : List String, sets.foldl (pruneSet configured) w = w := by
    intro sets
    induction sets with
    | nil => rfl
    | cons set sets ih => rw [List.foldl_cons, hset, ih]
  -- a point that is forgotten has no claims
  have hpoints : ∀ (points : List String) (w' : Work), (∀ q ∈ points, q ∉ configured) →
      (∀ q, ∀ c ∈ w'.device.claims q, q ∈ configured) →
      (points.foldl prunePoint w').changed = w'.changed ∧
        (points.foldl prunePoint w').device.values = w'.device.values ∧
        (points.foldl prunePoint w').device.claims = w'.device.claims := by
    intro points
    induction points with
    | nil => exact fun w' _ _ => ⟨rfl, rfl, rfl⟩
    | cons point points ih =>
      intro w' hgone hknown'
      obtain ⟨hpoint, hgone⟩ := List.forall_mem_cons.1 hgone
      have hnone : w'.device.claims point = [] :=
        List.eq_nil_iff_forall_not_mem.2 fun c hc => hpoint (hknown' point c hc)
      have hclaims : (prunePoint w' point).device.claims = w'.device.claims := by
        unfold prunePoint
        dsimp only
        rw [hnone]
        show Function.update w'.device.claims point [] = w'.device.claims
        rw [← hnone, Function.update_eq_self]
      obtain ⟨hchanged, hvalues, hclaims'⟩ := ih (prunePoint w' point) hgone
        (by rw [hclaims]; exact hknown')
      have hone : (prunePoint w' point).changed = w'.changed ∧
          (prunePoint w' point).device.values = w'.device.values := by
        unfold prunePoint
        dsimp only
        rw [hnone]
        exact ⟨rfl, rfl⟩
      exact ⟨hchanged.trans hone.1, hvalues.trans hone.2, hclaims'.trans hclaims⟩
  unfold pruneRemovedPoints
  rw [hconfigured]
  dsimp only
  rw [hsets]
  obtain ⟨hchanged, hvalues, hclaims⟩ := hpoints
    (w.device.claimants.filter fun p => p ∉ configured) w
    (fun q hq => by simpa using (List.mem_filter.1 hq).2) hknown
  exact ⟨hchanged, hvalues, fun q c hc => by
    have hc : c ∈ ((w.device.claimants.filter fun p => p ∉ configured).foldl prunePoint
      w).device.claims q := hc
    rwa [hclaims] at hc⟩

/-- Repeated, the two messages change no value and publish nothing. -/
theorem settled_quiet (hforced : ColonFree (trimC cfg.defaultSet))
    (hvalid : conf.Valid (conf.names cfg)) (h : Settled cfg conf s) {caps payload : Json}
    (hdescribes : conf.Describes caps) (hlists : conf.Lists payload) :
    ∀ event ∈ [descriptorEvent conf caps, statusEvent conf payload],
      (step cfg conf.device s event).2 = [] ∧
        (step cfg conf.device s event).1.values = s.values := by
  -- nothing is released, and every declaration is there already
  have hdescriptor : (step cfg conf.device s (descriptorEvent conf caps)).2 = [] ∧
      (step cfg conf.device s (descriptorEvent conf caps)).1.values = s.values := by
    have hnames : naming cfg.defaultSet s.deviceType conf.protocol = conf.names cfg := by
      rw [Configuration.names, ← h.told.type]
      rfl
    have hnone : releasedBy conf s = [] := by
      refine List.filter_eq_nil_iff.2 fun entry hentry hreleased => ?_
      obtain ⟨point, hpoint, hall⟩ := (Option.any_eq_true _ _).1 hreleased
      rw [h.entries] at hentry
      have hother := List.all_eq_true.1 hall entry hentry
      have hsame := (Option.filter_eq_some_iff.1 hpoint).1
      simp [hsame] at hother
    have hstore : describedStore conf s = s.work.recordDeclared conf.protocol conf.entries := by
      unfold describedStore
      rw [hnone]
      rfl
    rw [step_descriptor s hdescribes]
    split
    · dsimp only
      rw [hnames, hstore]
      obtain ⟨hchanged, hvalues⟩ := applyDeclarations_quiet hforced hvalid
        (w := s.work.recordDeclared conf.protocol conf.entries)
        (h.agree.of_records rfl rfl rfl rfl rfl rfl) (by simp [Work.recordDeclared])
        (fun p hp hdeclares => h.declared p hp hdeclares)
      refine ⟨?_, hvalues⟩
      rw [twinMessages, hchanged]
      rfl
    · exact ⟨rfl, rfl⟩
  -- no point is pruned, since all are configured
  have hstatus : (step cfg conf.device s (statusEvent conf payload)).2 = [] ∧
      (step cfg conf.device s (statusEvent conf payload)).1.values = s.values := by
    obtain ⟨-, hclaims, -, -, hvalues, -⟩ :=
      recordType_records { s with
        protocol := some conf.protocol
        protocols := if "status" = "sample" ∨ "status" = "status" then
          addTo s.protocols conf.protocol else s.protocols } "status" payload
    have hstore : (listedStore conf s payload).device.claims = s.claims ∧
        (listedStore conf s payload).device.values = s.values := ⟨hclaims, hvalues⟩
    have hagree := agree_listedStore conf h.agree payload
    have hconfigured := configuredPoints_listedStore (Or.inr h.told.protocols) hlists
    obtain ⟨hchanged, hvalues', hclaims'⟩ := pruneRemovedPoints_quiet hagree hconfigured
      (by rw [hstore.1]; exact h.known)
    have hpruned := (Tables.pruned hagree).1
    obtain ⟨hchanged', hvalues''⟩ := applyDeclarations_quiet hforced hvalid hpruned
      ((congrFun (declared_pruned s payload) conf.protocol).trans h.entries)
      (fun p hp hdeclares c hc => h.declared p hp hdeclares c (hstore.1 ▸ hclaims' _ c hc))
    rw [step_status s hlists]
    refine ⟨?_, hvalues''.trans (hvalues'.trans hstore.2)⟩
    rw [twinMessages, hchanged', hchanged]
    rfl
  intro event hevent
  rcases List.mem_cons.1 hevent with rfl | hevent
  · exact hdescriptor
  · obtain rfl := List.mem_singleton.1 hevent
    exact hstatus

/-! ## Convergence -/

/-- The twin is that of the configuration: the fragments show the latest value of every parameter
that is read, and nothing else but values of points that are only written; any other is cleared. -/
structure Converged (cfg : Config) (conf : Configuration)
    (deliveries : List (ConfiguredPoint × Json)) (t : Twin) : Prop where
  current : ∀ p ∈ conf.points, p.readable = true → ∀ set ∈ p.sets (conf.names cfg),
    ∃ value, latest deliveries p = some value ∧ Carries cfg.stringify t.device set p.key value
  only : ∀ set key, (t.device.values set).containsKey key = true →
    (∃ p ∈ conf.points, p.readable = true ∧ set ∈ p.sets (conf.names cfg) ∧ key = p.key) ∨
      ∃ w ∈ conf.points, w.readable = false ∧ (set, key) ∈ t.device.claims w.id
  retained : ∀ set, t.retained set = twinPayload (t.device.values set)
  cleared : ∀ set, (∀ p ∈ conf.points, p.readable = true → set ∉ p.sets (conf.names cfg)) →
    (∀ w ∈ conf.points, w.readable = false → ∀ key, (set, key) ∉ t.device.claims w.id) →
    t.retained set = none

theorem named_delivered (hvalid : conf.Valid (conf.names cfg))
    (hdelivers : Delivers conf deliveries events) : ∀ event ∈ events, Named cfg event := by
  induction hdelivers with
  | nil => simp
  | @cons d event deliveries events hfirst hrest ih =>
    obtain ⟨hd, -, hsample⟩ := hfirst
    exact List.forall_mem_cons.2 ⟨named_sample (hvalid.named d.1 hd) hsample, ih⟩

theorem named_arrives {caps payload : Json} {messages : List Event}
    (h : Arrives conf caps payload messages) : ∀ event ∈ messages, Named cfg event := by
  have hstatus : Named cfg (statusEvent conf payload) := by simp [Named, statusEvent]
  have hdescriptor : Named cfg (descriptorEvent conf caps) := trivial
  cases h with
  | descriptorFirst => simp [hstatus, hdescriptor]
  | statusFirst => simp [hstatus, hdescriptor]

/-- A settled store, all of whose points have delivered, is the converged one. -/
theorem Settled.converged {t : Twin} (h : Settled cfg conf t.device)
    (hretained : ∀ set, t.retained set = twinPayload (t.device.values set))
    (hplaced : ∀ p ∈ conf.points, p.readable = true → Placed cfg conf t.device p)
    (hcurrent : ∀ p ∈ conf.points, p.readable = true → ∃ value, latest deliveries p = some value ∧
      Current cfg conf t.device p value) :
    Converged cfg conf deliveries t := by
  have honly : ∀ set key, (t.device.values set).containsKey key = true →
      (∃ p ∈ conf.points, p.readable = true ∧ set ∈ p.sets (conf.names cfg) ∧ key = p.key) ∨
        ∃ w ∈ conf.points, w.readable = false ∧ (set, key) ∈ t.device.claims w.id := by
    intro set key hvalue
    obtain ⟨hset, q, hq⟩ := h.agree.valued set key hvalue
    have hclaim := (h.agree.owned set key q hset).1 hq
    obtain ⟨p, hp, rfl⟩ := List.mem_map.1 (h.known q _ hclaim)
    by_cases hreadable : p.readable = true
    · obtain ⟨hkey, hin⟩ := hplaced p hp hreadable _ hclaim
      exact Or.inl ⟨p, hp, hreadable, hin, hkey⟩
    · exact Or.inr ⟨p, hp, by simpa using hreadable, hclaim⟩
  refine ⟨?_, honly, hretained, ?_⟩
  · intro p hp hreadable set hset
    obtain ⟨value, hlatest, hall⟩ := hcurrent p hp hreadable
    exact ⟨value, hlatest, (hall set hset).2⟩
  · intro set hread hwritten
    have hnone : t.device.values set = [] := by
      refine List.eq_nil_iff_forall_not_mem.2 fun m hm => ?_
      have hkey : (t.device.values set).containsKey m.1 = true :=
        (Members.isSome_get_iff _ _).2 (Members.mem_keys_of_mem hm)
      rcases honly set m.1 hkey with ⟨p, hp, hreadable, hin, -⟩ | ⟨w, hw, hsilent, hclaim⟩
      · exact hread p hp hreadable hin
      · exact hwritten w hw hsilent m.1 hclaim
    rw [hretained, hnone]
    rfl

/-- After the messages of the configuration and two rounds of samples the twin is that of the
configuration, and the messages change nothing any more. -/
theorem converges (hforced : ColonFree (trimC cfg.defaultSet))
    (hvalid : conf.Valid (conf.names cfg))
    (hplain : ∀ p ∈ conf.points, p.readable = true → p.key ≠ "__proto__")
    {history : List Event} (hnamed : ∀ event ∈ history, Named cfg event)
    (hserves : ∀ event ∈ history, conf.Serves event) {caps payload : Json}
    (hdescribes : conf.Describes caps) (hlists : conf.Lists payload) {messages : List Event}
    (harrives : Arrives conf caps payload messages)
    (hclear : Clear cfg conf (final (step cfg conf.device) Device.empty (history ++ messages)))
    {deliveries deliveries' : List (ConfiguredPoint × Json)} {first second : List Event}
    (hfirst : Delivers conf deliveries first) (hround : Round conf deliveries)
    (hsecond : Delivers conf deliveries' second) (hround' : Round conf deliveries') {t : Twin}
    (ht : t = final (Twin.step cfg conf.device) Twin.initial
      (history ++ messages ++ first ++ second)) :
    Converged cfg conf deliveries' t ∧
      ∀ event ∈ [descriptorEvent conf caps, statusEvent conf payload],
        (t.step cfg conf.device event).1.retained = t.retained ∧
          (t.step cfg conf.device event).1.device.values = t.device.values := by
  have hempty : Alone conf Device.empty.sources :=
    ⟨Or.inl rfl, by simp [Device.empty, Device.sources], by simp [Device.empty, Device.sources]⟩
  have halone : Alone conf (final (step cfg conf.device) Device.empty history).sources := by
    rw [sources_final]
    exact Alone.heard history hserves hempty
  have hagree := agree_final hforced conf.device hnamed (tables_empty (fun _ => False))
  have hsettled := settled hagree hforced hvalid halone hdescribes hlists harrives
  rw [← final_append] at hsettled
  -- the first round places every point, so that the second finds its key
  obtain ⟨hsettled', hclear', hplaced⟩ := round_places hforced hvalid hfirst hsettled hclear
  have hplaced : ∀ p ∈ conf.points, p.readable = true → Placed cfg conf
      (final (step cfg conf.device) (final (step cfg conf.device) Device.empty
        (history ++ messages)) first) p :=
    fun p hp hreadable => hplaced p hp (Or.inl (hround p hp hreadable))
  have htakes := fun (p : ConfiguredPoint) (hp : p ∈ conf.points) =>
    round_takes hforced hvalid hplain hsecond hsettled' hclear' hplaced hp none (by simp)
  obtain ⟨hsettled'', -, hplaced'⟩ := round_places hforced hvalid hsecond hsettled' hclear'
  have hdevice : t.device = final (step cfg conf.device) (final (step cfg conf.device)
      (final (step cfg conf.device) Device.empty (history ++ messages)) first) second := by
    rw [ht, Twin.final_device, ← final_append, ← final_append, List.append_assoc]
    rfl
  rw [← hdevice] at htakes hsettled'' hplaced'
  have hevents : ∀ event ∈ history ++ messages ++ first ++ second, Named cfg event := by
    simp only [List.forall_mem_append]
    exact ⟨⟨⟨hnamed, named_arrives harrives⟩, named_delivered hvalid hfirst⟩,
      named_delivered hvalid hsecond⟩
  have hretained := (Twin.final_keeps hforced conf.device hevents (tables_empty (fun _ => False))
    Twin.initial_retained).2
  rw [← ht] at hretained
  refine ⟨hsettled''.converged hretained ?_ ?_, ?_⟩
  · exact fun p hp hreadable => hplaced' p hp (Or.inl (hround' p hp hreadable))
  · intro p hp hreadable
    obtain ⟨value, hlatest⟩ := latest_of_mem (hround' p hp hreadable)
    exact ⟨value, hlatest, htakes p hp value hlatest⟩
  · intro event hevent
    obtain ⟨hquiet, hvalues⟩ := settled_quiet hforced hvalid hsettled'' hdescribes hlists event hevent
    refine ⟨?_, hvalues⟩
    unfold Twin.step
    dsimp only
    rw [hquiet]
    rfl

section Instances

/-- A sample of a point of a device without a type. -/
def samplePayload (p : ConfiguredPoint) (value : UInt64) : Json :=
  .object ([("point", .string p.id), ("access", .string p.access), ("quality", .string "good"),
    ("value", .number (.posInt value))] ++ (p.pointMeta.map fun v => ("meta", v)).toList)

def pointSample (conf : Configuration) (p : ConfiguredPoint) (value : UInt64) : Event :=
  .message conf.protocol "sample" p.id (samplePayload p value)

theorem pointSample_isSample (hdevice : conf.deviceType = "") (p : ConfiguredPoint)
    (value : UInt64) : IsSample conf (p, .number (.posInt value)) (pointSample conf p value) := by
  refine ⟨p.id, samplePayload p value, ?_, rfl⟩
  cases hmeta : p.pointMeta <;>
    exact ⟨rfl, by simp [Configuration.SaysType, hdevice, samplePayload, hmeta, textOf, Json.get,
      JsonMap.get, Option.filter], by simp [samplePayload, Json.get, JsonMap.get],
      by simp [samplePayload, Json.get, JsonMap.get],
      by simp [samplePayload, hmeta, Json.get, JsonMap.get],
      by simp [samplePayload, Json.get, JsonMap.get], by simp [samplePayload, Json.get, JsonMap.get]⟩

def statusPayload (points : List String) : Json :=
  .object [("points", .array (points.map Json.string))]

theorem statusPayload_lists (hdevice : conf.deviceType = "") :
    conf.Lists (statusPayload conf.ids) := by
  refine ⟨rfl, ?_, ?_⟩
  · simp [Configuration.SaysType, hdevice, statusPayload, textOf, Json.get, JsonMap.get,
      Option.filter]
  · have hids : (conf.ids.map Json.string).filterMap Json.asStr = conf.ids := by
      induction conf.ids with
      | nil => rfl
      | cons id ids ih => simpa [Json.asStr] using ih
    simpa [listedPoints, statusPayload, Json.get, JsonMap.get] using hids

/-- A point of the set `B`. -/
def levelPoint : ConfiguredPoint where
  id := "p"
  access := "read_write"
  pointMeta := some (.object [("parameter", .object [("key", .string "level"), ("set", .string "B")])])

/-- A point of the set `B` that is only written, and declared. -/
def setpointPoint : ConfiguredPoint where
  id := "w"
  access := "write"
  pointMeta := some (.object [("parameter", .object [("key", .string "goal"), ("set", .string "B")])])

/-- A point that is only written, and not declared any more. -/
def formerPoint : ConfiguredPoint := ⟨"u", "write", none⟩

def movedConf : Configuration :=
  ⟨"meter", "modbus", "tedge-dot-modbus", "", [levelPoint, setpointPoint, formerPoint]⟩

def keyEntry (point key set : String) : Json :=
  .object [("device", .string "meter"), ("point", .string point), ("key", .string key),
    ("set", .string set)]

def keysCaps (entries : List Json) : Json :=
  .object [("protocol", .string "modbus"), ("parameter_keys", .array entries)]

def movedCaps : Json := keysCaps [keyEntry "p" "level" "B", keyEntry "w" "goal" "B"]

/-- A sample of a point in a set. -/
def sampleIn (point set : String) : Event :=
  .message "modbus" "sample" point (.object [("point", .string point), ("access", .string "read_write"),
    ("quality", .string "good"), ("value", .number (.posInt 1)),
    ("meta", .object [("parameter", .object [("set", .string set)])])])

/-- Before the change one point was in the set `A`, and the descriptor had the second there too; the
third was read, in the set `D`. -/
def movedHistory : List Event :=
  [sampleIn "p" "A", sampleIn "u" "D",
    .capabilities "tedge-dot-modbus" (keysCaps [keyEntry "w" "w" "A"])]

theorem movedConf_valid : movedConf.Valid (movedConf.names plainConfig) := by
  have hlevel : levelPoint.sets (movedConf.names plainConfig) = ["B"] := by decide +kernel
  have hsetpoint : setpointPoint.sets (movedConf.names plainConfig) = ["B"] := by decide +kernel
  have hformer : formerPoint.sets (movedConf.names plainConfig) = ["modbus_control_parameters"] := by
    decide +kernel
  have hkeys : levelPoint.key = "level" ∧ setpointPoint.key = "goal" := by decide +kernel
  generalize movedConf.names plainConfig = names at hlevel hsetpoint hformer ⊢
  constructor
  · simp [movedConf, Configuration.ids, levelPoint, setpointPoint, formerPoint]
  · simp [movedConf, levelPoint, setpointPoint, formerPoint]
  · simp [movedConf, hlevel, hsetpoint, hformer, hkeys]
  · simp [movedConf, hlevel, hsetpoint, hformer, hkeys, literalKey]

theorem sampleIn_named {point : String} (hpoint : point ≠ "") (set : String) :
    Named plainConfig (sampleIn point set) := by
  simp [Named, sampleIn, samplePoint, Json.get, JsonMap.get, truthy, Json.asStr, Option.filter, hpoint]

theorem movedConf_delivers (value : UInt64) :
    Delivers movedConf [(levelPoint, .number (.posInt value))]
      [pointSample movedConf levelPoint value] :=
  List.Forall₂.cons ⟨List.mem_cons_self, rfl, pointSample_isSample rfl levelPoint value⟩
    List.Forall₂.nil

theorem eq_levelPoint {p : ConfiguredPoint} (hp : p ∈ movedConf.points) (h : p.readable = true) :
    p = levelPoint := by
  have hp : p = levelPoint ∨ p = setpointPoint ∨ p = formerPoint := by simpa [movedConf] using hp
  rcases hp with rfl | rfl | rfl
  · rfl
  · cases h
  · cases h

theorem movedConf_round (value : Json) : Round movedConf [(levelPoint, value)] := by
  intro p hp hreadable
  obtain rfl := eq_levelPoint hp hreadable
  exact ⟨value, List.mem_singleton.2 rfl⟩

/-- The point that is not declared keeps what it held in the set `D`, where nothing is to be. -/
theorem movedConf_clear : Clear plainConfig movedConf (final (step plainConfig "meter") Device.empty
    (movedHistory ++ [statusEvent movedConf (statusPayload ["p", "w", "u"]),
      descriptorEvent movedConf movedCaps])) := by
  intro w hw hsilent hundeclared c hc p hp hreadable hin
  obtain rfl := eq_levelPoint hp hreadable
  have hw : w = levelPoint ∨ w = setpointPoint ∨ w = formerPoint := by simpa [movedConf] using hw
  rcases hw with rfl | rfl | rfl
  · cases hsilent
  · refine absurd ?_ hundeclared
    show ∃ e ∈ declarations (movedConf.names plainConfig) movedConf.entries, e.point = "w"
    decide +kernel
  · have hclaims : (final (step plainConfig "meter") Device.empty
        (movedHistory ++ [statusEvent movedConf (statusPayload ["p", "w", "u"]),
          descriptorEvent movedConf movedCaps])).claims "u" = [("D", "u")] := by decide +kernel
    have hlevel : levelPoint.sets (movedConf.names plainConfig) = ["B"] := by decide +kernel
    obtain rfl : c = ("D", "u") := List.mem_singleton.1 (hclaims ▸ hc)
    rw [hlevel] at hin
    simp at hin

/-- Two points leave the set `A`, which was shown before and is cleared. -/
theorem converges_moved :
    ((final (Twin.step plainConfig "meter") Twin.initial movedHistory).retained "A").isSome ∧
    Converged plainConfig movedConf [(levelPoint, .number (.posInt 2))]
      (final (Twin.step plainConfig "meter") Twin.initial
        (movedHistory ++ [statusEvent movedConf (statusPayload ["p", "w", "u"]),
          descriptorEvent movedConf movedCaps] ++
          [pointSample movedConf levelPoint 1] ++ [pointSample movedConf levelPoint 2])) := by
  refine ⟨by decide +kernel, ?_⟩
  have hplain : ∀ p ∈ movedConf.points, p.readable = true → p.key ≠ "__proto__" := by
    intro p hp hreadable
    obtain rfl := eq_levelPoint hp hreadable
    decide +kernel
  have hnamed : ∀ event ∈ movedHistory, Named plainConfig event := by
    simp only [movedHistory, List.forall_mem_cons]
    exact ⟨sampleIn_named (by decide) "A", sampleIn_named (by decide) "D", trivial, by simp⟩
  have hserves : ∀ event ∈ movedHistory, movedConf.Serves event := by
    simp only [movedHistory, List.forall_mem_cons]
    refine ⟨fun _ => rfl, fun _ => rfl, ⟨?_, fun hother => absurd rfl hother⟩, by simp⟩
    rintro - protocol ⟨⟩
    rfl
  have hdescribes : movedConf.Describes movedCaps := ⟨rfl, _, rfl, rfl⟩
  exact (converges (by simp [ColonFree, plainConfig, trimC]) movedConf_valid hplain hnamed hserves
    hdescribes (statusPayload_lists rfl) .statusFirst movedConf_clear (movedConf_delivers 1)
    (movedConf_round _) (movedConf_delivers 2) (movedConf_round _) rfl).1

/-- A point of the set `A` that is only written from now on, and one that takes its key there. -/
def writtenPoint : ConfiguredPoint := ⟨"w", "write", none⟩

def takingPoint : ConfiguredPoint where
  id := "q"
  access := "read_write"
  pointMeta := some (.object [("parameter", .object [("key", .string "w"), ("set", .string "A")])])

def blockedConf : Configuration :=
  ⟨"meter", "modbus", "tedge-dot-modbus", "", [writtenPoint, takingPoint]⟩

def blockedCaps : Json := keysCaps [keyEntry "q" "w" "A"]

/-- What the point was before: read, in the set `A`. -/
def formerSample : Event := sampleIn "w" "A"

theorem blockedConf_valid : blockedConf.Valid (blockedConf.names plainConfig) := by
  have hwritten : writtenPoint.sets (blockedConf.names plainConfig) =
      ["modbus_control_parameters"] := by decide +kernel
  have htaking : takingPoint.sets (blockedConf.names plainConfig) = ["A"] := by decide +kernel
  generalize blockedConf.names plainConfig = names at hwritten htaking ⊢
  constructor
  · simp [blockedConf, Configuration.ids, writtenPoint, takingPoint]
  · simp [blockedConf, writtenPoint, takingPoint]
  · simp [blockedConf, hwritten, htaking]
  · simp [blockedConf, hwritten, htaking]

/-- The point that is only written keeps what it held, and the one that is read never takes it. -/
theorem never_converges : blockedConf.Valid (blockedConf.names plainConfig) ∧
    Named plainConfig formerSample ∧ blockedConf.Serves formerSample ∧
    blockedConf.Describes blockedCaps ∧ blockedConf.Lists (statusPayload ["w", "q"]) ∧
    Delivers blockedConf [(takingPoint, .number (.posInt 5))] [pointSample blockedConf takingPoint 5] ∧
    Round blockedConf [(takingPoint, .number (.posInt 5))] ∧
    ¬ Converged plainConfig blockedConf [(takingPoint, .number (.posInt 5))]
      (final (Twin.step plainConfig "meter") Twin.initial
        ([formerSample] ++ [descriptorEvent blockedConf blockedCaps,
          statusEvent blockedConf (statusPayload ["w", "q"])] ++
          [pointSample blockedConf takingPoint 5] ++ [pointSample blockedConf takingPoint 5])) := by
  refine ⟨blockedConf_valid, ?_, fun _ => rfl, ?_, statusPayload_lists rfl, ?_, ?_, ?_⟩
  · exact sampleIn_named (by decide) "A"
  · refine ⟨rfl, _, rfl, ?_⟩
    rfl
  · exact List.Forall₂.cons ⟨by simp [blockedConf], rfl, pointSample_isSample rfl takingPoint 5⟩
      List.Forall₂.nil
  · intro p hp hreadable
    have hp : p = writtenPoint ∨ p = takingPoint := by simpa [blockedConf] using hp
    rcases hp with rfl | rfl
    · cases hreadable
    · exact ⟨_, List.mem_singleton.2 rfl⟩
  · intro h
    obtain ⟨value, hlatest, x, hx, htext⟩ := h.current takingPoint (by simp [blockedConf]) rfl "A"
      (by decide +kernel)
    obtain rfl : .number (.posInt 5) = value := Option.some.inj hlatest
    have hshown : (((final (Twin.step plainConfig "meter") Twin.initial
        ([formerSample] ++ [descriptorEvent blockedConf blockedCaps,
          statusEvent blockedConf (statusPayload ["w", "q"])] ++
          [pointSample blockedConf takingPoint 5] ++
          [pointSample blockedConf takingPoint 5])).device.values "A").get takingPoint.key).map
        plainConfig.stringify = some "1" := by decide +kernel
    rw [hx, Option.map_some, htext] at hshown
    exact absurd (Option.some.inj hshown) (by decide +kernel)

end Instances

end TedgeDot.Flows.ParameterState
