import TedgeDot.Flows.Convergence
import TedgeDot.Lib.Latest

/-!
# The order of capability descriptors

What `ot-parameter-state` has of a device is what the latest descriptor of each service lists, in
whatever order the descriptors came: the declared keys where at no moment two services of a protocol
list the device, and the claims where moreover no two points want the same key of a set at the same
moment, or a key and the literal of one set.

## Main definitions

- `listed`: what a descriptor lists of the device.
- `Separate`: points of the latest descriptors do not get in each other's way.
- `Holds`: a point has its key, and claims it in exactly its sets.

## Main results

- `declared_shown`: the declared keys are those of the latest descriptors.
- `claims_held`: the claims are those of the latest descriptors.
-/

namespace TedgeDot.Flows.ParameterState

open TedgeDot.Machine TedgeDot.Latest

variable {cfg : Config} {device : String}

/-! ## What is declared -/

/-- The entries a descriptor lists of the device, by its service. -/
def listed (device : String) : Event → Option (String × List Json)
  | .message _ _ _ _ => none
  | .capabilities service caps =>
    match textOf caps "protocol", descriptorEntries caps with
    | some _, some entries => some (service, (entries.filter fun e => e.1 = device).map (·.2))
    | _, _ => none

/-- Every descriptor of a service names the service's protocol. -/
def OfProtocols (protocolOf : String → String) (events : List Event) : Prop :=
  ∀ service caps, .capabilities service caps ∈ events → ∀ protocol,
    textOf caps "protocol" = some protocol → protocol = protocolOf service

/-- Nothing was declared for the device yet. -/
structure Undeclared (s : Device) : Prop where
  declared : s.declared = fun _ => []
  declaring : s.declaring = []

variable {s : Device} {q : String} {e : Declaration} {point key : String} {w : Work}
  {entries : List Declaration} {entry : Json}

/-- The flow counts a service as declaring while its last descriptor lists something for the device.
-/
theorem mem_declaring (device : String) (h : Undeclared s) (events : List Event) (service : String) :
    service ∈ (events.foldl (Sources.hear device) s.sources).declaring ↔
      latestLists (listed device) events service ≠ [] := by
  -- from the last descriptor back: only it matters for its service
  induction events using List.reverseRecOn with
  | nil => simp [latestLists, Device.sources, h.declaring]
  | append_singleton events event ih =>
    rw [List.foldl_append, List.foldl_cons, List.foldl_nil, latestLists_snoc]
    generalize events.foldl (Sources.hear device) s.sources = src at ih ⊢
    generalize latestLists (listed device) events = l at ih ⊢
    unfold hear listed Sources.hear
    cases event with
    | message protocol kind name payload =>
      dsimp only
      split <;> exact ih
    | capabilities sender caps =>
      dsimp only
      cases hprotocol : textOf caps "protocol" with
      | none => exact ih
      | some protocol =>
        cases hentries : descriptorEntries caps with
        | none => exact ih
        | some entries =>
          dsimp only
          generalize (entries.filter fun e => e.1 = device).map (·.2) = declared
          unfold Sources.hearDescriptor
          by_cases hsender : service = sender
          · subst hsender
            rw [Function.update_self]
            by_cases hnone : declared = []
            · subst hnone
              split <;> simp_all
            · simp [hnone, mem_addTo]
          · rw [Function.update_of_ne hsender, ← ih]
            split
            · dsimp only
              split <;> simp [hsender, mem_addTo]
            · rfl

/-- The entries kept for a protocol are those of the services that speak it. -/
theorem declared_places {protocolOf : String → String} (h : Undeclared s) {events : List Event}
    (hprotocols : OfProtocols protocolOf events) :
    (events.foldl (Sources.hear device) s.sources).declared =
      places protocolOf (listed device) events := by
  induction events using List.reverseRecOn with
  | nil => exact h.declared
  | append_singleton events event ih =>
    have hbefore : OfProtocols protocolOf events := fun service caps hmem =>
      hprotocols service caps (List.mem_append_left [event] hmem)
    have hdeclaring := mem_declaring device h events
    rw [List.foldl_append, List.foldl_cons, List.foldl_nil, places_snoc, ← ih hbefore]
    generalize events.foldl (Sources.hear device) s.sources = src at hdeclaring ⊢
    generalize latestLists (listed device) events = l at hdeclaring ⊢
    cases event with
    | message protocol kind name payload =>
      simp only [place, listed, Sources.hear]
      split <;> rfl
    | capabilities service caps =>
      have hown := hprotocols service caps (by simp)
      unfold place listed Sources.hear
      dsimp only
      cases hprotocol : textOf caps "protocol" with
      | none => rfl
      | some protocol =>
        cases hentries : descriptorEntries caps with
        | none => rfl
        | some entries =>
          obtain rfl := hown protocol hprotocol
          dsimp only
          unfold Sources.hearDescriptor
          simp only [hdeclaring service]
          split <;> rfl

/-- Where at no moment two services of a protocol list the device, what is declared for a protocol is
what its one service lists. -/
theorem declared_shown (cfg : Config) {protocolOf : String → String} (h : Undeclared s)
    {events : List Event} (hprotocols : OfProtocols protocolOf events)
    (hlone : ∀ moment, moment <+: events → Lone protocolOf (latestLists (listed device) moment)) :
    Shown protocolOf (latestLists (listed device) events)
      (final (step cfg device) s events).declared := by
  have hsources := sources_final cfg device s events
  have hdeclared : (final (step cfg device) s events).declared =
      places protocolOf (listed device) events :=
    (congrArg Sources.declared hsources).trans (declared_places h hprotocols)
  rw [hdeclared]
  exact shown_of_lone hlone

/-! ## What the declarations of a protocol leave -/

/-- Two points do not both want a key of a set, nor one a key and the other the literal of one set. -/
def Apart (d e : Declaration) : Prop :=
  d.point ≠ e.point → ∀ set ∈ d.sets, set ∈ e.sets →
    d.key ≠ e.key ∧ d.key ≠ literalKey ∧ e.key ≠ literalKey

/-- The point has its key, and claims it in exactly its sets. -/
def Holds (s : Device) (e : Declaration) : Prop :=
  keyOf s e.point = e.key ∧ ∀ c, c ∈ s.claims e.point ↔ c.2 = e.key ∧ c.1 ∈ e.sets

/-- The records of a point are as they were. -/
def Untouched (q : String) (s s' : Device) : Prop :=
  s'.claims q = s.claims q ∧ keyOf s' q = keyOf s q

theorem Untouched.trans {s s' s'' : Device} (h : Untouched q s s') (h' : Untouched q s' s'') :
    Untouched q s s'' :=
  ⟨h'.1.trans h.1, h'.2.trans h.2⟩

theorem Holds.of_untouched {s s' : Device} (h : Holds s e) (hsame : Untouched e.point s s') :
    Holds s' e := by
  refine ⟨hsame.2.trans h.1, fun c => ?_⟩
  rw [hsame.1]
  exact h.2 c

variable {isOpen : String → Prop}

theorem mem_claimAll_of_mem (sets : List String) {c : String × String}
    (h : c ∈ w.device.claims point) : c ∈ (claimAll point key w sets).device.claims point := by
  unfold claimAll
  induction sets generalizing w with
  | nil => exact h
  | cons set sets ih =>
    exact ih (w := { w with device := (claim w.device set key point).1 }) (claim_claims_subset h)

/-- A point that nobody blocks claims its key in every set. -/
theorem claimAll_holds (h : Tables isOpen w.device) (hpoint : point ≠ "") (hclosed : ¬ isOpen point)
    {sets : List String} (hsets : ∀ set ∈ sets, ColonFree set) (hkey : keyOf w.device point = key)
    (hfree : ∀ set ∈ sets, Unblocked w.device point set key) :
    ∀ set ∈ sets, (set, key) ∈ (claimAll point key w sets).device.claims point := by
  induction sets generalizing w with
  | nil => simp
  | cons first sets ih =>
    obtain ⟨hfirst, hsets⟩ := List.forall_mem_cons.1 hsets
    obtain ⟨hfreefirst, hfree⟩ := List.forall_mem_cons.1 hfree
    subst hkey
    obtain ⟨hclaimed, howner⟩ := h.claimed hfirst hpoint hclosed
    have hleaves := claim_leaves w.device first (keyOf w.device point) point
    intro set hset
    rcases List.mem_cons.1 hset with rfl | hlater
    · have hmine := howner (claim_unblocked h hfirst hfreefirst)
      exact mem_claimAll_of_mem sets
        (w := { w with device := (claim w.device set (keyOf w.device point) point).1 })
        ((hclaimed.owned set _ point hfirst).1 hmine)
    · exact ih (w := { w with device := (claim w.device first (keyOf w.device point) point).1 })
        hclaimed hsets (by simp [keyOf]) (fun set hset => (hfree set hset).of_leaves hleaves) set
          hlater

theorem placePoint_untouched (h : Tables isOpen w.device) (point : String)
    {sets : Option (List String)} (hsets : ∀ set ∈ sets.getD [], ColonFree set) (key : String)
    (hq : q ≠ point) : Untouched q w.device (placePoint w point sets key).device :=
  ⟨(placePoint_leaves h point hsets key).claims q hq, keyOf_placePoint_other w point sets key hq⟩

/-- An entry that nobody blocks is in force once it is placed. -/
theorem placeDeclared_holds (h : Agree w.device) (hpoint : e.point ≠ "")
    (hsets : ∀ set ∈ e.sets, ColonFree set)
    (hfree : ∀ set ∈ e.sets, Unblocked w.device e.point set e.key) :
    Holds (placeDeclared w e).device e := by
  have hsets' : ∀ set ∈ (some e.sets).getD [], ColonFree set := hsets
  refine ⟨keyOf_placePoint _ _ _ _, fun c => ⟨placePoint_claims h hsets', ?_⟩⟩
  obtain ⟨set, key⟩ := c
  rintro ⟨rfl, hset⟩
  have hrecorded := h.recordedSets e.point hsets'
  have hnames : ∀ c ∈ staleClaims (w.recordSets e.point (some e.sets)).device e.point e.sets e.key,
      ColonFree c.1 := hrecorded.stale_named
  obtain ⟨hdropped, -, hleft⟩ := hrecorded.droppedClaims e.point hnames
  have hleaves := dropClaims_leaves hrecorded e.point hnames
  unfold placeDeclared placePoint
  simp only [Option.getD_some]
  generalize dropClaims e.point (w.recordSets e.point (some e.sets)) _ = w' at *
  have hkept : ∀ c ∈ w'.device.claims e.point, c.2 = e.key := by
    intro c hc
    obtain ⟨hclaim, hkept⟩ := (hleft e.point c).1 hc
    by_contra hother
    exact hkept ⟨rfl, List.mem_filter.2 ⟨hclaim, by simp [hother]⟩⟩
  have hfree' : ∀ set ∈ e.sets, Unblocked (w'.recordKey e.point e.key).device e.point set e.key := by
    intro set hset
    have hbefore : Unblocked (w.recordSets e.point (some e.sets)).device e.point set e.key :=
      hfree set hset
    have hafter : Unblocked w'.device e.point set e.key := hbefore.of_leaves hleaves
    exact hafter
  exact claimAll_holds (hdropped.recordedKey hkept) hpoint id hsets (keyOf_recordKey _ _ _) hfree' set
    hset

/-- Entries that can be placed: of points with names, in sets without a colon. -/
def Placeable (entries : List Declaration) : Prop :=
  ∀ e ∈ entries, e.point ≠ "" ∧ ∀ set ∈ e.sets, ColonFree set

theorem placed_untouched (hsets : Placeable entries) (h : Agree w.device)
    (hq : ∀ e ∈ entries, e.point ≠ q) :
    Untouched q w.device (entries.foldl placeDeclared w).device := by
  induction entries generalizing w with
  | nil => exact ⟨rfl, rfl⟩
  | cons e entries ih =>
    obtain ⟨⟨hpoint, hfirst⟩, hsets⟩ := List.forall_mem_cons.1 hsets
    obtain ⟨hne, hq⟩ := List.forall_mem_cons.1 hq
    have hfirst : ∀ set ∈ (some e.sets).getD [], ColonFree set := hfirst
    exact (placePoint_untouched h e.point hfirst e.key hne.symm).trans
      (ih hsets (h.placedPoint hpoint id hfirst e.key).1 hq)

/-- Entries of different points, apart from each other, are all in force at the end. -/
theorem placed_holds (hsets : Placeable entries)
    (hone : ∀ d ∈ entries, ∀ e ∈ entries, d.point = e.point → d = e)
    (hapart : ∀ d ∈ entries, ∀ e ∈ entries, Apart d e) (h : Agree w.device)
    (hfree : ∀ e ∈ entries, ∀ set ∈ e.sets, Unblocked w.device e.point set e.key) :
    ∀ e ∈ entries, Holds (entries.foldl placeDeclared w).device e := by
  -- a later entry is apart from the first, so it leaves it in force
  induction entries generalizing w with
  | nil => simp
  | cons first entries ih =>
    obtain ⟨⟨hpoint, hfirst⟩, hsets'⟩ := List.forall_mem_cons.1 hsets
    obtain ⟨hfreefirst, hfree⟩ := List.forall_mem_cons.1 hfree
    have hfirst' : ∀ set ∈ (some first.sets).getD [], ColonFree set := hfirst
    have hafter := (h.placedPoint hpoint id hfirst' first.key).1
    have hholds := placeDeclared_holds h hpoint hfirst hfreefirst
    have hfree' : ∀ e ∈ entries, ∀ set ∈ e.sets,
        Unblocked (placeDeclared w first).device e.point set e.key := by
      intro e he set hset q hq k hk
      by_cases hfirstq : q = first.point
      · subst hfirstq
        -- what was just placed is apart from what is still to be placed
        obtain ⟨rfl, hin⟩ := (hholds.2 _).1 hk
        exact hapart first List.mem_cons_self e (List.mem_cons_of_mem first he) hq set hin hset
      · have hsame := placePoint_untouched h first.point hfirst' first.key hfirstq
        rw [show (placeDeclared w first).device.claims q = w.device.claims q from hsame.1] at hk
        exact hfree e he set hset q hq k hk
    have hrest := ih hsets'
      (fun d hd e he => hone d (List.mem_cons_of_mem first hd) e (List.mem_cons_of_mem first he))
      (fun d hd e he => hapart d (List.mem_cons_of_mem first hd) e (List.mem_cons_of_mem first he))
      (w := placeDeclared w first) hafter hfree'
    intro e he
    rcases List.mem_cons.1 he with rfl | hlater
    · by_cases hagain : ∃ d ∈ entries, d.point = e.point
      · obtain ⟨d, hd, hsame⟩ := hagain
        obtain rfl := hone d (List.mem_cons_of_mem e hd) e List.mem_cons_self hsame
        exact hrest d hd
      · apply hholds.of_untouched
        exact placed_untouched hsets' hafter fun d hd hsame => hagain ⟨d, hd, hsame⟩
    · exact hrest e hlater

/-- Where no two entries want one key, the key is wanted by its own point. -/
theorem wanted_eq (hsets : Placeable entries) (hapart : ∀ d ∈ entries, ∀ e ∈ entries, Apart d e)
    (he : e ∈ entries) {set : String} (hset : set ∈ e.sets) :
    wanted entries (pointKey set e.key) = some e.point := by
  have hmem : (pointKey set e.key, e.point) ∈
      entries.flatMap fun e => e.sets.map fun set => (pointKey set e.key, e.point) :=
    List.mem_flatMap.2 ⟨e, he, List.mem_map.2 ⟨set, hset, rfl⟩⟩
  unfold wanted
  cases hfind : (entries.flatMap fun e => e.sets.map fun set =>
      (pointKey set e.key, e.point)).reverse.find? fun x => x.1 == pointKey set e.key with
  | none =>
    have hnone := List.find?_eq_none.1 hfind _ (List.mem_reverse.2 hmem)
    simp at hnone
  | some x =>
    obtain ⟨d, hd, hx⟩ := List.mem_flatMap.1 (List.mem_reverse.1 (List.mem_of_find?_eq_some hfind))
    obtain ⟨set', hset', rfl⟩ := List.mem_map.1 hx
    have hname : pointKey set' d.key = pointKey set e.key := by
      simpa using List.find?_some hfind
    obtain ⟨rfl, hkey⟩ := pointKey_inj ((hsets d hd).2 set' hset') ((hsets e he).2 set hset) hname
    rw [Option.map_some, Option.some.injEq]
    by_contra hne
    exact (hapart d hd e he hne set' hset' hset).1 hkey

theorem surrendered_untouched {entries list : List Declaration} (h : Agree w.device)
    (hq : ∀ e ∈ list, e.point ≠ q) :
    Untouched q w.device (list.foldl (surrender entries) w).device := by
  refine ⟨?_, by rw [keyOf, (surrendered_claims entries list h).2.1]; rfl⟩
  induction list generalizing w with
  | nil => rfl
  | cons e list ih =>
    obtain ⟨hne, hq⟩ := List.forall_mem_cons.1 hq
    have hnames : ∀ c ∈ surrendered w.device entries e.point, ColonFree c.1 :=
      fun c hc => h.named e.point c (List.mem_filter.1 hc).1
    have hleaves := dropClaims_leaves h e.point hnames
    exact (ih (h.droppedClaims e.point hnames).1 hq).trans (hleaves.claims q hne.symm)

theorem surrendered_given_up {entries list : List Declaration} (h : Agree w.device) (he : e ∈ list)
    {c : String × String} (hc : c ∈ (list.foldl (surrender entries) w).device.claims e.point) :
    ∀ taker, wanted entries (pointKey c.1 c.2) = some taker → taker = e.point := by
  induction list generalizing w with
  | nil => cases he
  | cons first list ih =>
    have hnames : ∀ c ∈ surrendered w.device entries first.point, ColonFree c.1 :=
      fun c hc => h.named first.point c (List.mem_filter.1 hc).1
    obtain ⟨hafter, -, hleft⟩ := h.droppedClaims first.point hnames
    rcases List.mem_cons.1 he with rfl | hlater
    · have hmid := (surrendered_claims entries list (w := surrender entries w e) hafter).2.2 _ c hc
      obtain ⟨hbefore, hkept⟩ := (hleft e.point c).1 hmid
      intro taker htaker
      by_contra hother
      apply hkept
      exact ⟨rfl, List.mem_filter.2 ⟨hbefore, by simpa [htaker] using hother⟩⟩
    · exact ih (w := surrender entries w first) hafter hlater hc

/-- Separate entries are placed where nothing of the other points is in their way: a point that is
not placed now may not have what an entry wants, and one that is placed may have the key. -/
theorem applyDeclarations_holds (h : Agree w.device) {names : Names}
    (hforced : ColonFree names.forced) {protocol : String}
    (hentries : declarations names (w.device.declared protocol) = entries)
    (hone : ∀ d ∈ entries, ∀ e ∈ entries, d.point = e.point → d = e)
    (hapart : ∀ d ∈ entries, ∀ e ∈ entries, Apart d e)
    (hfree : ∀ q, ∀ c ∈ w.device.claims q, ∀ e ∈ entries, e.point ≠ q → c.1 ∈ e.sets →
      (c.2 ≠ literalKey ∧ e.key ≠ literalKey) ∧ ((∀ d ∈ entries, d.point ≠ q) → c.2 ≠ e.key)) :
    (∀ e ∈ entries, Holds (applyDeclarations w names protocol).device e) ∧
      ∀ q, (∀ e ∈ entries, e.point ≠ q) →
        Untouched q w.device (applyDeclarations w names protocol).device := by
  have hsets : Placeable entries := hentries ▸ mem_declarations_sets hforced _
  unfold applyDeclarations
  dsimp only
  rw [hentries]
  obtain ⟨hagree, -, hsubset⟩ := surrendered_claims entries entries h
  constructor
  · apply placed_holds hsets hone hapart hagree
    intro e he set hset q hq k hk
    obtain ⟨⟨hkey, hliteral⟩, hother⟩ := hfree q _ (hsubset q _ hk) e he hq.symm hset
    refine ⟨?_, hkey, hliteral⟩
    by_cases hdeclared : ∃ d ∈ entries, d.point = q
    · obtain ⟨d, hd, rfl⟩ := hdeclared
      rintro rfl
      -- the first pass took the key from a point that is placed elsewhere
      exact hq (surrendered_given_up h hd hk e.point (wanted_eq hsets hapart he hset)).symm
    · exact hother fun d hd hsame => hdeclared ⟨d, hd, hsame⟩
  · intro q hq
    exact (surrendered_untouched h hq).trans (placed_untouched hsets hagree hq)

/-! ## What a descriptor lets go -/

theorem declaration_entry {names : Names} {entries : List Json} {d : Declaration}
    (h : d ∈ declarations names entries) :
    ∃ entry ∈ entries, entryPoint entry = some d.point ∧ declaredKey entry = some d.key := by
  obtain ⟨entry, hentry, hplace⟩ := List.mem_filterMap.1 h
  split at hplace
  · next point key hpoint hkey =>
    obtain rfl := Option.some.inj hplace
    exact ⟨entry, hentry, hpoint, hkey⟩
  · cases hplace

theorem entry_declaration (names : Names) {entries : List Json} (hentry : entry ∈ entries)
    (hpoint : entryPoint entry = some point) (hkey : declaredKey entry = some key) :
    ∃ d ∈ declarations names entries, d.point = point ∧ d.key = key :=
  ⟨{ point, key, sets := setsOf entry names },
    List.mem_filterMap.2 ⟨entry, hentry, by simp only [hpoint, hkey]⟩, rfl, rfl⟩

/-- Every entry that names a point can be placed. -/
def Usable (entries : List Json) : Prop :=
  ∀ entry ∈ entries, (entryPoint entry).isSome = true → (declaredKey entry).isSome = true

theorem Usable.declared {entries : List Json} (h : Usable entries) (names : Names)
    (hentry : entry ∈ entries) (hpoint : entryPoint entry = some q) :
    ∃ d ∈ declarations names entries, d.point = q := by
  obtain ⟨key, hkey⟩ := Option.isSome_iff_exists.1 (h entry hentry (by simp [hpoint]))
  obtain ⟨d, hd, hname, -⟩ := entry_declaration names hentry hpoint hkey
  exact ⟨d, hd, hname⟩

/-- The entries of points that are not listed any more. -/
def letGo (before listed : List Json) : List Json :=
  before.filter fun entry => (entryPoint entry).any fun point =>
    listed.all fun e => (e.get "point").bind Json.asStr != some point

theorem mem_letGo {before listed : List Json} (hq : q ≠ "") (hpoint : entryPoint entry = some q) :
    entry ∈ letGo before listed ↔ entry ∈ before ∧ ∀ e ∈ listed, entryPoint e ≠ some q := by
  have hnamed : ∀ e : Json, entryPoint e = some q ↔ (e.get "point").bind Json.asStr = some q := by
    intro e
    simp [entryPoint, Option.filter_eq_some_iff, hq]
  simp only [letGo, List.mem_filter, hpoint, Option.any_some, List.all_eq_true, bne_iff_ne, ne_eq,
    hnamed]

theorem releaseDeclaration_untouched (h : Agree w.device) (hq : entryPoint entry ≠ some q) :
    Untouched q w.device (releaseDeclaration w entry).device := by
  unfold releaseDeclaration
  split
  · next point hpoint =>
    have hne : q ≠ point := by
      rintro rfl
      exact hq hpoint
    split
    · have hleaves := dropClaims_leaves h point (h.named point)
      refine ⟨hleaves.claims q hne, ?_⟩
      simp [forgetPoint, keyOf, Function.update_of_ne hne, dropClaims_key]
    · exact ⟨rfl, rfl⟩
  · exact ⟨rfl, rfl⟩

theorem released_untouched {list : List Json} (h : Agree w.device)
    (hq : ∀ entry ∈ list, entryPoint entry ≠ some q) :
    Untouched q w.device (list.foldl releaseDeclaration w).device := by
  induction list generalizing w with
  | nil => exact ⟨rfl, rfl⟩
  | cons entry list ih =>
    obtain ⟨hfirst, hq⟩ := List.forall_mem_cons.1 hq
    exact (releaseDeclaration_untouched h hfirst).trans (ih (h.released entry).1 hq)

/-! ## Descriptors of several services -/

def plan (cfg : Config) (deviceType : String) (protocolOf : String → String)
    (l : String → List Json) (service : String) : List Declaration :=
  declarations (naming cfg.defaultSet deviceType (protocolOf service)) (l service)

/-- Points that are declared at the same time do not get in each other's way. -/
structure Separate (cfg : Config) (deviceType : String) (protocolOf : String → String)
    (l : String → List Json) : Prop where
  usable : ∀ service, Usable (l service)
  once : ∀ service service', ∀ d ∈ plan cfg deviceType protocolOf l service,
    ∀ e ∈ plan cfg deviceType protocolOf l service', d.point = e.point → service = service' ∧ d = e
  apart : ∀ service service', ∀ d ∈ plan cfg deviceType protocolOf l service,
    ∀ e ∈ plan cfg deviceType protocolOf l service', Apart d e

/-- No set passes between a key of one point and the literal of another, both of which stay. -/
def Steady (before after : String → List Declaration) : Prop :=
  ∀ service, ∀ d ∈ before service, ∀ e ∈ after service, d.point ≠ e.point →
    (∃ d' ∈ after service, d'.point = d.point) → ∀ set ∈ d.sets, set ∈ e.sets →
      d.key ≠ literalKey ∧ e.key ≠ literalKey

/-- The claims are the declared ones. -/
structure Held (declared : String → List Declaration) (s : Device) : Prop where
  holds : ∀ service, ∀ e ∈ declared service, Holds s e
  only : ∀ q, ∀ c ∈ s.claims q, ∃ service, ∃ e ∈ declared service, e.point = q

theorem Held.claims {declared : String → List Declaration} (h : Held declared s) (q : String)
    (c : String × String) :
    c ∈ s.claims q ↔ ∃ service, ∃ e ∈ declared service, e.point = q ∧ c.2 = e.key ∧ c.1 ∈ e.sets := by
  constructor
  · intro hc
    obtain ⟨service, e, he, rfl⟩ := h.only q c hc
    exact ⟨service, e, he, rfl, ((h.holds service e he).2 c).1 hc⟩
  · rintro ⟨service, e, he, rfl, hc⟩
    exact ((h.holds service e he).2 c).2 hc

section Step

variable {protocolOf : String → String} {l : String → List Json}

theorem plan_update_of_ne {deviceType service other : String} (entries : List Json)
    (hne : other ≠ service) :
    plan cfg deviceType protocolOf (Function.update l service entries) other =
      plan cfg deviceType protocolOf l other := by
  simp [plan, Function.update_of_ne hne]

/-- The store once the points that are not listed any more are let go. -/
def freed (s : Device) (before entries : List Json) : Work :=
  (letGo before entries).foldl releaseDeclaration s.work

variable {s : Device}

theorem freed_agree (h : Agree s) (before entries : List Json) :
    Agree (freed s before entries).device :=
  (tables_foldl (l := letGo before entries) (fun _ hw entry _ => Tables.released hw entry)
    (w := s.work) h).1

theorem mem_claims_of_freed (h : Agree s) {before entries : List Json} {q : String}
    {c : String × String} (hc : c ∈ (freed s before entries).device.claims q) : c ∈ s.claims q :=
  (released_claims (letGo before entries) (w := s.work) h q).1 c hc

theorem freed_gone (h : Agree s) {names : Names} {before entries : List Json}
    (husable : Usable entries) {d : Declaration} (hd : d ∈ declarations names before)
    (hholds : Holds s d) (hnone : ∀ e ∈ declarations names entries, e.point ≠ d.point) :
    (freed s before entries).device.claims d.point = [] := by
  obtain ⟨entry, hentry, hpoint, hkey⟩ := declaration_entry hd
  apply (released_claims (letGo before entries) (w := s.work) h d.point).2
  refine ⟨entry, (mem_letGo (mem_declarations hd).1 hpoint).2 ⟨hentry, ?_⟩, hpoint, ?_⟩
  · intro e he hnamed
    obtain ⟨d', hd', hsame⟩ := husable.declared names he hnamed
    exact hnone d' hd' hsame
  · rw [hkey, show keyOf s.work.device d.point = d.key from hholds.1]

theorem freed_untouched (h : Agree s) {names : Names} {before : List Json} (husable : Usable before)
    {q : String} (hq : ∀ d ∈ declarations names before, d.point ≠ q) (entries : List Json) :
    Untouched q s (freed s before entries).device := by
  apply released_untouched (w := s.work) h
  intro entry hentry hpoint
  obtain ⟨d, hd, hsame⟩ := husable.declared names (List.mem_filter.1 hentry).1 hpoint
  exact hq d hd hsame

theorem recordDeclared_untouched (w : Work) (protocol : String) (entries : List Json) (q : String) :
    Untouched q w.device (w.recordDeclared protocol entries).device := ⟨rfl, rfl⟩

theorem declare_eq {defaultSet protocol : String} {before : List Json}
    (hdeclared : s.declared protocol = before) (entries : List Json) :
    declare defaultSet protocol entries s.work =
      applyDeclarations ((freed s before entries).recordDeclared protocol entries)
        (naming defaultSet s.deviceType protocol) protocol := by
  have htype : (freed s before entries).device.deviceType = s.deviceType :=
    congrArg Sources.deviceType (sources_foldl releaseDeclaration_sources _ s.work)
  rw [← htype, ← hdeclared]
  rfl

/-- What is held for other services does not block an entry of this one. -/
theorem Held.unblocked (h : Agree s) {deviceType service : String} {entries : List Json}
    (hheld : Held (plan cfg deviceType protocolOf l) s)
    (hafter : Separate cfg deviceType protocolOf (Function.update l service entries))
    (hsteady : Steady (plan cfg deviceType protocolOf l) (plan cfg deviceType protocolOf
      (Function.update l service entries)))
    {q : String} {c : String × String} (hc : c ∈ (freed s (l service) entries).device.claims q)
    {e : Declaration}
    (he : e ∈ plan cfg deviceType protocolOf (Function.update l service entries) service)
    (hq : e.point ≠ q) (hset : c.1 ∈ e.sets) :
    (c.2 ≠ literalKey ∧ e.key ≠ literalKey) ∧
      ((∀ d ∈ plan cfg deviceType protocolOf (Function.update l service entries) service,
        d.point ≠ q) → c.2 ≠ e.key) := by
  obtain ⟨service', d, hd, rfl⟩ := hheld.only q c (mem_claims_of_freed h hc)
  obtain ⟨hkey, hin⟩ := ((hheld.holds service' d hd).2 c).1 (mem_claims_of_freed h hc)
  -- what the service itself held was steady or is released by now
  by_cases hown : service' = service
  · subst hown
    -- a point of the same service that still has claims is still listed
    have hstays : ∃ d' ∈ plan cfg deviceType protocolOf (Function.update l service' entries)
        service', d'.point = d.point := by
      by_contra hnone
      have husable : Usable entries := by simpa using hafter.usable service'
      rw [freed_gone h husable hd (hheld.holds service' d hd)
        fun e he hsame => hnone ⟨e, by simpa [plan] using he, hsame⟩] at hc
      cases hc
    obtain ⟨hliteral, hliteral'⟩ := hsteady service' d hd e he hq.symm hstays c.1 hin hset
    refine ⟨⟨hkey ▸ hliteral, hliteral'⟩, fun hnone => ?_⟩
    obtain ⟨d', hd', hsame⟩ := hstays
    exact absurd hsame (hnone d' hd')
  · have hd' : d ∈ plan cfg deviceType protocolOf (Function.update l service entries) service' := by
      rwa [plan_update_of_ne entries hown]
    obtain ⟨hother, hliteral, hliteral'⟩ := hafter.apart service' service d hd' e he hq.symm c.1 hin
      hset
    rw [hkey]
    exact ⟨⟨hliteral, hliteral'⟩, fun _ => hother⟩

/-- A service's new entries are in force, and those of the other services stay so. -/
theorem Held.declared (h : Agree s) (hforced : ColonFree (trimC cfg.defaultSet)) {service : String}
    {entries : List Json} (hheld : Held (plan cfg s.deviceType protocolOf l) s)
    (hdeclared : s.declared (protocolOf service) = l service)
    (hbefore : Separate cfg s.deviceType protocolOf l)
    (hafter : Separate cfg s.deviceType protocolOf (Function.update l service entries))
    (hsteady : Steady (plan cfg s.deviceType protocolOf l) (plan cfg s.deviceType protocolOf
      (Function.update l service entries))) :
    Held (plan cfg s.deviceType protocolOf (Function.update l service entries))
      (declare cfg.defaultSet (protocolOf service) entries s.work).device := by
  have hplan : plan cfg s.deviceType protocolOf (Function.update l service entries) service =
      declarations (naming cfg.defaultSet s.deviceType (protocolOf service)) entries := by
    simp [plan]
  have hentries : declarations (naming cfg.defaultSet s.deviceType (protocolOf service))
      (((freed s (l service) entries).recordDeclared (protocolOf service) entries).device.declared
        (protocolOf service)) =
      plan cfg s.deviceType protocolOf (Function.update l service entries) service := by
    simp [Work.recordDeclared, hplan]
  have hagree : Agree ((freed s (l service) entries).recordDeclared (protocolOf service)
      entries).device := (freed_agree h (l service) entries).of_records rfl rfl rfl rfl rfl rfl
  have hfree : ∀ q, ∀ c ∈ ((freed s (l service) entries).recordDeclared (protocolOf service)
      entries).device.claims q,
      ∀ e ∈ plan cfg s.deviceType protocolOf (Function.update l service entries) service,
      e.point ≠ q → c.1 ∈ e.sets → (c.2 ≠ literalKey ∧ e.key ≠ literalKey) ∧
        ((∀ d ∈ plan cfg s.deviceType protocolOf (Function.update l service entries) service,
          d.point ≠ q) → c.2 ≠ e.key) := by
    intro q c hc e he hq hset
    rw [(recordDeclared_untouched _ _ _ q).1] at hc
    exact hheld.unblocked h hafter hsteady hc he hq hset
  have hforced' : ColonFree (naming cfg.defaultSet s.deviceType (protocolOf service)).forced :=
    hforced
  obtain ⟨hholds, hothers⟩ := applyDeclarations_holds hagree hforced' hentries
    (fun d hd e he hsame => (hafter.once service service d hd e he hsame).2)
    (hafter.apart service service) hfree
  rw [declare_eq hdeclared]
  constructor
  · intro service' e he
    by_cases hown : service' = service
    · subst hown
      exact hholds e he
    · -- the point of another service was not declared by this one, and is not now
      have he' : e ∈ plan cfg s.deviceType protocolOf l service' := by
        rwa [plan_update_of_ne entries hown] at he
      have hnew : ∀ d ∈ plan cfg s.deviceType protocolOf (Function.update l service entries) service,
          d.point ≠ e.point := fun d hd hsame => hown (hafter.once _ _ d hd e he hsame).1.symm
      have hold : ∀ d ∈ plan cfg s.deviceType protocolOf l service, d.point ≠ e.point :=
        fun d hd hsame => hown (hbefore.once _ _ d hd e he' hsame).1.symm
      have hkept := freed_untouched h (hbefore.usable service) hold entries
      have hrecorded := recordDeclared_untouched (freed s (l service) entries) (protocolOf service)
        entries e.point
      exact (hheld.holds service' e he').of_untouched
        ((hkept.trans hrecorded).trans (hothers e.point hnew))
  · intro q c hc
    by_cases hnew : ∃ d ∈ plan cfg s.deviceType protocolOf (Function.update l service entries)
        service, d.point = q
    · obtain ⟨d, hd, hsame⟩ := hnew
      exact ⟨service, d, hd, hsame⟩
    · have hnone : ∀ d ∈ plan cfg s.deviceType protocolOf (Function.update l service entries)
          service, d.point ≠ q := fun d hd hsame => hnew ⟨d, hd, hsame⟩
      rw [(hothers q hnone).1, (recordDeclared_untouched _ _ _ q).1] at hc
      obtain ⟨service', d, hd, rfl⟩ := hheld.only q c (mem_claims_of_freed h hc)
      have hown : service' ≠ service := by
        rintro rfl
        have husable : Usable entries := by simpa using hafter.usable service'
        rw [freed_gone h husable hd (hheld.holds service' d hd) (hplan ▸ hnone)] at hc
        cases hc
      refine ⟨service', d, ?_, rfl⟩
      rwa [plan_update_of_ne entries hown]

end Step

/-! ## Runs of descriptors -/

/-- A run of descriptors that never get in each other's way: each service has one protocol, and at
every moment no two services of a protocol list the device, and its points are apart. -/
structure Orderly (cfg : Config) (device deviceType : String) (protocolOf : String → String)
    (events : List Event) : Prop where
  descriptors : ∀ event ∈ events, ∃ service caps, event = .capabilities service caps
  protocols : OfProtocols protocolOf events
  lone : ∀ moment, moment <+: events → Lone protocolOf (latestLists (listed device) moment)
  separate : ∀ moment, moment <+: events →
    Separate cfg deviceType protocolOf (latestLists (listed device) moment)
  steady : ∀ before event, before ++ [event] <+: events →
    Steady (plan cfg deviceType protocolOf (latestLists (listed device) before))
      (plan cfg deviceType protocolOf (latestLists (listed device) (before ++ [event])))

variable {protocolOf : String → String} {events : List Event}

theorem Orderly.before {deviceType : String} {event : Event}
    (h : Orderly cfg device deviceType protocolOf (events ++ [event])) :
    Orderly cfg device deviceType protocolOf events where
  descriptors := fun e he => h.descriptors e (List.mem_append_left [event] he)
  protocols := fun service caps hmem =>
    h.protocols service caps (List.mem_append_left [event] hmem)
  lone := fun moment hmoment => h.lone moment (hmoment.trans (List.prefix_append events [event]))
  separate := fun moment hmoment =>
    h.separate moment (hmoment.trans (List.prefix_append events [event]))
  steady := fun before e hmoment =>
    h.steady before e (hmoment.trans (List.prefix_append events [event]))

theorem final_deviceType (cfg : Config) (device : String) (s : Device)
    (h : ∀ event ∈ events, ∃ service caps, event = .capabilities service caps) :
    (final (step cfg device) s events).deviceType = s.deviceType := by
  refine (congrArg Sources.deviceType (sources_final cfg device s events)).trans ?_
  show _ = s.sources.deviceType
  generalize s.sources = src
  induction events generalizing src with
  | nil => rfl
  | cons event events ih =>
    obtain ⟨⟨service, caps, rfl⟩, hevents⟩ := List.forall_mem_cons.1 h
    rw [List.foldl_cons, ih hevents]
    unfold Sources.hear Sources.hearDescriptor
    dsimp only
    split
    · split <;> rfl
    · rfl

/-- The invariant of `descriptors_commute`, over one descriptor. -/
theorem Held.described {l : String → List Json} {s : Device} (h : Agree s)
    (hforced : ColonFree (trimC cfg.defaultSet))
    (hheld : Held (plan cfg s.deviceType protocolOf l) s) (hshown : Shown protocolOf l s.declared)
    (hdeclaring : ∀ service, service ∈ s.declaring ↔ l service ≠ []) {service : String}
    {caps : Json}
    (hown : ∀ protocol, textOf caps "protocol" = some protocol → protocol = protocolOf service)
    (hlone : Lone protocolOf (hear (listed device) l (.capabilities service caps)))
    (hbefore : Separate cfg s.deviceType protocolOf l)
    (hafter : Separate cfg s.deviceType protocolOf (hear (listed device) l (.capabilities service
      caps)))
    (hsteady : Steady (plan cfg s.deviceType protocolOf l) (plan cfg s.deviceType protocolOf
      (hear (listed device) l (.capabilities service caps)))) :
    Held (plan cfg s.deviceType protocolOf (hear (listed device) l (.capabilities service caps)))
      (step cfg device s (.capabilities service caps)).1 := by
  unfold step onCapabilities
  unfold hear listed at *
  dsimp only at *
  cases hprotocol : textOf caps "protocol" with
  | none => exact hheld
  | some protocol =>
    cases hentries : descriptorEntries caps with
    | none => exact hheld
    | some entries =>
      obtain rfl := hown protocol hprotocol
      simp only [hprotocol, hentries] at hlone hafter hsteady ⊢
      generalize (entries.filter fun e => e.1 = device).map (·.2) = declared at *
      by_cases hcounts : l service ≠ [] ∨ declared ≠ []
      · have hkept := hheld.declared h hforced (hshown.former hlone hcounts) hbefore hafter hsteady
        rw [if_pos (hcounts.imp_left (hdeclaring service).2)]
        exact ⟨hkept.holds, hkept.only⟩
      · -- nothing was listed, and nothing is
        rw [if_neg fun hthere => hcounts (hthere.imp_left (hdeclaring service).1)]
        simp only [not_or, not_not] at hcounts
        have hsame : Function.update l service declared = l := by
          rw [hcounts.2, ← hcounts.1, Function.update_eq_self]
        rwa [hsame]

/-- After a run of descriptors that never get in each other's way, the claims are those of the latest
ones. -/
theorem claims_held {s : Device} (h : Agree s) (hforced : ColonFree (trimC cfg.defaultSet))
    (hfresh : Undeclared s) (hnone : ∀ q, s.claims q = [])
    (horderly : Orderly cfg device s.deviceType protocolOf events) :
    Held (plan cfg s.deviceType protocolOf (latestLists (listed device) events))
      (final (step cfg device) s events) := by
  induction events using List.reverseRecOn with
  | nil => exact ⟨by simp [plan, latestLists, declarations], by simp [hnone]⟩
  | append_singleton events event ih =>
    have hbefore := horderly.before
    have hheld := ih hbefore
    have hprefix : events <+: events ++ [event] := List.prefix_append events [event]
    obtain ⟨service, caps, rfl⟩ := horderly.descriptors event (by simp)
    have htype := final_deviceType cfg device s hbefore.descriptors
    have hnamed : ∀ event ∈ events, Named cfg event := by
      intro event hevent
      obtain ⟨service, caps, rfl⟩ := hbefore.descriptors event hevent
      trivial
    have hagree := agree_final hforced device hnamed h
    have hshown := declared_shown cfg hfresh hbefore.protocols hbefore.lone
    have hdeclaring := mem_declaring device hfresh events
    rw [← sources_final cfg] at hdeclaring
    have hlone := horderly.lone _ List.prefix_rfl
    have hseparate := horderly.separate _ hprefix
    have hseparate' := horderly.separate _ List.prefix_rfl
    have hsteady := horderly.steady events _ List.prefix_rfl
    rw [latestLists_snoc] at hlone hseparate' hsteady ⊢
    rw [final_append, final_cons, final_nil]
    generalize final (step cfg device) s events = s' at *
    rw [← htype] at hheld hseparate hseparate' hsteady ⊢
    exact hheld.described hagree hforced hshown hdeclaring (horderly.protocols service caps (by simp))
      hlone hseparate hseparate' hsteady

end TedgeDot.Flows.ParameterState
