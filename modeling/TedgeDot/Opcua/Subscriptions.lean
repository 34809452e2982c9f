import Mathlib.Data.List.Nodup
import Mathlib.Logic.Function.Basic
import Mathlib.Tactic.Common
import TedgeDot.Lib.Machine

/-!
# Pushed points

`subscribe` gives every point of a device a monitored item, shared by the points of one node and
array element. A point whose namespace is not translated yet waits for the retry task, which adds
its item later, and `check_subscription` compares the items the session holds with the number
fixed when the subscription was armed.

The model follows one device of one connector. `κ` is what an item watches (a node and an array
element) and `V` the values of the server. The server answers, notifies and loses items in any
order; what it holds is in `items`, and what it has sent and the client has not handled yet in
`inflight`.

## Main definitions

- `step`: `subscribe`, the answers to `create_in_batches`, `Retry::run`, the data-change callback,
  `check_subscription`, and what the server and the library do.
- `Delivers`: no point with a monitored item is silently dead, at one step.
- `Smooth`: the step is none of those that lose a notification or an item.

## Main result

- `never_silent`: a run of smooth steps delivers at every step.
-/

namespace TedgeDot.Opcua.Subscriptions

open TedgeDot.Machine

variable {κ V : Type} [DecidableEq κ]

/-! ## The state -/

/-- The most monitored items one request carries. -/
def monitoredItemsPerRequest : Nat := 500

/-- `subscribe` or `Retry::subscribe` while it waits in `create_in_batches`. -/
structure Creating (κ : Type) where
  /-- The points that have a node, each with what its item watches. -/
  ready : List (String × κ)
  /-- The items to create. -/
  monitored : List κ
  /-- The requests the server has not answered. -/
  left : List κ
  /-- The items the server created. -/
  made : List κ
  /-- The items the server rejected. -/
  rejected : List κ
  /-- A batch failed as a whole. -/
  failed : Bool
  /-- The retry task creates these, and not the first `subscribe`. -/
  retry : Bool

/-- A point whose monitored item exists, and the value of the node when it began to. -/
structure Live (κ V : Type) where
  point : String
  item : κ
  value : V
deriving DecidableEq

/-- One device: the connector's side, the session's and the server's. `created`, `live` and `got`
are the history a run has left: the items ever created, the points that have one, and the samples
handed over since. -/
structure Push (κ V : Type) where
  /-- `PushState::by_node`: the points behind each item. -/
  byNode : κ → List String
  /-- `SubscriptionHandle::items`, once armed. -/
  armed : Option Nat
  creating : Option (Creating κ)
  /-- `Retry::pending` -/
  pending : List String
  /-- The monitored items the session holds. -/
  items : List κ
  /-- The value of each node. -/
  value : κ → V
  /-- Notifications the callback has not seen. -/
  inflight : List (κ × V)
  created : List κ
  live : List (Live κ V)
  got : List (String × V)

def Push.init (value : κ → V) : Push κ V where
  byNode _ := []
  armed := none
  creating := none
  pending := []
  items := []
  value := value
  inflight := []
  created := []
  live := []
  got := []

inductive Event (κ V : Type) where
  /-- `subscribe` for these points, each with what it watches where its namespace is translated. -/
  | subscribe (points : List (String × Option κ))
  /-- The server answers the next batch: it creates the items that are `good`. -/
  | answered (good : κ → Bool)
  /-- The next batch fails as a whole. -/
  | failed
  /-- `create_in_batches` has returned, and its caller goes on. -/
  | resumed
  /-- `Retry::run` translates the waiting points again. -/
  | retried (translated : String → Option κ)
  /-- A node changes: the server notifies each item that watches it. -/
  | changed (item : κ) (v : V)
  /-- The callback handles the notification at this place. -/
  | notified (place : Nat)
  /-- The library re-creates the subscription, with the items that `kept` says. -/
  | recreated (kept : List Bool)
  /-- `reconnect` tears the session down. -/
  | reconnected
  /-- `check_subscription`: whether the session is connected and has a subscription, and whether
  the last publish response is recent. -/
  | check (connected subscribed publishing : Bool)

inductive Output (κ V : Type) where
  | quiet
  /-- The callback made a sample of each of these points. -/
  | samples (item : κ) (points : List String)
  /-- `check_subscription` answers, `true` for `Ok`. -/
  | checked (ok : Bool)

/-! ## The connector -/

/-- `group_monitored`: one item for what several points watch, at its first place. (The rates and
queue sizes it combines decide nothing here.) -/
def groupMonitored (keys : List κ) : List κ :=
  keys.foldl (fun monitored key => if key ∈ monitored then monitored else monitored ++ [key]) []

/-- The points of these pairs that watch `key`. -/
def pointsOf (ready : List (String × κ)) (key : κ) : List String :=
  (ready.filter fun x => x.2 = key).map (·.1)

def Creating.batch (c : Creating κ) : List κ := c.left.take monitoredItemsPerRequest

/-- The keys of `rejected` in `Retry::subscribe`: the rejected items, or all of them. -/
def Creating.refused (c : Creating κ) : List κ := if c.failed then c.monitored else c.rejected

/-- `subscribe`, up to its call of `create_in_batches`. -/
def subscribe (s : Push κ V) (points : List (String × Option κ)) : Push κ V :=
  let ready := points.filterMap fun x => x.2.map fun key => (x.1, key)
  let monitored := groupMonitored (ready.map (·.2))
  { s with
    byNode := pointsOf ready
    pending := (points.filter fun x => x.2.isNone).map (·.1)
    creating := some
      { ready, monitored, left := monitored, made := [], rejected := [], failed := false
        retry := false } }

/-- The server creates the good items of a batch, each with a first notification. -/
def answered (s : Push κ V) (c : Creating κ) (good : κ → Bool) : Push κ V :=
  let fresh := c.batch.filter good
  { s with
    creating := some { c with
      left := c.left.drop monitoredItemsPerRequest
      made := c.made ++ fresh
      rejected := c.rejected ++ c.batch.filter fun key => !good key }
    items := s.items ++ fresh
    inflight := s.inflight ++ fresh.map fun key => (key, s.value key)
    created := s.created ++ fresh
    live := s.live ++ (c.ready.filter fun x => x.2 ∈ fresh).map fun x =>
      ⟨x.1, x.2, s.value x.2⟩ }

/-- `subscribe` from there on: all or nothing. -/
def armSubscription (s : Push κ V) (c : Creating κ) : Push κ V :=
  if c.failed = true ∨ c.rejected ≠ [] then Push.init s.value
  else { s with creating := none, armed := some c.monitored.length }

/-- The points of a retry whose item was there before. -/
def Creating.shared (c : Creating κ) (s : Push κ V) : List (String × κ) :=
  c.ready.filter fun x => x.2 ∉ c.monitored ∧ x.2 ∈ s.items

/-- `Retry::subscribe` from there on: the points without a rejected item are listed, the others wait
again. -/
def addPoints (s : Push κ V) (c : Creating κ) : Push κ V :=
  let added := c.ready.filter fun x => x.2 ∉ c.refused
  { s with
    creating := none
    byNode := fun key => s.byNode key ++ pointsOf added key
    pending := s.pending ++ (c.ready.filter fun x => x.2 ∈ c.refused).map (·.1)
    live := s.live ++ (c.shared s).map fun x => ⟨x.1, x.2, s.value x.2⟩ }

/-- `Retry::run`, up to the call of `create_in_batches`. -/
def retried (s : Push κ V) (translated : String → Option κ) : Push κ V :=
  let ready := s.pending.filterMap fun id => (translated id).map fun key => (id, key)
  let monitored := groupMonitored ((ready.map (·.2)).filter fun key => s.byNode key = [])
  if ready = [] then s
  else
    { s with
      pending := s.pending.filter fun id => (translated id).isNone
      creating := some
        { ready, monitored, left := monitored, made := [], rejected := [], failed := false
          retry := true } }

/-- The library re-creates the subscription: every item it keeps is a new one, with a first
notification of its own. -/
def recreate (s : Push κ V) (items : List κ) : Push κ V :=
  { s with
    items := items
    inflight := items.map fun key => (key, s.value key)
    live := (s.live.filter fun x => x.item ∈ items).map fun x => { x with value := s.value x.item }
    got := [] }

/-- The items that `kept` says. -/
def keptItems (items : List κ) (kept : List Bool) : List κ :=
  ((items.zip kept).filter (·.2)).map (·.1)

def checkSubscription (s : Push κ V) (connected subscribed publishing : Bool) : Bool :=
  match s.armed with
  | none => false
  | some expected => connected && subscribed && decide (expected ≤ s.items.length) && publishing

def step (s : Push κ V) : Event κ V → Push κ V × Output κ V
  | .subscribe points =>
    if s.creating.isSome ∨ s.armed.isSome ∨ points = [] then (s, .quiet)
    else (subscribe s points, .quiet)
  | .answered good =>
    match s.creating with
    | some c => if c.left = [] then (s, .quiet) else (answered s c good, .quiet)
    | none => (s, .quiet)
  | .failed =>
    match s.creating with
    | some c =>
      if c.left = [] then (s, .quiet)
      else ({ s with creating := some { c with left := [], failed := true } }, .quiet)
    | none => (s, .quiet)
  | .resumed =>
    match s.creating with
    | some c =>
      if c.left ≠ [] then (s, .quiet)
      else (if c.retry then addPoints s c else armSubscription s c, .quiet)
    | none => (s, .quiet)
  | .retried translated =>
    if s.creating.isSome ∨ s.armed.isNone then (s, .quiet) else (retried s translated, .quiet)
  | .changed item v =>
    ({ s with
        value := Function.update s.value item v
        inflight := s.inflight ++ (s.items.filter fun key => key = item).map fun key => (key, v) },
      .quiet)
  | .notified place =>
    match s.inflight[place]? with
    | some (key, v) =>
      ({ s with
          inflight := s.inflight.eraseIdx place
          got := s.got ++ (s.byNode key).map fun id => (id, v) },
        .samples key (s.byNode key))
    | none => (s, .quiet)
  | .recreated kept => (recreate s (keptItems s.items kept), .quiet)
  | .reconnected => (Push.init s.value, .quiet)
  | .check connected subscribed publishing =>
    (s, .checked (checkSubscription s connected subscribed publishing))

/-! ## What a step owes the points -/

section Claim

variable [DecidableEq V]

/-- What an output owes the points. A notification becomes a sample of every point its item exists
for; and where `check_subscription` answers `Ok`, the session holds as many items as were ever
created for the points it delivers. -/
def Owed (s : Push κ V) : Output κ V → Prop
  | .quiet => True
  | .samples item points => ∀ x ∈ s.live, x.item = item → x.point ∈ points
  | .checked ok => ok = true →
      (s.created.filter fun key => s.byNode key ≠ []).length ≤ s.items.length

/-- The step gives the points what it owes them, and the value a node had when its item began to
exist for a point has reached the point or is on its way. -/
def Delivers (s : Push κ V) (event : Event κ V) : Prop :=
  Owed s (step s event).2 ∧
  ∀ x ∈ (step s event).1.live,
    (x.point, x.value) ∈ (step s event).1.got ∨ (x.item, x.value) ∈ (step s event).1.inflight

/-- The step is none of those the connector has no answer to.

- A notification comes before the retry task has listed the points of the new item.
- A batch of the retry task fails after an earlier one has made items.
- The retry task lists a point under an item that is there, with no notification of the node's
  value under way.
- The retry task adds items, or the library re-creates the subscription, so that fewer items than
  were created are left, but no fewer than `subscribe` made. -/
def Smooth (s : Push κ V) : Event κ V → Prop
  | .notified place =>
    ∀ c ∈ s.creating, c.retry = true → ∀ x ∈ s.inflight[place]?, x.1 ∉ c.made
  | .failed => ∀ c ∈ s.creating, c.retry = true → c.left ≠ [] → c.made = []
  | .resumed => ∀ c ∈ s.creating, c.retry = true → c.left = [] →
      ∀ x ∈ c.shared s, (x.2, s.value x.2) ∈ s.inflight
  | .answered good => ∀ c ∈ s.creating, ∀ expected ∈ s.armed,
      s.created.length ≤ s.items.length ∨
        s.items.length + (c.batch.filter good).length < expected
  | .recreated kept => ∀ expected ∈ s.armed,
      s.created.length ≤ (keptItems s.items kept).length ∨
        (keptItems s.items kept).length < expected
  | _ => True

instance (s : Push κ V) (output : Output κ V) : Decidable (Owed s output) :=
  match output with
  | .quiet => inferInstanceAs (Decidable True)
  | .samples item points =>
    inferInstanceAs (Decidable (∀ x ∈ s.live, x.item = item → x.point ∈ points))
  | .checked ok =>
    inferInstanceAs (Decidable (ok = true →
      (s.created.filter fun key => s.byNode key ≠ []).length ≤ s.items.length))

instance (s : Push κ V) (event : Event κ V) : Decidable (Delivers s event) :=
  inferInstanceAs (Decidable (_ ∧ _))

instance (s : Push κ V) (event : Event κ V) : Decidable (Smooth s event) :=
  match event with
  | .notified place =>
    inferInstanceAs (Decidable (∀ c ∈ s.creating, c.retry = true →
      ∀ x ∈ s.inflight[place]?, x.1 ∉ c.made))
  | .failed =>
    inferInstanceAs (Decidable (∀ c ∈ s.creating, c.retry = true → c.left ≠ [] → c.made = []))
  | .resumed =>
    inferInstanceAs (Decidable (∀ c ∈ s.creating, c.retry = true → c.left = [] →
      ∀ x ∈ c.shared s, (x.2, s.value x.2) ∈ s.inflight))
  | .answered good =>
    inferInstanceAs (Decidable (∀ c ∈ s.creating, ∀ expected ∈ s.armed,
      s.created.length ≤ s.items.length ∨
        s.items.length + (c.batch.filter good).length < expected))
  | .recreated kept =>
    inferInstanceAs (Decidable (∀ expected ∈ s.armed,
      s.created.length ≤ (keptItems s.items kept).length ∨
        (keptItems s.items kept).length < expected))
  | .subscribe _ | .retried _ | .changed _ _ | .reconnected | .check _ _ _ =>
    inferInstanceAs (Decidable True)

end Claim

/-! ## The tables -/

theorem nodup_groupMonitored (keys : List κ) : (groupMonitored keys).Nodup := by
  have hfold : ∀ monitored : List κ, monitored.Nodup →
      (keys.foldl (fun monitored key =>
        if key ∈ monitored then monitored else monitored ++ [key]) monitored).Nodup := by
    induction keys with
    | nil => exact fun _ h => h
    | cons key keys ih =>
      intro monitored h
      rw [List.foldl_cons]
      split
      · exact ih _ h
      · next hnew => exact ih _ (by simpa [List.nodup_append] using ⟨h, fun a ha => by grind⟩)
  exact hfold [] List.nodup_nil

@[simp] theorem mem_pointsOf (ready : List (String × κ)) (key : κ) (id : String) :
    id ∈ pointsOf ready key ↔ (id, key) ∈ ready := by
  simp [pointsOf]

omit [DecidableEq κ] in
theorem perm_answered (c : Creating κ) (good : κ → Bool) :
    ((c.made ++ c.batch.filter good) ++ (c.rejected ++ c.batch.filter fun key => !good key) ++
      c.left.drop monitoredItemsPerRequest).Perm (c.made ++ c.rejected ++ c.left) := by
  have hbatch := List.filter_append_perm good c.batch
  have hleft := List.take_append_drop monitoredItemsPerRequest c.left
  calc _
    _ = c.made ++ (c.batch.filter good ++ c.rejected) ++
          (c.batch.filter (fun key => !good key) ++ c.left.drop monitoredItemsPerRequest) := by
        simp only [List.append_assoc]
    List.Perm _ (c.made ++ (c.rejected ++ c.batch.filter good) ++
          (c.batch.filter (fun key => !good key) ++ c.left.drop monitoredItemsPerRequest)) :=
        (List.perm_append_comm.append_left _).append_right _
    _ = c.made ++ c.rejected ++ ((c.batch.filter good ++ c.batch.filter fun key => !good key) ++
          c.left.drop monitoredItemsPerRequest) := by simp only [List.append_assoc]
    List.Perm _ (c.made ++ c.rejected ++ (c.batch ++ c.left.drop monitoredItemsPerRequest)) :=
        (hbatch.append_right _).append_left _
    _ = c.made ++ c.rejected ++ c.left := by rw [Creating.batch, hleft]

/-! ## The invariant -/

/-- What the first `subscribe` knows while it waits. -/
structure First (s : Push κ V) (c : Creating κ) : Prop where
  unarmed : s.armed = none
  listed : ∀ x ∈ c.ready, x.1 ∈ s.byNode x.2
  created : s.created = c.made
  sizes : c.failed = false →
    c.made.length + c.rejected.length + c.left.length = c.monitored.length

/-- The point is listed under its item, or a retry task that made the item is about to list it. -/
def Listed (s : Push κ V) (x : Live κ V) : Prop :=
  x.point ∈ s.byNode x.item ∨
    ∃ c, s.creating = some c ∧ c.retry = true ∧ (x.point, x.item) ∈ c.ready ∧ x.item ∈ c.made

structure Inv (s : Push κ V) : Prop where
  reached : ∀ x ∈ s.live, (x.point, x.value) ∈ s.got ∨ (x.item, x.value) ∈ s.inflight
  listed : ∀ x ∈ s.live, Listed s x
  counted : ∀ expected, s.armed = some expected → expected ≤ s.items.length →
    s.created.length ≤ s.items.length
  first : ∀ c, s.creating = some c → c.retry = false → First s c
  apart : ∀ c, s.creating = some c → (c.made ++ c.rejected ++ c.left).Nodup
  within : ∀ c, s.creating = some c → ∀ key ∈ c.made ++ c.rejected ++ c.left, key ∈ c.monitored
  /-- A failed batch is the last one. -/
  ended : ∀ c, s.creating = some c → c.failed = true → c.left = []
  /-- A retry whose batch failed has made no item. -/
  unmade : ∀ c, s.creating = some c → c.retry = true → c.failed = true → c.made = []
  /-- The retry task runs under an armed subscription. -/
  later : ∀ c, s.creating = some c → c.retry = true → s.armed.isSome
  /-- Without a subscription there is no item. -/
  idle : s.creating = none → s.armed = none → s.live = [] ∧ s.created = []

omit [DecidableEq κ] in
theorem inv_init (value : κ → V) : Inv (Push.init value) where
  reached := by simp [Push.init]
  listed := by simp [Push.init]
  counted := by simp [Push.init]
  first := by simp [Push.init]
  apart := by simp [Push.init]
  within := by simp [Push.init]
  ended := by simp [Push.init]
  unmade := by simp [Push.init]
  later := by simp [Push.init]
  idle := fun _ _ => ⟨rfl, rfl⟩

/-! ### One lemma for each step -/

variable {s : Push κ V} {c : Creating κ} {key : κ}

omit [DecidableEq κ] in
theorem Inv.waits (h : Inv s) (hidle : s.creating = none) :
    ∀ x ∈ s.live, x.point ∈ s.byNode x.item := by
  intro x hx
  rcases h.listed x hx with hlisted | ⟨c, hc, -⟩
  · exact hlisted
  · rw [hidle] at hc
    cases hc

/-- A subscription that begins has nothing of an earlier one. -/
theorem Inv.subscribe (h : Inv s) (hidle : s.creating = none) (harmed : s.armed = none)
    (points : List (String × Option κ)) : Inv (subscribe s points) where
  reached := by simp [Subscriptions.subscribe, (h.idle hidle harmed).1]
  listed := by simp [Subscriptions.subscribe, (h.idle hidle harmed).1]
  counted := h.counted
  first := by
    rintro _ ⟨⟩ -
    exact ⟨harmed, fun x hx => (mem_pointsOf _ _ _).2 hx,
      (h.idle hidle harmed).2, by simp⟩
  apart := by
    rintro _ ⟨⟩
    exact nodup_groupMonitored _
  within := by
    rintro _ ⟨⟩ key hkey
    exact hkey
  ended := by
    rintro _ ⟨⟩ hfailed
    cases hfailed
  unmade := by
    rintro _ ⟨⟩ hretry
    cases hretry
  later := by
    rintro _ ⟨⟩ hretry
    cases hretry
  idle := by simp [Subscriptions.subscribe]

/-- An answered block: its items are monitored, each under its own points. -/
theorem Inv.answered (h : Inv s) (hc : s.creating = some c) (good : κ → Bool)
    (hsmooth : Smooth s (.answered good)) (hleft : c.left ≠ []) :
    Inv (answered s c good) where
  reached := by
    intro x hx
    rcases List.mem_append.1 hx with hx | hx
    · exact (h.reached x hx).imp_right fun hin => List.mem_append_left _ hin
    · -- the item's own first notification
      obtain ⟨y, hy, rfl⟩ := List.mem_map.1 hx
      have hfresh : y.2 ∈ c.batch.filter good := by simpa using (List.mem_filter.1 hy).2
      exact Or.inr (List.mem_append_right _ (List.mem_map_of_mem hfresh))
  listed := by
    intro x hx
    rcases List.mem_append.1 hx with hx | hx
    · rcases h.listed x hx with hlisted | ⟨c', hc', hretry, hready, hmade⟩
      · exact Or.inl hlisted
      · obtain rfl : c = c' := Option.some.inj (hc.symm.trans hc')
        exact Or.inr ⟨_, rfl, hretry, hready, List.mem_append_left _ hmade⟩
    · obtain ⟨y, hy, rfl⟩ := List.mem_map.1 hx
      obtain ⟨hready, hfresh⟩ := List.mem_filter.1 hy
      cases hretry : c.retry with
      | false => exact Or.inl ((h.first c hc hretry).listed y hready)
      | true => exact Or.inr ⟨_, rfl, hretry, hready, List.mem_append_right _ (by simpa using hfresh)⟩
  counted := by
    intro expected harmed hle
    have hbefore := hsmooth c hc expected harmed
    simp only [Subscriptions.answered, List.length_append] at hle ⊢
    rcases hbefore with hbefore | hbefore
    · exact Nat.add_le_add_right hbefore _
    · exact absurd hle (Nat.not_le.2 hbefore)
  first := by
    rintro _ ⟨⟩ hretry
    obtain ⟨harmed, hlisted, hcreated, hsizes⟩ := h.first c hc hretry
    refine ⟨harmed, hlisted, congrArg (· ++ _) hcreated, fun hfailed => ?_⟩
    have hperm := (perm_answered c good).length_eq
    simp only [List.length_append] at hperm
    simpa using hperm.trans (hsizes hfailed)
  apart := by
    rintro _ ⟨⟩
    exact (perm_answered c good).nodup_iff.2 (h.apart c hc)
  within := by
    rintro _ ⟨⟩ key hkey
    exact h.within c hc key ((perm_answered c good).mem_iff.1 hkey)
  ended := by
    rintro _ ⟨⟩ hfailed
    exact absurd (h.ended c hc hfailed) hleft
  unmade := by
    rintro _ ⟨⟩ hretry hfailed
    exact absurd (h.ended c hc hfailed) hleft
  later := by
    rintro _ ⟨⟩ hretry
    exact h.later c hc hretry
  idle := by simp [Subscriptions.answered]

omit [DecidableEq κ] in
/-- A block that failed ends the creation. -/
theorem Inv.failed (h : Inv s) (hc : s.creating = some c) (hmade : c.retry = true → c.made = []) :
    Inv { s with creating := some { c with left := [], failed := true } } where
  reached := h.reached
  listed := by
    intro x hx
    rcases h.listed x hx with hlisted | ⟨c', hc', hretry, hready, hin⟩
    · exact Or.inl hlisted
    · obtain rfl : c = c' := Option.some.inj (hc.symm.trans hc')
      exact Or.inr ⟨_, rfl, hretry, hready, hin⟩
  counted := h.counted
  first := by
    rintro _ ⟨⟩ hretry
    obtain ⟨harmed, hlisted, hcreated, -⟩ := h.first c hc hretry
    exact ⟨harmed, hlisted, hcreated, fun hfailed => by cases hfailed⟩
  apart := by
    rintro _ ⟨⟩
    have hapart := h.apart c hc
    rw [List.nodup_append] at hapart
    simpa using hapart.1
  within := by
    rintro _ ⟨⟩ key hkey
    exact h.within c hc key (List.mem_append_left _ (by simpa using hkey))
  ended := by
    rintro _ ⟨⟩ -
    rfl
  unmade := by
    rintro _ ⟨⟩ hretry -
    exact hmade hretry
  later := by
    rintro _ ⟨⟩ hretry
    exact h.later c hc hretry
  idle := by simp

omit [DecidableEq κ] in
/-- A creation that is complete arms the check. -/
theorem Inv.armed (h : Inv s) (hc : s.creating = some c) (hretry : c.retry = false)
    (hleft : c.left = []) : Inv (armSubscription s c) := by
  unfold armSubscription
  split
  · exact inv_init _
  · next hmade =>
    obtain ⟨hfailed, hrejected⟩ : c.failed = false ∧ c.rejected = [] := by simpa using hmade
    obtain ⟨harmed, hlisted, hcreated, hsizes⟩ := h.first c hc hretry
    -- nothing failed, so every point of the list is monitored
    have hcount : s.created.length = c.monitored.length := by
      have := hsizes hfailed
      rw [hrejected, hleft] at this
      rw [hcreated]
      simpa using this
    exact
      { reached := h.reached
        listed := by
          intro x hx
          rcases h.listed x hx with hin | ⟨c', hc', hretry', -⟩
          · exact Or.inl hin
          · obtain rfl : c = c' := Option.some.inj (hc.symm.trans hc')
            rw [hretry] at hretry'
            cases hretry'
        counted := by
          rintro _ ⟨⟩ hle
          exact hcount ▸ hle
        first := fun _ hnone => by cases hnone
        apart := fun _ hnone => by cases hnone
        within := fun _ hnone => by cases hnone
        ended := fun _ hnone => by cases hnone
        unmade := fun _ hnone => by cases hnone
        later := fun _ hnone => by cases hnone
        idle := fun _ hnone => by cases hnone }

omit [DecidableEq κ] in
theorem Inv.mem_refused (h : Inv s) (hc : s.creating = some c) (hkey : key ∈ c.refused) :
    key ∈ c.monitored := by
  unfold Creating.refused at hkey
  split at hkey
  · exact hkey
  · exact h.within c hc key (List.mem_append_left _ (List.mem_append_right _ hkey))

omit [DecidableEq κ] in
theorem Inv.made_accepted (h : Inv s) (hc : s.creating = some c) (hretry : c.retry = true)
    (hmade : key ∈ c.made) : key ∉ c.refused := by
  unfold Creating.refused
  split
  · next hfailed =>
    rw [h.unmade c hc hretry hfailed] at hmade
    cases hmade
  · intro hrejected
    have hapart := h.apart c hc
    simp only [List.nodup_append, List.mem_append] at hapart
    exact hapart.1.2.2 _ hmade _ hrejected rfl

/-- The points of a retry join what is listed. -/
theorem Inv.added (h : Inv s) (hc : s.creating = some c) (hretry : c.retry = true)
    (hshared : ∀ x ∈ c.shared s, (x.2, s.value x.2) ∈ s.inflight) : Inv (addPoints s c) where
  reached := by
    intro x hx
    rcases List.mem_append.1 hx with hx | hx
    · exact h.reached x hx
    · obtain ⟨y, hy, rfl⟩ := List.mem_map.1 hx
      exact Or.inr (hshared y hy)
  listed := by
    intro x hx
    left
    rcases List.mem_append.1 hx with hx | hx
    · rcases h.listed x hx with hlisted | ⟨c', hc', -, hready, hmade⟩
      · exact List.mem_append_left _ hlisted
      · obtain rfl : c = c' := Option.some.inj (hc.symm.trans hc')
        refine List.mem_append_right _ ((mem_pointsOf _ _ _).2 (List.mem_filter.2 ⟨hready, ?_⟩))
        have hrefused := h.made_accepted hc hretry hmade
        simpa using hrefused
    · obtain ⟨y, hy, rfl⟩ := List.mem_map.1 hx
      obtain ⟨hready, hold⟩ := List.mem_filter.1 hy
      refine List.mem_append_right _ ((mem_pointsOf _ _ _).2 (List.mem_filter.2 ⟨hready, ?_⟩))
      have hrefused : y.2 ∉ c.refused := fun hin => by simp [h.mem_refused hc hin] at hold
      simpa using hrefused
  counted := h.counted
  first := fun _ hnone => by cases hnone
  apart := fun _ hnone => by cases hnone
  within := fun _ hnone => by cases hnone
  ended := fun _ hnone => by cases hnone
  unmade := fun _ hnone => by cases hnone
  later := fun _ hnone => by cases hnone
  idle := by
    intro _ hnone
    -- a retry only runs once the check is armed
    have harmed := h.later c hc hretry
    rw [show s.armed = none from hnone] at harmed
    cases harmed

/-- A retry begins with the points that are not monitored yet. -/
theorem Inv.retried (h : Inv s) (hidle : s.creating = none) (harmed : s.armed.isSome)
    (translated : String → Option κ) : Inv (retried s translated) := by
  unfold Subscriptions.retried
  dsimp only
  split
  · exact h
  · exact
      { reached := h.reached
        listed := fun x hx => Or.inl (h.waits hidle x hx)
        counted := h.counted
        first := by
          rintro _ ⟨⟩ hretry
          cases hretry
        apart := by
          rintro _ ⟨⟩
          exact nodup_groupMonitored _
        within := by
          rintro _ ⟨⟩ key hkey
          exact hkey
        ended := by
          rintro _ ⟨⟩ hfailed
          cases hfailed
        unmade := by
          rintro _ ⟨⟩ - hfailed
          cases hfailed
        later := by
          rintro _ ⟨⟩ -
          exact harmed
        idle := by simp }

theorem Inv.changed (h : Inv s) (item : κ) (v : V) : Inv (step s (.changed item v)).1 :=
  { h with
    reached := fun x hx => (h.reached x hx).imp_right fun hin => List.mem_append_left _ hin
    listed := h.listed
    first := fun c hc hretry =>
      let ⟨harmed, hlisted, hcreated, hsizes⟩ := h.first c hc hretry
      ⟨harmed, hlisted, hcreated, hsizes⟩ }

/-- A notification finds the points of its item listed, unless it comes before the retry task. -/
theorem Inv.handed (h : Inv s) {place : Nat} {v : V} (hsmooth : Smooth s (.notified place))
    (hplace : s.inflight[place]? = some (key, v)) :
    ∀ x ∈ s.live, x.item = key → x.point ∈ s.byNode key := by
  rintro x hx rfl
  rcases h.listed x hx with hlisted | ⟨c, hc, hretry, -, hmade⟩
  · exact hlisted
  · exact absurd hmade (hsmooth c hc hretry _ hplace)

/-- A notification reaches every point of its node. -/
theorem Inv.notified (h : Inv s) {place : Nat} {v : V} (hplace : s.inflight[place]? = some (key, v))
    (hlisted : ∀ x ∈ s.live, x.item = key → x.point ∈ s.byNode key) :
    Inv { s with
      inflight := s.inflight.eraseIdx place
      got := s.got ++ (s.byNode key).map fun id => (id, v) } :=
  { h with
    reached := by
      intro x hx
      rcases h.reached x hx with hgot | hin
      · exact Or.inl (List.mem_append_left _ hgot)
      · by_cases hthis : (x.item, x.value) = (key, v)
        · -- its own first notification arrives
          obtain ⟨hitem, hvalue⟩ := Prod.mk.inj hthis
          have hmem := List.mem_map_of_mem (f := fun id => (id, v)) (hlisted x hx hitem)
          exact Or.inl (List.mem_append_right _ (hvalue ▸ hmem))
        · right
          obtain ⟨i, hi⟩ := List.getElem?_of_mem hin
          have hne : i ≠ place := fun heq => hthis (Option.some.inj (hi.symm.trans (heq ▸ hplace)))
          exact List.mem_eraseIdx_iff_getElem?.2 ⟨i, hne, hi⟩
    listed := h.listed
    first := fun c hc hretry =>
      let ⟨harmed, hlisted, hcreated, hsizes⟩ := h.first c hc hretry
      ⟨harmed, hlisted, hcreated, hsizes⟩ }

/-- Items made again after a reconnect are the same ones. -/
theorem Inv.recreated (h : Inv s) (items : List κ)
    (hcount : ∀ expected ∈ s.armed, s.created.length ≤ items.length ∨ items.length < expected) :
    Inv (recreate s items) :=
  { h with
    reached := by
      intro x hx
      obtain ⟨y, hy, rfl⟩ := List.mem_map.1 hx
      have hitem : y.item ∈ items := by simpa using (List.mem_filter.1 hy).2
      exact Or.inr (List.mem_map_of_mem (f := fun key => (key, s.value key)) hitem)
    listed := by
      intro x hx
      obtain ⟨y, hy, rfl⟩ := List.mem_map.1 hx
      exact h.listed y (List.mem_filter.1 hy).1
    counted := by
      intro expected harmed hle
      exact (hcount expected harmed).resolve_right (Nat.not_lt.2 hle)
    first := fun c hc hretry =>
      let ⟨harmed, hlisted, hcreated, hsizes⟩ := h.first c hc hretry
      ⟨harmed, hlisted, hcreated, hsizes⟩
    idle := fun hidle harmed => by simp [recreate, h.idle hidle harmed] }

/-! ## Every run -/

/-- Every event keeps the account of the monitored items. -/
theorem step_inv {event : Event κ V} (hsmooth : Smooth s event) (h : Inv s) :
    Inv (step s event).1 := by
  cases event with
  | subscribe points =>
    simp only [step]
    split
    · exact h
    · next hguard =>
      simp only [not_or, Option.not_isSome_iff_eq_none] at hguard
      exact h.subscribe hguard.1 hguard.2.1 points
  -- a batch of items was created, each with its own result
  | answered good =>
    simp only [step]
    split
    · next c hc =>
      split
      · exact h
      · next hleft => exact h.answered hc good hsmooth hleft
    · exact h
  | failed =>
    simp only [step]
    split
    · next c hc =>
      split
      · exact h
      · next hleft => exact h.failed hc fun hretry => hsmooth c hc hretry hleft
    · exact h
  | resumed =>
    simp only [step]
    split
    · next c hc =>
      split
      · exact h
      · next hleft =>
        have hleft : c.left = [] := not_not.1 hleft
        dsimp only
        split
        · next hretry => exact h.added hc hretry (hsmooth c hc hretry hleft)
        · next hretry => exact h.armed hc (by simpa using hretry) hleft
    · exact h
  | retried translated =>
    simp only [step]
    split
    · exact h
    · next hguard =>
      simp only [not_or, Option.not_isSome_iff_eq_none] at hguard
      exact h.retried hguard.1 (Option.isSome_iff_ne_none.2 fun hnone => hguard.2 (by simp [hnone]))
        translated
  | changed item v => exact h.changed item v
  | notified place =>
    simp only [step]
    split
    · next key v hplace => exact h.notified hplace (h.handed hsmooth hplace)
    · exact h
  | recreated kept => exact h.recreated _ hsmooth
  | reconnected => exact inv_init _
  | check connected subscribed publishing => exact h

omit [DecidableEq κ] in
theorem Inv.checked (h : Inv s) {connected subscribed publishing : Bool}
    (hok : checkSubscription s connected subscribed publishing = true) :
    (s.created.filter fun key => s.byNode key ≠ []).length ≤ s.items.length := by
  unfold checkSubscription at hok
  split at hok
  · cases hok
  · next expected harmed =>
    have hle : expected ≤ s.items.length := by
      simp only [Bool.and_eq_true, decide_eq_true_eq] at hok
      exact hok.1.2
    exact Nat.le_trans (List.length_filter_le _ _) (h.counted expected harmed hle)

/-- And delivers, or reports, what is owed to each point. -/
theorem step_owed {event : Event κ V} (hsmooth : Smooth s event) (h : Inv s) :
    Owed s (step s event).2 := by
  cases event with
  | notified place =>
    cases hplace : s.inflight[place]? with
    | none => simp [step, hplace, Owed]
    | some x => simpa [step, hplace, Owed] using h.handed hsmooth hplace
  | check connected subscribed publishing => exact h.checked
  | subscribe points =>
    simp only [step]
    split <;> trivial
  | retried translated =>
    simp only [step]
    split <;> trivial
  | answered good =>
    cases hc : s.creating with
    | none => simp [step, hc, Owed]
    | some c => by_cases hleft : c.left = [] <;> simp [step, hc, hleft, Owed]
  | failed =>
    cases hc : s.creating with
    | none => simp [step, hc, Owed]
    | some c => by_cases hleft : c.left = [] <;> simp [step, hc, hleft, Owed]
  | resumed =>
    cases hc : s.creating with
    | none => simp [step, hc, Owed]
    | some c => by_cases hleft : c.left = [] <;> simp [step, hc, hleft, Owed]
  | changed | recreated | reconnected => trivial

/-- **No pushed point is silently dead**, in every run whose steps are smooth. -/
theorem never_silent (value : κ → V) (events : List (Event κ V))
    (hsmooth : AllSteps step Smooth (Push.init value) events) :
    AllSteps step Delivers (Push.init value) events :=
  allSteps_of_allSteps (P := Inv) (fun _ _ => step_inv)
    (fun _ _ hstep h => ⟨step_owed hstep h, (step_inv hstep h).reached⟩) hsmooth (inv_init value)

/-- A point that waits for its namespace, next to one that does not. -/
def armedRun : List (Event Nat Nat) :=
  [.subscribe [("level", some 1), ("flow", none)], .answered fun _ => true, .resumed,
    .notified 0, .retried fun _ => some 2, .answered fun _ => true]

/-- A subscription of one point that is checked. -/
theorem never_silent_armed :
    AllSteps step Delivers (Push.init fun _ : Nat => 0)
      (armedRun ++ [.resumed, .notified 0, .check true true true]) :=
  never_silent _ _ (by decide)

/-- The first notification of the retried point comes before it is listed: it is dropped. A point
that is listed under an item of old gets nothing until its node changes. And where the library
re-creates the subscription without the item the retry task added, the check finds as many items as
`subscribe` made. -/
theorem silently_dead :
    ¬ AllSteps step Delivers (Push.init fun _ : Nat => 0) (armedRun ++ [.notified 0]) ∧
    ¬ AllSteps step Delivers (Push.init fun _ : Nat => 0)
      [.subscribe [("level", some 1), ("flow", none)], .answered fun _ => true, .resumed,
        .notified 0, .retried fun _ => some 1, .resumed] ∧
    ¬ AllSteps step Delivers (Push.init fun _ : Nat => 0)
      (armedRun ++ [.resumed, .notified 0, .recreated [true, false], .check true true true]) := by
  decide

end TedgeDot.Opcua.Subscriptions
