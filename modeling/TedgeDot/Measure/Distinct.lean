import TedgeDot.Measure.Accounting
import TedgeDot.Measure.Inherited

/-!
# Names in a message

What keeps the series of a message apart: a message holds a point at most once, a point's
aggregates have distinct names, and `check_resolved` refuses a configuration in which an
aggregated point publishes a name of another point of its device and group. It passes over two
points without aggregates, so these may share a name (`SameSeries`), and then their values meet in
one message. `keys_distinct` says that no other keys are ever equal.

- `checked_names`: what `check_resolved` leaves of the names of a device.
- `Measuring`: what a message holds, in every reachable state.
-/

namespace TedgeDot.Measure

open Machine Desk

/-! ## The aggregates of an accepted point -/

/-- An option of one level over those below. -/
theorem get_mergeBatchLevel (base : JsonMap) {table : Toml} (h : Level table) {key : String}
    (hkey : key ≠ "group_by") :
    (mergeBatchLevel base (batchJson table)).get key =
      ((batchEntry table key).map Toml.toJson).or (base.get key) := by
  unfold batchEntry batchOf batchJson
  cases hbatch : table.get "batch" with
  | none => rfl
  | some v =>
    obtain ⟨map, rfl, hsorted⟩ := h.batch v hbatch
    have hnodup : ((Toml.entriesToJson map).map Prod.fst).Nodup := by
      rw [keys_entriesToJson]
      exact hsorted.imp ne_of_lt
    have hall : (base.insertAll (Toml.entriesToJson map)).get key =
        ((map.get key).map Toml.toJson).or (base.get key) := by
      rw [JsonMap.get_insertAll _ hnodup, Toml.get_entriesToJson]
    show (mergeBatchLevel base (some (.object (Toml.entriesToJson map)))).get key =
      ((map.get key).map Toml.toJson).or (base.get key)
    unfold mergeBatchLevel
    dsimp only
    split
    · rw [JsonMap.get_insert, if_neg (Ne.symm hkey), hall]
    · exact hall

theorem aggregate_ne_nil {table : Toml} (h : checkBatch table = .ok ()) {v : Toml}
    (hv : batchEntry table "aggregate" = some v) : v ≠ .array [] := by
  obtain ⟨map, hmap, hget⟩ := Option.bind_eq_some_iff.mp hv
  obtain ⟨batch, hbatch, hmap⟩ := Option.bind_eq_some_iff.mp hmap
  unfold checkBatch at h
  rw [hbatch] at h
  rintro rfl
  cases batch with
  | table map' =>
    obtain rfl := Option.some.inj hmap
    obtain ⟨_, _, h⟩ := bind_ok h
    obtain ⟨_, _, h⟩ := bind_ok h
    obtain ⟨_, _, h⟩ := bind_ok h
    unfold checkAggregate at h
    rw [hget] at h
    cases h
  | _ => cases hmap

theorem toJson_ne_nil {v : Toml} (h : v ≠ .array []) : v.toJson ≠ .array [] := by
  cases v with
  | array items =>
    cases items with
    | nil => exact absurd rfl h
    | cons item items => simp [Toml.toJson, Toml.itemsToJson]
  | float f =>
    unfold Toml.toJson
    split <;> simp
  | _ => simp [Toml.toJson]

/-- A point that aggregates has at least one aggregate. -/
theorem Accepted.aggregates_ne_nil {connector deviceTable : Toml} {libraries : List (List Toml)}
    {inline : List Toml} {config : ConnectorConfig} {device : DeviceConfig} {point : PointConfig}
    {resolved : Toml} {groupBy : GroupBy}
    (h : Accepted connector deviceTable libraries inline config device point resolved groupBy) :
    ∀ suffixed, aggregatesOf (batchTable config device point) ≠ some ([], suffixed) := by
  have hconnector : Written connector := written (h.wellFormed _ (by simp)) (h.checked _ (by simp))
  have hdevice : Written deviceTable := written (h.wellFormed _ (by simp)) (h.checked _ (by simp))
  obtain ⟨hlevel, -, hentries⟩ := h.entries
  -- each definition passed the check that refuses an empty list
  have hresolved (v : Toml) (hv : batchEntry resolved "aggregate" = some v) : v ≠ .array [] := by
    rw [hentries "aggregate" (by simp)] at hv
    obtain ⟨d, hd, hv⟩ := List.exists_of_findSome?_eq_some hv
    have hmem := (h.layers_mem (List.mem_reverse.mp hd)).1
    apply aggregate_ne_nil _ hv
    apply h.checked
    exact List.mem_cons_of_mem _ (List.mem_cons_of_mem _ hmem)
  have hne : ∀ v, (batchTable config device point).get "aggregate" = some v → v ≠ .array [] := by
    intro v hv
    rw [batchTable, h.configBatch, h.deviceBatch, h.pointBatch,
      get_mergeBatchLevel _ hlevel (by decide), get_mergeBatchLevel _ hdevice.toLevel (by decide),
      get_mergeBatchLevel _ hconnector.toLevel (by decide)] at hv
    simp only [Option.or_eq_some_iff, Option.map_eq_some_iff] at hv
    rcases hv with ⟨w, hw, rfl⟩ | ⟨-, ⟨w, hw, rfl⟩ | ⟨-, ⟨w, hw, rfl⟩ | ⟨-, hv⟩⟩⟩
    · exact toJson_ne_nil (hresolved w hw)
    · exact toJson_ne_nil (aggregate_ne_nil (h.checked _ (by simp)) hw)
    · exact toJson_ne_nil (aggregate_ne_nil (h.checked _ (by simp)) hw)
    · cases hv
  intro suffixed hsome
  unfold aggregatesOf at hsome
  split at hsome
  · simp at hsome
  · rename_i list hget
    cases list with
    | nil => exact hne _ hget rfl
    | cons item items => simp [List.mapM_cons, Option.bind_eq_some_iff] at hsome
  · cases hsome

/-! ## The check of the names -/

theorem aggregatedOf_eq (config : ConnectorConfig) (device : DeviceConfig) (point : PointConfig) :
    aggregatedOf config device point =
      if (groupByOf config device point).isSample then
        aggregatesOf (batchTable config device point)
      else none := by
  unfold aggregatedOf groupByOf
  cases GroupBy.fromTable (batchTable config device point) with
  | error e => rfl
  | ok groupBy =>
    cases groupBy with
    | sample every => cases everyEvent point <;> rfl
    | time => rfl
    | frame window => rfl

def namesOf (config : ConnectorConfig) (device : DeviceConfig) (point : PointConfig) :
    List String :=
  (seriesNames config device point).map Prod.snd

section Names

variable {config : ConnectorConfig} {device : DeviceConfig} {point : PointConfig}
  {names names' : TakenNames}

theorem seriesNames_plain (h : aggregatedOf config device point = none) :
    seriesNames config device point = [(none, seriesOf config point)] := by
  rw [aggregatedOf_eq] at h
  unfold seriesNames
  dsimp only
  split
  · rename_i aggs suffixed haggs
    split
    · rename_i hsample
      rw [if_pos hsample, haggs] at h
      cases h
    · rfl
  · rfl

theorem seriesNames_aggregated {aggs : List Aggregate} {suffixed : Bool}
    (h : aggregatedOf config device point = some (aggs, suffixed)) :
    seriesNames config device point = aggs.map fun a =>
      (some a, if suffixed then seriesOf config point ++ "_" ++ a.name
        else seriesOf config point) := by
  rw [aggregatedOf_eq, Option.ite_none_right_eq_some] at h
  unfold seriesNames
  simp only [h.2, h.1, ↓reduceIte]
  rfl

theorem aggregates_single {table : JsonMap} {aggs : List Aggregate}
    (h : aggregatesOf table = some (aggs, false)) : ∃ a, aggs = [a] := by
  unfold aggregatesOf at h
  split at h
  · simp only [Option.map_eq_some_iff, Prod.mk.injEq, and_true] at h
    obtain ⟨a, -, rfl⟩ := h
    exact ⟨a, rfl⟩
  · simp at h
  · cases h

/-- A measured point takes its names. -/
theorem checkPoint_takes (h : checkPoint config device point names = .ok names')
    (houtput : Output.of config = .measurements) (hmeasurable : measurable point device) :
    takeNames device.name point.id (groupOf config point)
      (aggregatedOf config device point).isSome (namesOf config device point) names = .ok names' := by
  unfold checkPoint at h
  dsimp only at h
  split at h
  · cases h
  · rw [if_neg (by simp [houtput, hmeasurable])] at h
    rw [← h]
    unfold namesOf groupOf
    cases haggregated : aggregatedOf config device point with
    | none =>
      rw [seriesNames_plain haggregated]
      rfl
    | some p =>
      obtain ⟨aggs, suffixed⟩ := p
      rw [seriesNames_aggregated haggregated]
      cases suffixed with
      | true =>
        simp only [↓reduceIte, List.map_map, Function.comp_def]
        rfl
      | false =>
        rw [aggregatedOf_eq, Option.ite_none_right_eq_some] at haggregated
        obtain ⟨a, rfl⟩ := aggregates_single haggregated.2
        rfl

theorem TakenNames.get_cons (key key' : String × String) (r : String × Bool) (names : TakenNames) :
    TakenNames.get ((key, r) :: names) key' =
      if key = key' then some r else TakenNames.get names key' := by
  unfold TakenNames.get
  by_cases h : key = key'
  · rw [List.find?_cons_of_pos (by simp [h]), if_pos h]
    rfl
  · rw [List.find?_cons_of_neg (by simp [h]), if_neg h]

/-- What taking a point's names leaves. -/
structure Took (group : String) (mine : Bool) (ns : List String) (names names' : TakenNames) :
    Prop where
  /-- What was taken stays taken. -/
  kept : ∀ key r, names.get key = some r → names'.get key = some r
  taken : ∀ n ∈ ns, ∃ r, names'.get (group, n) = some r ∧ (mine = true → r.2 = true)
  /-- A name taken twice is one of points without aggregates. -/
  shared : ∀ n ∈ ns, ∀ r, names.get (group, n) = some r → r.2 = false ∧ mine = false
  nodup : mine = true → ns.Nodup

/-- Names that are taken were free, or shared within a group. -/
theorem takeNames_ok {deviceName id group : String} {mine : Bool} {ns : List String}
    (h : takeNames deviceName id group mine ns names = .ok names') :
    Took group mine ns names names' := by
  -- the names taken so far only grow
  induction ns generalizing names with
  | nil =>
    obtain rfl := Except.ok.inj h
    exact ⟨fun _ _ hr => hr, by simp, by simp, by simp⟩
  | cons n ns ih =>
    unfold takeNames at h
    cases hget : names.get (group, n) with
    | some r =>
      obtain ⟨other, theirs⟩ := r
      simp only [hget] at h
      split at h
      · cases h
      · rename_i hplain
        obtain ⟨rfl, rfl⟩ : mine = false ∧ theirs = false := by simpa using hplain
        obtain ⟨hkept, htaken, hshared, -⟩ := ih h
        refine ⟨hkept, ?_, ?_, by simp⟩
        · intro m hm
          rcases List.mem_cons.mp hm with rfl | hm
          · exact ⟨_, hkept _ _ hget, by simp⟩
          · exact htaken m hm
        · intro m hm r hr
          rcases List.mem_cons.mp hm with rfl | hm
          · obtain rfl := Option.some.inj (hget.symm.trans hr)
            exact ⟨rfl, rfl⟩
          · exact hshared m hm r hr
    | none =>
      simp only [hget] at h
      obtain ⟨hkept, htaken, hshared, hnodup⟩ := ih h
      have hself := TakenNames.get_cons (group, n) (group, n) (id, mine) names
      rw [if_pos rfl] at hself
      have hkept' : ∀ key r, names.get key = some r → names'.get key = some r := by
        intro key r hr
        apply hkept
        rw [TakenNames.get_cons, if_neg ?_, hr]
        rintro rfl
        rw [hget] at hr
        cases hr
      refine ⟨hkept', ?_, ?_, ?_⟩
      · intro m hm
        rcases List.mem_cons.mp hm with rfl | hm
        · exact ⟨_, hkept _ _ hself, fun h => h⟩
        · exact htaken m hm
      · intro m hm r hr
        rcases List.mem_cons.mp hm with rfl | hm
        · rw [hget] at hr
          cases hr
        · apply hshared m hm
          rw [TakenNames.get_cons, if_neg ?_, hr]
          intro heq
          rw [← heq, hget] at hr
          cases hr
      · -- the name just taken is one of an aggregated point, so it is not taken again
        intro hmine
        rw [List.nodup_cons]
        refine ⟨fun hn => ?_, hnodup hmine⟩
        have hfalse := (hshared n hn _ hself).2
        rw [hmine] at hfalse
        cases hfalse

end Names

section Points

variable {config : ConnectorConfig} {device : DeviceConfig}

/-- A name that two points of a device publish in one group is one of points without aggregates. -/
def NamesApart (config : ConnectorConfig) (device : DeviceConfig) (p q : PointConfig) : Prop :=
  measurable p device → measurable q device → groupOf config p = groupOf config q →
    ∀ n ∈ namesOf config device p, n ∈ namesOf config device q →
      aggregatedOf config device p = none ∧ aggregatedOf config device q = none

def NamesTaken (config : ConnectorConfig) (device : DeviceConfig) (names : TakenNames)
    (p : PointConfig) : Prop :=
  measurable p device → ∀ n ∈ namesOf config device p,
    ∃ r, names.get (groupOf config p, n) = some r ∧
      ((aggregatedOf config device p).isSome = true → r.2 = true)

/-- What the loop of the check knows of the points gone through. -/
structure CheckedPoints (config : ConnectorConfig) (device : DeviceConfig) (done : List PointConfig)
    (names : TakenNames) : Prop where
  holds : ∀ p ∈ done, NamesTaken config device names p
  apart : done.Pairwise (NamesApart config device)
  nodup : ∀ p ∈ done, measurable p device → (namesOf config device p).Nodup

/-- The names taken so far, over one more point. -/
theorem CheckedPoints.snoc {done : List PointConfig} {names names' : TakenNames}
    {point : PointConfig} (hc : CheckedPoints config device done names)
    (houtput : Output.of config = .measurements)
    (h : checkPoint config device point names = .ok names') :
    CheckedPoints config device (done ++ [point]) names' := by
  cases hmeasurable : measurable point device with
  | false =>
    have hnames : names' = names := by
      unfold checkPoint at h
      dsimp only at h
      split at h
      · cases h
      · rw [if_pos (by simp [hmeasurable])] at h
        exact (Except.ok.inj h).symm
    subst hnames
    have hnot : ¬ measurable point device = true := by simp [hmeasurable]
    refine ⟨?_, ?_, ?_⟩
    · intro p hp
      rcases List.mem_append.mp hp with hp | hp
      · exact hc.holds p hp
      · rw [List.mem_singleton.mp hp]
        exact fun hm => absurd hm hnot
    · rw [List.pairwise_append]
      refine ⟨hc.apart, List.pairwise_singleton _ _, fun p _ q hq => ?_⟩
      rw [List.mem_singleton.mp hq]
      exact fun _ hm => absurd hm hnot
    · intro p hp
      rcases List.mem_append.mp hp with hp | hp
      · exact hc.nodup p hp
      · rw [List.mem_singleton.mp hp]
        exact fun hm => absurd hm hnot
  | true =>
    obtain ⟨hkept, htaken, hshared, hnodup⟩ :=
      takeNames_ok (checkPoint_takes h houtput hmeasurable)
    refine ⟨?_, ?_, ?_⟩
    · intro p hp
      rcases List.mem_append.mp hp with hp | hp
      · intro hm n hn
        obtain ⟨r, hr, hmine⟩ := hc.holds p hp hm n hn
        exact ⟨r, hkept _ _ hr, hmine⟩
      · rw [List.mem_singleton.mp hp]
        exact fun _ => htaken
    · rw [List.pairwise_append]
      refine ⟨hc.apart, List.pairwise_singleton _ _, fun p hp q hq => ?_⟩
      rw [List.mem_singleton.mp hq]
      intro hp' _ hgroup n hnp hnq
      -- the name was taken when the check came to the second point
      obtain ⟨r, hr, hmine⟩ := hc.holds p hp hp' n hnp
      rw [hgroup] at hr
      obtain ⟨htheirs, hplain⟩ := hshared n hnq r hr
      refine ⟨?_, by simpa using hplain⟩
      cases haggregated : aggregatedOf config device p with
      | none => rfl
      | some a =>
        have htrue := hmine (by rw [haggregated]; rfl)
        rw [htheirs] at htrue
        cases htrue
    · intro p hp
      rcases List.mem_append.mp hp with hp | hp
      · exact hc.nodup p hp
      · rw [List.mem_singleton.mp hp]
        intro _
        cases haggregated : aggregatedOf config device point with
        | none =>
          unfold namesOf
          rw [seriesNames_plain haggregated]
          simp
        | some a =>
          apply hnodup
          rw [haggregated]
          rfl

theorem checkPoints_ok {points done : List PointConfig} {names names' : TakenNames}
    (hc : CheckedPoints config device done names) (houtput : Output.of config = .measurements)
    (h : checkPoints config device points names = .ok names') :
    CheckedPoints config device (done ++ points) names' := by
  induction points generalizing done names with
  | nil =>
    obtain rfl := Except.ok.inj h
    rwa [List.append_nil]
  | cons point points ih =>
    unfold checkPoints at h
    cases hpoint : checkPoint config device point names with
    | error e => simp [hpoint] at h
    | ok next =>
      simp only [hpoint] at h
      have hrest := ih (hc.snoc houtput hpoint) h
      rwa [List.append_assoc] at hrest

theorem checked_names (hresolved : checkResolvedBatches config = .ok ())
    (houtput : Output.of config = .measurements) (hdevice : device ∈ config.devices) :
    ∃ names, CheckedPoints config device device.points names := by
  obtain ⟨_, _, hresolved⟩ := bind_ok hresolved
  have hchecked := forM_ok hresolved device hdevice
  cases hpoints : checkPoints config device device.points [] with
  | error e =>
    rw [hpoints] at hchecked
    cases hchecked
  | ok names =>
    refine ⟨names, ?_⟩
    have hdone : CheckedPoints config device [] [] := ⟨by simp, List.Pairwise.nil, by simp⟩
    exact checkPoints_ok hdone houtput hpoints

end Points

/-! ## What a message holds -/

/-- A point whose readings may become series. -/
structure DeviceTable.Measured (dev : DeviceTable) (k : Nat) : Prop where
  located : dev.Located k
  measurable : (dev.plan k).measurable = true

/-- A message holds values of measured points of its key, each under a name of its point, and no
name of a point twice. -/
structure Part.Named (dev : DeviceTable) (p : Part) : Prop where
  nodup : (p.entries.map fun e => (e.point, e.key)).Nodup
  measured : ∀ e ∈ p.entries, dev.Measured e.point
  keyOf : ∀ e ∈ p.entries, dev.keyOf e.point = p.key
  named : ∀ e ∈ p.entries, e.key ∈ (dev.plan e.point).names

/-- What a table is built with: a point without aggregates has its series name, and the names of
an aggregated point are distinct. -/
structure DeviceTable.WellNamed (dev : DeviceTable) : Prop where
  plain : ∀ k, (dev.plan k).groupBy.isSample = false → (dev.plan k).names = [(dev.plan k).seriesKey]
  nodup : ∀ k, dev.Measured k → (dev.plan k).names.Nodup

/-- The state of a device that was built as `dev₀`, and what it published. -/
structure Measuring (dev₀ dev : DeviceTable) (past : List Part) : Prop where
  fixed : Fixed dev₀ dev
  layered : Layered dev
  /-- Only measured points hold a value to be sampled. -/
  idle : dev.IdleOff dev₀.Measured
  /-- Only measured points that are not sampled are in an open message. -/
  opened : ∀ k, 0 < dev.depth k → dev₀.Measured k ∧ (dev₀.plan k).groupBy.isSample = false
  past : ∀ p ∈ past, p.Named dev₀

namespace Measuring

variable {dev₀ dev dev' : DeviceTable} {past new : List Part} {key : Key} {o : Open} {k : Nat}

/-- A layer that is closed has a name for each of its entries. -/
theorem layer_named (h : Measuring dev₀ dev past) (hw : dev₀.WellNamed)
    (ho : o ∈ dev.layers key) (p : Part) (hentries : p.entries = o.entries) (hkey : p.key = key) :
    p.Named dev₀ := by
  have hsound := h.layered.sound key o ho
  have hpoint : ∀ e ∈ p.entries, e.point ∈ o.points := by
    intro e he
    apply hsound.held.subset
    rw [hentries] at he
    exact List.mem_map_of_mem he
  have hopen : ∀ e ∈ p.entries, dev.keyOf e.point = key ∧ 0 < dev.depth e.point := by
    intro e he
    exact (h.layered.exists_layer key e.point).mp ⟨o, ho, hpoint e he⟩
  refine ⟨?_, ?_, ?_, ?_⟩
  · apply List.Nodup.of_map Prod.fst
    rw [List.map_map, hentries]
    exact hsound.held.nodup hsound.nodup
  · intro e he
    exact (h.opened _ (hopen e he).2).1
  · intro e he
    rw [← h.fixed.keyOf, (hopen e he).1, hkey]
  · intro e he
    rw [hw.plain _ (h.opened _ (hopen e he).2).2, List.mem_singleton, ← h.fixed.plan]
    rw [hentries] at he
    exact hsound.seriesKey e he

theorem closing_named (h : Measuring dev₀ dev past) (hw : dev₀.WellNamed) (key : Key) :
    ∀ p ∈ dev.closing key, p.Named dev₀ := by
  intro p hp
  obtain ⟨o, ho, rfl⟩ := List.mem_map.mp hp
  exact h.layer_named hw ho _ rfl rfl

theorem more (h : Measuring dev₀ dev past) (hnew : ∀ p ∈ new, p.Named dev₀) :
    Measuring dev₀ dev (past ++ new) :=
  ⟨h.fixed, h.layered, h.idle, h.opened, fun p hp => (List.mem_append.mp hp).elim (h.past p) (hnew p)⟩

theorem closed (h : Measuring dev₀ dev past) (hw : dev₀.WellNamed) (hc : Closed key dev dev') :
    Measuring dev₀ dev' (past ++ dev.closing key) := by
  refine ⟨h.fixed.trans hc.toFixed, h.layered.closed hc, ?_, ?_,
    (h.more (h.closing_named hw key)).past⟩
  · intro k hk
    rw [hc.slots]
    exact h.idle k hk
  · intro k hk
    apply h.opened
    rw [h.layered.depth_closed hc] at hk
    split at hk
    · exact absurd hk (lt_irrefl 0)
    · exact hk

theorem quiet (h : Measuring dev₀ dev past) (hq : Quiet dev dev')
    (hidle : dev'.IdleOff dev₀.Measured) : Measuring dev₀ dev' past := by
  refine ⟨h.fixed.trans hq.toFixed, h.layered.quiet hq, hidle, ?_, h.past⟩
  intro k hk
  rw [hq.depth] at hk
  exact h.opened k hk

theorem opened_update (h : Measuring dev₀ dev past) (hk : dev₀.Measured k)
    (hsample : (dev₀.plan k).groupBy.isSample = false) {depth : Nat} {j : Nat}
    (hj : 0 < Function.update dev.depth k depth j) :
    dev₀.Measured j ∧ (dev₀.plan j).groupBy.isSample = false := by
  by_cases hjk : j = k
  · rw [hjk]
    exact ⟨hk, hsample⟩
  · rw [Function.update_of_ne hjk] at hj
    exact h.opened j hj

variable [Ryu]

/-- Adding a value keeps the parts named. -/
theorem added {ts : OffsetDateTime} {v : Float} {now : Nat} (h : Measuring dev₀ dev past)
    (hw : dev₀.WellNamed) (hk : dev₀.Measured k)
    (hsample : (dev₀.plan k).groupBy.isSample = false) (ha : Added dev k ts v now dev' new) :
    Measuring dev₀ dev' (past ++ new) := by
  have hlocated : dev.Located k := by
    obtain ⟨id, hid⟩ := hk.located
    exact ⟨id, by rw [h.fixed.index, hid]⟩
  have hlayered := h.layered.added hlocated ha
  cases ha with
  | fill o hstay ho hfilled =>
    refine ⟨h.fixed.trans hfilled.toFixed, hlayered, ?_, ?_, ?_⟩
    · intro j hj
      rw [hfilled.slots]
      exact h.idle j hj
    · intro j hj
      rw [hfilled.depth] at hj
      exact h.opened_update hk hsample hj
    · refine (h.more ?_).past
      intro p hp
      split at hp
      · rw [List.mem_singleton.mp hp]
        exact h.layer_named hw (List.mem_of_getElem? ho) _ rfl rfl
      · cases hp
  | start o hstay hdepth hstarted =>
    refine ⟨h.fixed.trans hstarted.toFixed, hlayered, ?_, ?_, ?_⟩
    · intro j hj
      rw [hstarted.slots]
      exact h.idle j hj
    · intro j hj
      rw [hstarted.depth] at hj
      exact h.opened_update hk hsample hj
    · rw [List.append_nil]
      exact h.past
  -- a closing first, then as when a layer is started
  | restart o hclose hclosed hdepth hstarted =>
    have hmid := h.closed hw hclosed
    refine ⟨hmid.fixed.trans hstarted.toFixed, hlayered, ?_, ?_, hmid.past⟩
    · intro j hj
      rw [hstarted.slots]
      exact hmid.idle j hj
    · intro j hj
      rw [hstarted.depth] at hj
      exact hmid.opened_update hk hsample hj

omit [Ryu] in
/-- No two points share a name under one key. -/
theorem nodup_names (hw : dev₀.WellNamed) [DecidablePred dev₀.Measured] (key : Key) (n : Nat) :
    ((List.range n).flatMap (dev₀.names dev₀.Measured key)).Nodup := by
  rw [List.nodup_flatMap]
  have hpoint : ∀ k, ∀ x ∈ dev₀.names dev₀.Measured key k, x.1 = k := by
    intro k x hx
    unfold DeviceTable.names at hx
    split at hx
    · obtain ⟨name, -, rfl⟩ := List.mem_map.mp hx
      rfl
    · cases hx
  refine ⟨?_, ?_⟩
  · intro k _
    unfold DeviceTable.names
    split
    · rename_i hk
      exact (hw.nodup k hk.2).map fun a b hab => congrArg Prod.snd hab
    · exact List.nodup_nil
  · refine List.nodup_range.imp ?_
    intro j k hjk x hxj hxk
    exact hjk ((hpoint j x hxj).symm.trans (hpoint k x hxk))

omit [Ryu] in
/-- The parts that a sampler emits are named like the others. -/
theorem samples_named (h : Measuring dev₀ dev past) (hw : dev₀.WellNamed)
    (hnew : SampleParts dev new) : ∀ p ∈ new, p.Named dev₀ := by
  classical
  intro p hp
  have hnames := hnew.names dev₀.Measured h.idle p hp
  rw [h.fixed.points, funext fun k => h.fixed.names dev₀.Measured p.key k] at hnames
  have hmem : ∀ e ∈ p.entries, ∃ k, (e.point, e.key) ∈ dev₀.names dev₀.Measured p.key k := by
    intro e he
    obtain ⟨k, -, hk⟩ := List.mem_flatMap.mp (hnames.subset (List.mem_map_of_mem he))
    exact ⟨k, hk⟩
  have hpoint : ∀ e ∈ p.entries, dev₀.keyOf e.point = p.key ∧ dev₀.Measured e.point ∧
      e.key ∈ (dev₀.plan e.point).names := by
    intro e he
    obtain ⟨k, hk⟩ := hmem e he
    unfold DeviceTable.names at hk
    split at hk
    · rename_i hkey
      obtain ⟨name, hname, heq⟩ := List.mem_map.mp hk
      simp only [Prod.mk.injEq] at heq
      obtain ⟨rfl, rfl⟩ := heq
      exact ⟨hkey.1, hkey.2, hname⟩
    · cases hk
  exact ⟨hnames.nodup (nodup_names hw _ _), fun e he => (hpoint e he).2.1,
    fun e he => (hpoint e he).1, fun e he => (hpoint e he).2.2⟩

omit [Ryu] in
theorem idle_update (h : Measuring dev₀ dev past) (hk : dev₀.Measured k) (slot : Slot) {j : Nat}
    (hj : ¬ dev₀.Measured j) : (Function.update dev.slots k slot j).Idle := by
  have hne : j ≠ k := by
    rintro rfl
    exact hj hk
  rw [Function.update_of_ne hne]
  exact h.idle j hj

omit [Ryu] in
theorem closeAll (hw : dev₀.WellNamed) (desk : Desk) (keys : List Key)
    (h : Measuring dev₀ desk.dev past) :
    Measuring dev₀ (desk.closeAll keys).1.dev (past ++ parts (desk.closeAll keys).2) := by
  refine closeAll_rule (P := fun dev past => Measuring dev₀ dev past) ?_ desk keys h
  intro desk key past h
  rw [h.layered.close_parts]
  exact h.closed hw (close_spec desk key).1

/-- Every call keeps the invariant. -/
theorem call (hw : dev₀.WellNamed) (desk : Desk) (c : Call)
    (hc : ∀ k ts v now, c = .value k ts v now → dev₀.Measured k)
    (h : Measuring dev₀ desk.dev past) :
    Measuring dev₀ (desk.call c).1.dev (past ++ parts (desk.call c).2) := by
  cases c with
  | value k ts v now =>
    have hk := hc k ts v now rfl
    show Measuring dev₀ (desk.offerValue k ts v now).1.dev
      (past ++ parts (desk.offerValue k ts v now).2)
    cases hsample : (desk.dev.plan k).groupBy.isSample with
    | true =>
      obtain ⟨hq, hout⟩ := offerValue_sample desk ts v now hsample
      rw [hout, parts_nil, List.append_nil]
      refine h.quiet hq ?_
      intro j hj
      unfold offerValue at *
      dsimp only at *
      split
      · exact h.idle_update hk _ hj
      · rename_i hne
        cases hg : (desk.dev.plan k).groupBy with
        | sample every => exact absurd hg (hne every)
        | time => simp [hg, GroupBy.isSample] at hsample
        | frame window => simp [hg, GroupBy.isSample] at hsample
    | false =>
      rw [offerValue_add desk ts v now hsample]
      rw [h.fixed.plan] at hsample
      exact h.added hw hk hsample (add_effect desk h.layered k ts v now)
  | nothing k quality now =>
    obtain ⟨hq, hout⟩ := offerNone_quiet desk k quality now
    show Measuring dev₀ (desk.offerNone k quality now).1.dev
      (past ++ parts (desk.offerNone k quality now).2)
    rw [hout, parts_nil, List.append_nil]
    refine h.quiet hq ?_
    intro j hj
    unfold offerNone
    split
    · -- holding nothing leaves an idle slot idle
      by_cases hjk : j = k
      · subst hjk
        show (Function.update desk.dev.slots j _ j).Idle
        rw [Function.update_self]
        exact (h.idle j hj).hold_none now
      · show (Function.update desk.dev.slots k _ j).Idle
        rw [Function.update_of_ne hjk]
        exact h.idle j hj
    · exact h.idle j hj
  | endOfPass iter => exact closeAll hw desk _ h
  | flushAll iter => exact closeAll hw desk _ h
  -- windows that have ended are closed before the samplers run
  | due iter now wall =>
    simp only [Desk.call, due, parts_append]
    rw [← List.append_assoc]
    have hclosed := closeAll hw desk
      ((((iter.apply desk.dev.openMsgs.keys).filterMap (endedAt desk.dev now)).mergeSort
        fun a b => a.1 < b.1 || (a.1 == b.1 && a.2.1 ≤ b.2.1)).map Prod.snd) h
    generalize desk.closeAll _ = closed at hclosed ⊢
    obtain ⟨hq, hidle, hsampled⟩ := exec_runSampler now wall closed.1
      (List.range closed.1.dev.samplers.length)
    exact (hclosed.quiet hq (hidle _ hclosed.idle)).more (hclosed.samples_named hw hsampled)
  | setStale stale now =>
    have hq : Quiet desk.dev (desk.setStale stale now).1.dev :=
      ⟨⟨rfl, rfl, SameTopics.refl _⟩, rfl, rfl, rfl⟩
    show Measuring dev₀ (desk.setStale stale now).1.dev (past ++ [])
    rw [List.append_nil]
    refine h.quiet hq ?_
    intro j hj
    unfold setStale
    dsimp only
    split
    · dsimp only
      split
      · exact h.idle j hj
      · exact (h.idle j hj).hold_none now
    · exact h.idle j hj

end Measuring

/-! ## The names of a built table -/

section Built

variable {config : ConnectorConfig} {device : DeviceConfig} {dev : DeviceTable}
  {point : PointConfig} {k : Nat}

theorem plan_names (hof : dev.Of config device) (hpoint : device.points[k]? = some point)
    (hne : ∀ suffixed, aggregatesOf (batchTable config device point) ≠ some ([], suffixed)) :
    (dev.plan k).names = (namesOf config device point).map fun n => quoted n ++ ":" := by
  have hplan := hof.plan k point hpoint
  unfold PointPlan.names namesOf
  rw [hplan.aggregates]
  cases haggregated : aggregatedOf config device point with
  | none =>
    rw [seriesNames_plain haggregated, hplan.seriesKey]
    rfl
  | some p =>
    obtain ⟨aggs, suffixed⟩ := p
    rw [seriesNames_aggregated haggregated]
    rw [aggregatedOf_eq, Option.ite_none_right_eq_some] at haggregated
    cases aggs with
    | nil => exact absurd haggregated.2 (hne suffixed)
    | cons a aggs =>
      simp only [List.map_cons, List.filterMap_cons, List.map_map, List.filterMap_map]
      simp [Function.comp_def]

theorem located_point (hof : dev.Of config device) (hk : dev.Located k) :
    ∃ point, device.points[k]? = some point := by
  obtain ⟨id, hid⟩ := hk
  obtain ⟨point, hpoint, -⟩ := hof.index.get id k hid
  exact ⟨point, hpoint⟩

theorem quoted_colon_injective : Function.Injective fun n => quoted n ++ ":" := by
  intro m n h
  apply quoted_injective
  apply String.toList_injective
  have hlist := congrArg String.toList h
  simpa [String.toList_append] using hlist

theorem measured_point (hof : dev.Of config device) (hk : dev.Measured k) :
    ∃ point, device.points[k]? = some point ∧ measurable point device = true := by
  obtain ⟨point, hpoint⟩ := located_point hof hk.located
  refine ⟨point, hpoint, ?_⟩
  rw [← (hof.plan k point hpoint).measurable]
  exact hk.measurable

end Built

/-- What the loader accepted, with measurement output. -/
structure Loaded (config : ConnectorConfig) : Prop where
  output : Output.of config = .measurements
  resolved : checkResolvedBatches config = .ok ()
  points : ∀ device ∈ config.devices, ∀ point ∈ device.points,
    ∃ connector deviceTable libraries inline resolved groupBy,
      Accepted connector deviceTable libraries inline config device point resolved groupBy

/-- Two points of a device that are published as one series: measurable points without aggregates
with the same group, series and grouping policy. -/
structure SameSeries (config : ConnectorConfig) (device : DeviceConfig) (a b : PointConfig) :
    Prop where
  measurable : measurable a device ∧ measurable b device
  plain : aggregatedOf config device a = none ∧ aggregatedOf config device b = none
  group : groupOf config a = groupOf config b
  series : seriesOf config a = seriesOf config b
  groupBy : groupByOf config device a = groupByOf config device b

/-- The points at two places of a device share a series. -/
def SharedAt (config : ConnectorConfig) (d i j : Nat) : Prop :=
  i ≠ j ∧ ∃ device a b, config.devices[d]? = some device ∧ device.points[i]? = some a ∧
    device.points[j]? = some b ∧ SameSeries config device a b

namespace Loaded

variable {config : ConnectorConfig} {device : DeviceConfig} {dev : DeviceTable}

theorem aggregates_ne_nil (h : Loaded config) (hdevice : device ∈ config.devices)
    {point : PointConfig} (hpoint : point ∈ device.points) :
    ∀ suffixed, aggregatesOf (batchTable config device point) ≠ some ([], suffixed) := by
  obtain ⟨_, _, _, _, _, _, haccepted⟩ := h.points device hdevice point hpoint
  exact haccepted.aggregates_ne_nil

/-- The tables of a loaded configuration name their points apart. -/
theorem wellNamed (h : Loaded config) (hdevice : device ∈ config.devices)
    (hof : dev.Of config device) : dev.WellNamed where
  plain k hsample := by
    rcases Nat.lt_or_ge k device.points.length with hk | hk
    · have hpoint := List.getElem?_eq_getElem hk
      have hplan := hof.plan k _ hpoint
      rw [hplan.groupBy] at hsample
      have hplain : aggregatedOf config device device.points[k] = none := by
        rw [aggregatedOf_eq, hsample]
        rfl
      unfold PointPlan.names
      rw [hplan.aggregates, seriesNames_plain hplain]
      rfl
    · have hnone : dev.points[k]? = none := List.getElem?_eq_none (by rw [hof.length]; exact hk)
      have hplan : dev.plan k = default := by
        simp [DeviceTable.plan, List.getD_eq_getElem?_getD, hnone]
      rw [hplan]
      rfl
  nodup k hk := by
    obtain ⟨point, hpoint, hmeasurable⟩ := measured_point hof hk
    have hmem := List.mem_of_getElem? hpoint
    obtain ⟨names, hchecked⟩ := checked_names h.resolved h.output hdevice
    rw [plan_names hof hpoint (h.aggregates_ne_nil hdevice hmem)]
    exact (hchecked.nodup point hmem hmeasurable).map quoted_colon_injective

/-- Two points that share a series were configured to. -/
theorem sameSeries (h : Loaded config) {d : Nat} (hd : config.devices[d]? = some device)
    (hof : dev.Of config device) {i j : Nat} (hi : dev.Measured i) (hj : dev.Measured j)
    (hne : i ≠ j) (hkey : dev.keyOf i = dev.keyOf j) {name : String}
    (hni : name ∈ (dev.plan i).names) (hnj : name ∈ (dev.plan j).names) : SharedAt config d i j := by
  have hdevice := List.mem_of_getElem? hd
  obtain ⟨a, ha, hma⟩ := measured_point hof hi
  obtain ⟨b, hb, hmb⟩ := measured_point hof hj
  have hmema := List.mem_of_getElem? ha
  have hmemb := List.mem_of_getElem? hb
  -- one topic is one group
  have hgroup : groupOf config a = groupOf config b := by
    apply quoted_injective
    rw [← (hof.topic ha).json, ← (hof.topic hb).json, hkey]
  have hgroupBy : groupByOf config device a = groupByOf config device b := by
    rw [← (hof.plan i a ha).groupBy, ← (hof.plan j b hb).groupBy]
    exact congrArg Prod.snd hkey
  -- and one key is one name
  rw [plan_names hof ha (h.aggregates_ne_nil hdevice hmema)] at hni
  rw [plan_names hof hb (h.aggregates_ne_nil hdevice hmemb)] at hnj
  obtain ⟨n, hna, rfl⟩ := List.mem_map.mp hni
  obtain ⟨m, hmb', hmn⟩ := List.mem_map.mp hnj
  obtain rfl := quoted_colon_injective hmn
  obtain ⟨names, hchecked⟩ := checked_names h.resolved h.output hdevice
  have hpairs := List.pairwise_iff_getElem.mp hchecked.apart
  obtain ⟨hilt, hia⟩ := List.getElem?_eq_some_iff.mp ha
  obtain ⟨hjlt, hjb⟩ := List.getElem?_eq_some_iff.mp hb
  have hplain : aggregatedOf config device a = none ∧ aggregatedOf config device b = none := by
    rcases lt_or_gt_of_ne hne with hlt | hgt
    · have happly := hpairs i j hilt hjlt hlt
      rw [hia, hjb] at happly
      exact happly hma hmb hgroup m hna hmb'
    · have happly := hpairs j i hjlt hilt hgt
      rw [hia, hjb] at happly
      exact (happly hmb hma hgroup.symm m hmb' hna).symm
  refine ⟨hne, device, a, b, hd, ha, hb, ⟨hma, hmb⟩, hplain, hgroup, ?_, hgroupBy⟩
  unfold namesOf at hna hmb'
  rw [seriesNames_plain hplain.1] at hna
  rw [seriesNames_plain hplain.2] at hmb'
  simp only [List.map_cons, List.map_nil, List.mem_singleton] at hna hmb'
  rw [← hna, ← hmb']

end Loaded

/-! ## In every run -/

/-- The series of what a call puts out. -/
def Emission.entries : Emission → List Entry
  | .units _ => []
  | .series _ _ _ entries _ => entries

theorem part_of_emission {d : Nat} {out : List (Nat × Emission)} {x : Nat × Emission}
    (hx : x ∈ out) (hd : x.1 = d) (hne : x.2.entries ≠ []) :
    ∃ p ∈ Batcher.partsOf d out, p.entries = x.2.entries := by
  obtain ⟨d', e⟩ := x
  cases e with
  | units topic => exact absurd rfl hne
  | series topic key time entries ends =>
    refine ⟨{ topic := topic.topic, key, time, entries, ends }, ?_, rfl⟩
    unfold Batcher.partsOf parts
    refine List.mem_filterMap.mpr ⟨.series topic key time entries ends, ?_, rfl⟩
    refine List.mem_map.mpr ⟨(d', .series topic key time entries ends), ?_, rfl⟩
    exact List.mem_filter.mpr ⟨hx, by simpa using hd⟩

variable [Ryu]

omit [Ryu] in
/-- Only measurable points are offered. -/
theorem offered_measurable (b : Batcher) (op : Op) :
    Batcher.OpMeets (fun dev c => ∀ k ts v now, c = .value k ts v now →
      (dev.plan k).measurable = true) b op := by
  intro c hc dev hdev k ts v now hvalue
  cases op with
  | offer sample at' =>
    simp only [Batcher.calls] at hc
    cases hlocate : b.locate sample.device sample.point with
    | none => simp [hlocate] at hc
    | some dk =>
      obtain ⟨d, k'⟩ := dk
      simp only [hlocate] at hc
      cases hseries : b.seriesValue
          ((b.devices[d]?.map fun dev => dev.plan k').getD default) sample with
      | none =>
        simp only [hseries, List.mem_singleton] at hc
        subst hc
        cases hvalue
      | some w =>
        simp only [hseries, List.mem_singleton] at hc
        subst hc
        obtain ⟨rfl, -, -, -⟩ : k' = k ∧ sample.ts = ts ∧ w = v ∧ at' = now := by
          simpa using hvalue
        rw [hdev] at hseries
        unfold Batcher.seriesValue at hseries
        split at hseries
        · cases hseries
        · rename_i hnot
          simp only [Option.map_some, Option.getD_some, Bool.or_eq_true, not_or] at hnot
          simpa using hnot.1.1
  | endOfPass iter =>
    obtain ⟨d, -, rfl⟩ := List.mem_map.mp hc
    cases hvalue
  | flushAll iter =>
    obtain ⟨d, -, rfl⟩ := List.mem_map.mp hc
    cases hvalue
  | due iter at' wall =>
    obtain ⟨d, -, rfl⟩ := List.mem_map.mp hc
    cases hvalue
  | setStale device stale at' =>
    simp only [Batcher.calls] at hc
    cases hname : b.byName device with
    | none => simp [hname] at hc
    | some d =>
      simp only [hname, List.mem_singleton] at hc
      subst hc
      cases hvalue

/-- **No other keys are equal.** In every run of a batcher of an accepted configuration with
measurement output, two series of one message have one key only when they are of two points
without aggregates that the configuration gives the same device, group, series and grouping
policy. -/
theorem keys_distinct {config : ConnectorConfig} (h : Loaded config) (now : Nat)
    (previous : Option Batcher) (ops : List Op) :
    ∀ x ∈ (log step (Batcher.new config now previous) ops).flatMap fun e => e.2.emissions,
      x.2.entries.Pairwise fun e f => e.key = f.key → SharedAt config x.1 e.point f.point := by
  intro x hx
  by_cases hne : x.2.entries = []
  · rw [hne]
    exact List.Pairwise.nil
  have hlt : x.1 < (Batcher.new config now previous).devices.length := by
    apply emissions_device _ ((ops.flatMap (Batcher.new config now previous).calls))
    rw [Batcher.run_eq_calls]
    exact hx
  have hdev₀ := List.getElem?_eq_getElem hlt
  obtain ⟨device, hdevice, hbuilt⟩ := built_batcher config now previous hdev₀
  have hmem := List.mem_of_getElem? hdevice
  have hof := built_deviceTable config device now
  have hw := h.wellNamed hmem hof
  obtain ⟨dev, hdev⟩ : ∃ dev, (final step (Batcher.new config now previous) ops).devices[x.1]? =
      some dev := by
    rw [← Batcher.layout_length (Batcher.layout_final (Batcher.new config now previous) ops)] at hlt
    exact ⟨_, List.getElem?_eq_getElem hlt⟩
  -- what the device published in the run is named
  have hrun := Batcher.device_history
    (P := fun dev _ past => Measuring (DeviceTable.new config device now) dev past)
    (C := fun dev c => ∀ k ts v now, c = .value k ts v now → (dev.plan k).measurable = true)
    (by rintro dev c hoffered k ts v now rfl; cases hoffered)
    (fun desk c ins past hlocated hc hP => ?_)
    (allSteps_of_forall offered_measurable (Batcher.new config now previous) ops)
    (fun dev hd => ?_) hdev
  · obtain ⟨p, hp, hentries⟩ := part_of_emission hx rfl hne
    have hnamed := hrun.past p hp
    rw [← hentries]
    have hdistinct := List.pairwise_map.mp hnamed.nodup
    refine hdistinct.imp_of_mem ?_
    intro e f he hf hpair hkey
    have hpoint : e.point ≠ f.point := fun heq => hpair (Prod.ext heq hkey)
    have hsame : (DeviceTable.new config device now).keyOf e.point =
        (DeviceTable.new config device now).keyOf f.point := by
      rw [hnamed.keyOf e he, hnamed.keyOf f hf]
    have hnf := hnamed.named f hf
    rw [← hkey] at hnf
    exact h.sameSeries hdevice hof (hnamed.measured e he) (hnamed.measured f hf) hpoint hsame
      (hnamed.named e he) hnf
  · refine hP.call hw desk c ?_
    rintro k ts v at' rfl
    obtain ⟨id, hid⟩ := hlocated
    refine ⟨⟨id, ?_⟩, ?_⟩
    · rw [← hP.fixed.index, hid]
    · rw [← hP.fixed.plan]
      exact hc k ts v at' rfl
  · obtain rfl : dev = DeviceTable.new config device now := by
      rw [hdev₀] at hd
      rw [← Option.some.inj hd, hbuilt]
    exact ⟨Fixed.refl _, Layered.empty rfl fun _ => rfl, fun _ _ => Slot.Idle.new now,
      fun _ hk => absurd hk (lt_irrefl 0), by simp⟩

/-! Two points that are published as one series. -/

def tempPoint : Toml := .table [("id", .string "temp")]

def speedPoint : Toml := .table [("id", .string "speed")]

/-- A connector that names every series `value`. -/
def valueConfig : ConnectorConfig :=
  { protocol := "modbus"
    output := some "measurements"
    measurement := some (.object [("series", .string "value")])
    devices := [{ name := "plc", points := [{ id := "temp" }, { id := "speed" }] }] }

omit [Ryu] in
/-- The example's points pass the checks of a configuration. -/
theorem accepted_valueConfig {device : DeviceConfig} {point : PointConfig}
    (hdevice : device ∈ valueConfig.devices) (hpoint : point ∈ device.points) :
    ∃ resolved, Accepted (.table []) (.table []) [] [tempPoint, speedPoint] valueConfig device point
      resolved .time := by
  have hwellFormed : ∀ t ∈ ([.table [], .table [], tempPoint, speedPoint] : List Toml),
      t.WellFormed := by
    simp [tempPoint, speedPoint, Toml.WellFormed, Toml.EntriesWellFormed]
    decide
  have hchecked : ∀ t ∈ ([.table [], .table [], tempPoint, speedPoint] : List Toml),
      checkBatch t = .ok () := by
    simp only [List.forall_mem_cons]
    exact ⟨rfl, rfl, rfl, rfl, by simp⟩
  have hresolved : checkResolvedBatches valueConfig = .ok () := by decide +kernel
  have hplc := List.mem_singleton.mp hdevice
  subst hplc
  simp only [List.mem_cons, List.not_mem_nil, or_false] at hpoint
  rcases hpoint with rfl | rfl
  · exact ⟨tempPoint, hwellFormed, hchecked, rfl, rfl, rfl, by simp [Library.resolvedPoints], rfl,
      List.mem_singleton.mpr rfl, by simp, hresolved, rfl⟩
  · exact ⟨speedPoint, hwellFormed, hchecked, rfl, rfl, rfl, by simp [Library.resolvedPoints], rfl,
      List.mem_singleton.mpr rfl, by simp, hresolved, rfl⟩

omit [Ryu] in
theorem loaded_valueConfig : Loaded valueConfig where
  output := rfl
  resolved := by decide +kernel
  points device hdevice point hpoint := by
    obtain ⟨resolved, h⟩ := accepted_valueConfig hdevice hpoint
    exact ⟨_, _, _, _, resolved, _, h⟩

def valueOps : List Op :=
  [.offer ⟨"plc", "temp", 0, .typed, .good, some (.number 21.0)⟩ 0,
    .offer ⟨"plc", "speed", 0, .typed, .good, some (.number 3.0)⟩ 0,
    .endOfPass fun _ => keepOrder]

omit [Ryu] in
/-- Two points of one device. -/
theorem keys_distinct_value :
    letI := plainRyu
    Loaded valueConfig ∧
      ∀ x ∈ (log step (Batcher.new valueConfig 0 none) valueOps).flatMap fun e => e.2.emissions,
        x.2.entries.Pairwise fun e f => e.key = f.key → SharedAt valueConfig x.1 e.point f.point :=
  letI := plainRyu
  ⟨loaded_valueConfig, keys_distinct loaded_valueConfig 0 none valueOps⟩

omit [Ryu] in
/-- The pass goes out as one message that holds the key twice. -/
theorem value_overwritten :
    letI := plainRyu
    Loaded valueConfig ∧
      ¬ ∀ x ∈ (log step (Batcher.new valueConfig 0 none) valueOps).flatMap fun e => e.2.emissions,
        (x.2.entries.map Entry.key).Nodup :=
  letI := plainRyu
  ⟨loaded_valueConfig, by decide +kernel⟩

end TedgeDot.Measure
