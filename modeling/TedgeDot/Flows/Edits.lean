import TedgeDot.Flows.CommandForward
import TedgeDot.Flows.Fragments
import TedgeDot.Flows.Sources

/-!
# Edits of a fragment

An operator edits a fragment of the twin. `ot-command-forward` turns the edit into one `write-batch`
by the table of owners, and the batch's result comes back through `ot-parameter-state`.

## Main definitions

- `Asks`: the requests for an edit of a set, in the form of Cumulocity or directly.
- `Delivered`: the batch that is published goes to a connector that lists the points, and writes to
  each edited key's point the requested value.

## Main result

- `edit_reaches`: an edit is delivered, and every fragment that shows one of its points shows the
  requested value after the result.
-/

namespace TedgeDot.Flows.Edits

open TedgeDot.Machine ParameterState

/-! ## What a result gives -/

section Results

variable (stringify : Json → String)

variable {isOpen : String → Prop} {w : Work} {point other set set' key : String}

/-- What a point shows once its value is applied: that value, or in another set what it showed. -/
theorem applyValue_shows_self (h : Tables isOpen w.device) (hpoint : point ≠ "")
    (hclosed : ¬ isOpen point) (hset : ColonFree set) (value : Json) {x : Json}
    (hshows : Shows (applyValue stringify point (keyOf w.device point) value w set).device
      set' point key x) :
    (set' ≠ set ∧ Shows w.device set' point key x) ∨ stringify x = stringify value := by
  have hafter := (h.appliedValue stringify hpoint hclosed hset value).1
  have hkeys := applyValue_key stringify point (keyOf w.device point) value w set
  obtain ⟨hclaim, hvalue⟩ := hshows
  by_cases hs : set' = set
  · subst hs
    right
    obtain rfl : key = keyOf w.device point := by
      have hkeyed := hafter.keyed point _ hclosed hclaim
      rwa [keyOf, hkeys] at hkeyed
    have hplain : keyOf w.device point ≠ "__proto__" := by
      intro hproto
      have hnone := hafter.plain set'
      rw [hproto] at hvalue
      simp [JsonMap.containsKey, hproto, hvalue] at hnone
    have howned := (hafter.owned set' _ point hset).2 hclaim
    rcases applyValue_cases stringify point (keyOf w.device point) value w set' with
      ⟨hno, heq⟩ | ⟨-, ⟨hsame, heq⟩ | heq⟩
    · -- its owner is not refused
      rw [heq] at howned
      rw [claim_of_owner howned] at hno
      cases hno
    · rw [heq] at hvalue
      have hget : (w.device.values set').get (keyOf w.device point) = some x := by
        simpa using hvalue
      simpa [property, hget] using hsame
    · rw [heq] at hvalue
      obtain rfl : value = x := by simpa [get_setMember, hplain] using hvalue
      rfl
  · left
    rw [applyValue_values_other stringify point _ value w hs] at hvalue
    have hne : (set', key) ≠ (set, keyOf w.device point) := fun heq => hs (Prod.mk.inj heq).1
    exact ⟨hs, (mem_applyValue_claims stringify hclaim).resolve_right hne, hvalue⟩

/-- Other points show what they did, the point itself the new value. -/
theorem appliedSets_shows (h : Tables isOpen w.device) (hpoint : point ≠ "")
    (hclosed : ¬ isOpen point) {sets : List String} (hsets : ∀ set ∈ sets, ColonFree set)
    {own : String} (hkey : keyOf w.device point = own) (value : Json) {other set key : String}
    {x : Json} (hshows : Shows (sets.foldl (applyValue stringify point own value) w).device
      set other key x) :
    (Shows w.device set other key x ∧ (other = point → set ∉ sets)) ∨
      (other = point ∧ stringify x = stringify value) := by
  induction sets generalizing w with
  | nil => exact Or.inl ⟨hshows, fun _ => List.not_mem_nil⟩
  | cons first sets ih =>
    obtain ⟨hfirst, hsets⟩ := List.forall_mem_cons.1 hsets
    subst hkey
    have hafter := (h.appliedValue stringify hpoint hclosed hfirst value).1
    have hkeys : keyOf (applyValue stringify point (keyOf w.device point) value w first).device
        point = keyOf w.device point := by
      rw [keyOf, applyValue_key]
      rfl
    rcases ih hafter hsets hkeys hshows with ⟨hmid, hlater⟩ | hdone
    · by_cases hother : other = point
      · subst hother
        rcases applyValue_shows_self stringify h hpoint hclosed hfirst value hmid with
          ⟨hne, hbefore⟩ | hdone
        · exact Or.inl ⟨hbefore, fun _ => by simpa using ⟨hne, hlater rfl⟩⟩
        · exact Or.inr ⟨rfl, hdone⟩
      · have hleaves := applyValue_leaves stringify h hpoint hclosed hfirst value
        exact Or.inl ⟨(hleaves.shows hother).1 hmid, fun heq => absurd heq hother⟩
    · exact Or.inr hdone

theorem applyUpdate_shows (h : Tables isOpen w.device)
    {resolveSets : String → Option (List String)}
    (hsets : ∀ point sets, resolveSets point = some sets → ∀ set ∈ sets, ColonFree set)
    {m : String × Json} (hpoint : m.1 ≠ "") (hclosed : ¬ isOpen m.1) {other set key : String}
    {x : Json} (hshows : Shows (applyUpdate stringify resolveSets w m).device set other key x) :
    (Shows w.device set other key x ∧ (other = m.1 → set ∉ (resolveSets m.1).getD [])) ∨
      (other = m.1 ∧ stringify x = stringify m.2) := by
  unfold applyUpdate at hshows
  split at hshows
  · next sets hresolved =>
    have hboth := appliedSets_shows stringify h hpoint hclosed (hsets m.1 sets hresolved) rfl m.2
      hshows
    simpa [hresolved] using hboth
  · next hnone => exact Or.inl ⟨hshows, fun _ => by simp [hnone]⟩

/-- A member of the batch decides what its own point shows. -/
theorem appliedValues_shows {updates : JsonMap} (hdistinct : (Members.keys updates).Nodup)
    (hpoints : ∀ m ∈ updates, m.1 ≠ "" ∧ ¬ isOpen m.1)
    {resolveSets : String → Option (List String)}
    (hsets : ∀ point sets, resolveSets point = some sets → ∀ set ∈ sets, ColonFree set)
    (h : Tables isOpen w.device) {m : String × Json} (hm : m ∈ updates) {set key : String} {x : Json}
    (hshows : Shows (applyValues stringify updates resolveSets w).device set m.1 key x) :
    (Shows w.device set m.1 key x ∧ set ∉ (resolveSets m.1).getD []) ∨
      stringify x = stringify m.2 := by
  have hstep : ∀ w : Work, Tables isOpen w.device → ∀ m ∈ updates,
      Tables isOpen (applyUpdate stringify resolveSets w m).device := by
    intro w hw m hm
    have hone : applyUpdate stringify resolveSets w m =
        applyValues stringify [m] resolveSets w := by
      cases harray : arrayIndex m.1 <;> simp [applyValues, ownOrder, harray]
    rw [hone]
    exact (hw.appliedValues stringify (by simpa using hpoints m hm) hsets).1
  have hperm : (ownOrder updates).Perm updates := ownOrder_perm updates
  have hnodup : (Members.keys (ownOrder updates)).Nodup :=
    ((hperm.map Prod.fst).nodup_iff).2 hdistinct
  unfold applyValues at hshows
  have hall : ∀ m ∈ ownOrder updates, m ∈ updates := fun m hm => mem_ownOrder.1 hm
  replace hm := mem_ownOrder.2 hm
  generalize ownOrder updates = list at hshows hall hnodup hm
  -- what is done for other points afterwards does not matter
  have hothers : ∀ (list : JsonMap), (∀ m ∈ list, m ∈ updates) → m.1 ∉ Members.keys list →
      ∀ w : Work, Tables isOpen w.device →
      Shows (list.foldl (applyUpdate stringify resolveSets) w).device set m.1 key x →
      Shows w.device set m.1 key x := by
    intro list
    induction list with
    | nil => exact fun _ _ w _ hshows => hshows
    | cons first list ih =>
      intro hall hnot w hw hshows
      obtain ⟨hfirst, hall⟩ := List.forall_mem_cons.1 hall
      have hne : m.1 ≠ first.1 ∧ m.1 ∉ Members.keys list := by simpa using hnot
      have hmid := ih hall hne.2 _ (hstep w hw first hfirst) hshows
      obtain ⟨hpoint, hclosed⟩ := hpoints first hfirst
      rcases applyUpdate_shows stringify hw hsets hpoint hclosed hmid with hbefore | hdone
      · exact hbefore.1
      · exact absurd hdone.1 hne.1
  induction list generalizing w with
  | nil => cases hm
  | cons first list ih =>
    obtain ⟨hfirst, hrest⟩ := List.forall_mem_cons.1 hall
    rw [Members.keys_cons, List.nodup_cons] at hnodup
    have hafter := hstep w h first hfirst
    obtain ⟨hpoint, hclosed⟩ := hpoints first hfirst
    rcases List.mem_cons.1 hm with rfl | hlater
    · have hmid := hothers list hrest hnodup.1 _ hafter hshows
      rcases applyUpdate_shows stringify h hsets hpoint hclosed hmid with hbefore | hdone
      · exact Or.inl ⟨hbefore.1, hbefore.2 rfl⟩
      · exact Or.inr hdone.2
    · have hne : m.1 ≠ first.1 := by
        intro heq
        exact hnodup.1 (heq ▸ Members.mem_keys_of_mem hlater)
      rcases ih hafter hshows hrest hnodup.2 hlater with ⟨hmid, hnot⟩ | hdone
      · rcases applyUpdate_shows stringify h hsets hpoint hclosed hmid with hbefore | hdone
        · exact Or.inl ⟨hbefore.1, hnot⟩
        · exact absurd hdone.1 hne
      · exact Or.inr hdone

end Results

/-! ## The result of a batch -/

/-- What a connector reports of one write. -/
def resultObject (write : String × Json) : Json :=
  .object [("point", .string write.1), ("status", .string "successful"), ("value", write.2)]

/-- The successful result of a batch, with the origin it echoes. -/
def batchResult (origin : JsonMap) (writes : List (String × Json)) : Json :=
  .object [("status", .string "successful"), ("results", .array (writes.map resultObject)),
    ("origin", .object origin)]

/-- The values of a result; `__proto__` never becomes a member. -/
def reported (writes : List (String × Json)) : JsonMap := writes.filter fun w => w.1 != "__proto__"

theorem setMember_new {updates : JsonMap} {key : String} (hnew : key ∉ Members.keys updates)
    (hplain : key ≠ "__proto__") (value : Json) :
    setMember updates key value = updates ++ [(key, value)] := by
  rw [setMember, if_neg hplain]
  induction updates with
  | nil => rfl
  | cons m rest ih =>
    have hne : key ≠ m.1 ∧ key ∉ Members.keys rest := by simpa using hnew
    rw [Members.set, if_neg (Ne.symm hne.1), ih hne.2, List.cons_append]

variable {writes : List (String × Json)} {set : String} {s : Device} {device : String}
  {payload : JsonMap} {edit : Edit}

theorem foldl_setMember {updates : JsonMap}
    (hdistinct : (Members.keys updates ++ Members.keys writes).Nodup) :
    writes.foldl (fun updates w => setMember updates w.1 w.2) updates = updates ++
      reported writes := by
  induction writes generalizing updates with
  | nil => simp [reported]
  | cons w writes ih =>
    have hnew : w.1 ∉ Members.keys updates := by
      intro hold
      exact (List.disjoint_of_nodup_append hdistinct) hold (by simp)
    rw [List.foldl_cons]
    by_cases hproto : w.1 = "__proto__"
    · have hrest : (Members.keys updates ++ Members.keys writes).Nodup :=
        hdistinct.sublist (List.Sublist.append_left (List.sublist_cons_self _ _) _)
      rw [setMember, if_pos hproto, ih hrest]
      simp [reported, hproto]
    · rw [setMember_new hnew hproto, ih (by simpa using hdistinct)]
      simp [reported, hproto]

theorem writtenValues_batchResult (hdistinct : (Members.keys writes).Nodup) (origin : JsonMap) :
    writtenValues "write-batch" (batchResult origin writes) = some (reported writes) := by
  have hresults : ((batchResult origin writes).get "results").filter (fun v => !v.isNull) =
      some (.array (writes.map resultObject)) := by
    simp [batchResult, Json.get, JsonMap.get, Json.isNull, Option.filter]
  unfold writtenValues
  rw [if_neg (by decide), if_pos rfl, hresults]
  dsimp only
  rw [List.foldl_map]
  exact congrArg some (foldl_setMember (by simpa using hdistinct))

theorem writtenPoints_batchResult (hpoints : ∀ w ∈ writes, w.1 ≠ "") (origin : JsonMap) :
    writtenPoints "write-batch" (batchResult origin writes) = some (writes.map Prod.fst) := by
  have hnames : (writes.map resultObject).filterMap (fun w => textOf w "point") =
      writes.map Prod.fst := by
    rw [List.filterMap_map, ← List.filterMap_eq_map]
    apply List.filterMap_congr
    intro w hw
    simp [resultObject, textOf, Json.get, JsonMap.get, Json.asStr, Option.filter, hpoints w hw]
  simpa [writtenPoints, batchResult, Json.get, JsonMap.get, Json.isNull, orElse, Option.filter]
    using hnames

theorem placed_recordSets (points : List String) (set : String) (s : Device) (point : String) :
    (recordSets points set s).placed point =
      if point ∈ points ∧ s.placed point = none then some (some [set]) else s.placed point := by
  unfold recordSets
  induction points generalizing s with
  | nil => simp
  | cons first points ih =>
    rw [List.foldl_cons, ih]
    by_cases hfirst : first = point
    · subst hfirst
      by_cases hnone : s.placed first = none
      · simp [hnone]
      · simp [hnone]
    · by_cases hnone : s.placed first = none
      · simp [hnone, Ne.symm hfirst]
      · simp [hnone, Ne.symm hfirst]

/-- The sets of the device a result of a batch for a set writes a point's value to. -/
def reached (cfg : Config) (s : Device) (protocol set point : String) : List String :=
  (writtenSets (naming cfg.defaultSet s.deviceType protocol) protocol
    (if isValidSet set then recordSets [point] set s else s) point).getD []

/-- The store in which a result's values are applied. -/
def beforeValues (s : Device) (protocol set : String) (points : List String) : Device :=
  if isValidSet set then recordSets points set { s with protocol := some protocol }
  else { s with protocol := some protocol }

/-- The result of the batch applies the values that it reports written. -/
theorem step_result (cfg : Config) (device : String) (s : Device) (protocol : String)
    {origin : JsonMap} (horigin : JsonMap.get origin "set" = some (.string set))
    (hdistinct : (Members.keys writes).Nodup) (hpoints : ∀ w ∈ writes, w.1 ≠ "") :
    (step cfg device s (.message protocol "cmd" "write-batch" (batchResult origin writes))).1 =
      (applyValues cfg.stringify (reported writes)
        (writtenSets (naming cfg.defaultSet s.deviceType protocol) protocol
          (beforeValues s protocol set (writes.map Prod.fst)))
        (beforeValues s protocol set (writes.map Prod.fst)).work).device := by
  have hset : originSet (batchResult origin writes) =
      if isValidSet set = true then some set else none := by
    have hget : (Json.object origin).get "set" = some (.string set) := horigin
    have hmember : (batchResult origin writes).get "origin" = some (.object origin) := by
      simp [batchResult, Json.get, JsonMap.get]
    simp only [originSet, hmember, Option.bind_some, hget, Json.asStr, Option.filter]
  have hstatus : ((batchResult origin writes).get "status").bind Json.asStr = some "successful" := by
    simp [batchResult, Json.get, JsonMap.get, Json.asStr]
  have hmessage : recordMessage s protocol "cmd" (batchResult origin writes) =
      { s with protocol := some protocol } := by
    simp [recordMessage, recordType]
  -- the set of the origin is recorded, then the values the batch wrote
  have hcommand : ∀ s' : Device, onCommand cfg.stringify (naming cfg.defaultSet s.deviceType protocol)
      protocol "write-batch" (batchResult origin writes) s' =
      applyValues cfg.stringify (reported writes)
        (writtenSets (naming cfg.defaultSet s.deviceType protocol) protocol
          (if isValidSet set then recordSets (writes.map Prod.fst) set s' else s'))
        (if isValidSet set then recordSets (writes.map Prod.fst) set s' else s').work := by
    intro s'
    unfold onCommand
    rw [hset]
    by_cases hvalid : isValidSet set = true
    · simp [hvalid, writtenPoints_batchResult hpoints, hstatus, writtenValues_batchResult hdistinct]
    · simp [hvalid, hstatus, writtenValues_batchResult hdistinct, recordSets]
  show (onTopic cfg s protocol "cmd" "write-batch" (batchResult origin writes)).device = _
  have hobject : isObject (batchResult origin writes) = true := rfl
  unfold onTopic
  rw [if_pos hobject, hmessage]
  dsimp only
  rw [if_neg (by decide), if_neg (by decide), if_pos rfl, hcommand]
  rfl

theorem beforeValues_shows (s : Device) (protocol set : String) (points : List String)
    {set' point key : String} {x : Json} :
    Shows (beforeValues s protocol set points) set' point key x ↔ Shows s set' point key x := by
  have hrecords : ∀ s' : Device, (recordSets points set s').claims = s'.claims ∧
      (recordSets points set s').values = s'.values := by
    unfold recordSets
    induction points with
    | nil => exact fun _ => ⟨rfl, rfl⟩
    | cons first points ih =>
      intro s'
      rw [List.foldl_cons]
      split
      · exact ih _
      · exact ih s'
  unfold Shows beforeValues
  split
  · rw [(hrecords _).1, (hrecords _).2]
  · rfl

theorem beforeValues_agree (h : Agree s) (protocol set : String) (points : List String) :
    Agree (beforeValues s protocol set points) := by
  have hfirst : Agree { s with protocol := some protocol } := h.of_records rfl rfl rfl rfl rfl rfl
  unfold beforeValues
  split
  · next hvalid => exact (hfirst.recordedPoints (Or.inr (colonFree_of_valid hvalid))).1
  · exact hfirst

theorem writtenSets_beforeValues (cfg : Config) (s : Device) (protocol set : String)
    {points : List String} {point : String} (hpoint : point ∈ points) :
    (writtenSets (naming cfg.defaultSet s.deviceType protocol) protocol
      (beforeValues s protocol set points) point).getD [] = reached cfg s protocol set point := by
  have hlisted : ∀ (points : List String) (s' : Device),
      (recordSets points set s').points = s'.points := fun points s' =>
    congrArg Sources.points (recordSets_points_sources points set s')
  unfold reached beforeValues writtenSets
  split
  · simp [placed_recordSets, hlisted, hpoint]
  · rfl

/-- After the result, every fragment that shows the point shows its value, where the fragments that
showed another were all reached. -/
theorem result_shows {cfg : Config} (h : Agree s) (hforced : ColonFree (trimC cfg.defaultSet))
    {protocol set : String} {origin : JsonMap}
    (horigin : JsonMap.get origin "set" = some (.string set))
    (hdistinct : (Members.keys writes).Nodup) (hpoints : ∀ w ∈ writes, w.1 ≠ "") {w : String × Json}
    (hw : w ∈ writes) (hplain : w.1 ≠ "__proto__")
    (hreached : ∀ set' key x, Shows s set' w.1 key x → set' ∈ reached cfg s protocol set w.1 ∨
      cfg.stringify x = cfg.stringify w.2)
    {set' key : String} {x : Json}
    (hshows : Shows (step cfg device s (.message protocol "cmd" "write-batch" (batchResult origin
      writes))).1 set' w.1 key x) :
    cfg.stringify x = cfg.stringify w.2 := by
  rw [step_result cfg device s protocol horigin hdistinct hpoints] at hshows
  have hagree := beforeValues_agree h protocol set (writes.map Prod.fst)
  have hsets : ∀ point sets, writtenSets (naming cfg.defaultSet s.deviceType protocol) protocol
      (beforeValues s protocol set (writes.map Prod.fst)) point = some sets →
      ∀ set ∈ sets, ColonFree set :=
    colonFree_writtenSets hagree
      (show ColonFree (naming cfg.defaultSet s.deviceType protocol).forced from hforced) protocol
  have hnodup : (Members.keys (reported writes)).Nodup :=
    hdistinct.sublist (List.filter_sublist.map Prod.fst)
  have hnamed : ∀ m ∈ reported writes, m.1 ≠ "" ∧ ¬ False :=
    fun m hm => ⟨hpoints m (List.mem_filter.1 hm).1, id⟩
  have hin : w ∈ reported writes := List.mem_filter.2 ⟨hw, by simpa using hplain⟩
  have hpoint : w.1 ∈ writes.map Prod.fst := List.mem_map_of_mem hw
  rcases appliedValues_shows cfg.stringify hnodup hnamed hsets (w := (beforeValues s protocol set
    (writes.map Prod.fst)).work) hagree hin hshows with ⟨hbefore, hnot⟩ | hdone
  · rw [writtenSets_beforeValues cfg s protocol set hpoint] at hnot
    exact (hreached set' key x ((beforeValues_shows s protocol set _).1 hbefore)).resolve_left hnot
  · exact hdone

/-! ## Requests -/

/-- What `ot-command-forward` reads of the store of the device. -/
def recorded (device : String) (s : Device) : CommandForward.Recorded where
  protocol d := if d = device then s.protocol else none
  point d set key := if d = device then s.point (pointKey set key) else none

@[simp] theorem ownerOf_recorded (device : String) (s : Device) (set key : String) :
    CommandForward.ownerOf (recorded device s) device set key = ownerOf s set key := by
  simp [CommandForward.ownerOf, recorded, ownerOf]

/-- What an operator changes of a set: the values of some of its keys, or the value of a literal. -/
inductive Edit where
  | keys (values : JsonMap)
  | literal (value : Json)

def Edit.members : Edit → JsonMap
  | .keys values => values
  | .literal value => [(literalKey, value)]

/-- The edit has the shape of the set: a value for a literal, keys for anything else. -/
def Edit.MatchesShape (edit : Edit) (s : Device) (set : String) : Prop :=
  match edit with
  | .keys _ => ownerOf s set literalKey = none
  | .literal _ => (ownerOf s set literalKey).isSome

/-- The first key of an operation that marks a set names this one. -/
def Marked (op : JsonMap) (set : String) : Prop :=
  (op.find? fun m => startsWith CommandForward.markerPrefix m.1).map Prod.fst =
    some (CommandForward.markerPrefix ++ set)

/-- The requests for an edit of a set: the operation of Cumulocity, or the direct form. -/
inductive Asks (set : String) (payload : JsonMap) : Edit → Prop where
  | operation {op values} (hop : payload.get "operation" = some (.object op)) (hset : Marked op set)
      (hvalues : JsonMap.get op set = some (.object values)) : Asks set payload (.keys values)
  | operationValue {op value} (hop : payload.get "operation" = some (.object op))
      (hset : Marked op set) (hvalue : JsonMap.get op set = some value)
      (hscalar : isScalar value = true) : Asks set payload (.literal value)
  | direct {values} (hop : (payload.get "operation").filter isObject = none)
      (hset : payload.get "set" = some (.string set))
      (hvalues : payload.get "parameters" = some (.object values)) : Asks set payload (.keys values)
  | directValue {value} (hop : (payload.get "operation").filter isObject = none)
      (hset : payload.get "set" = some (.string set))
      (hvalues : (payload.get "parameters").filter isObject = none)
      (hvalue : payload.get "value" = some value) (hscalar : isScalar value = true) :
      Asks set payload (.literal value)

def Edit.request (edit : Edit) (set : String) : CommandForward.ParameterRequest :=
  match edit with
  | .keys values => { set := some set, values := some (.object values) }
  | .literal value => { set := some set, value := some value }

theorem fragmentRequest_scalar {value : Json} (h : isScalar value = true) :
    CommandForward.fragmentRequest set (some value) = { set := some set, value := some value } := by
  cases value <;> simp_all [CommandForward.fragmentRequest, isScalar]

theorem parameterRequest_operation {payload op : JsonMap}
    (hop : payload.get "operation" = some (.object op)) (hset : Marked op set) :
    CommandForward.parameterRequest payload =
      CommandForward.fragmentRequest set (property op set) := by
  obtain ⟨m, hfind, hm⟩ := Option.map_eq_some_iff.1 hset
  unfold CommandForward.parameterRequest
  simp only [hop, Option.filter, isObject, if_true, entries, hfind]
  rw [hm, slice_append]

theorem parameterRequest_of_asks (h : Asks set payload edit) :
    CommandForward.parameterRequest payload = edit.request set := by
  cases h with
  | operation hop hset hvalues =>
    rw [parameterRequest_operation hop hset]
    simp [property, hvalues, CommandForward.fragmentRequest, Edit.request]
  | operationValue hop hset hvalue hscalar =>
    rw [parameterRequest_operation hop hset]
    simp [property, hvalue, fragmentRequest_scalar hscalar, Edit.request]
  | @direct values hop hset hvalues =>
    have hobject : (some (Json.object values)).filter isObject = some (.object values) := rfl
    unfold CommandForward.parameterRequest
    rw [hop, hset, hvalues, hobject]
    rfl
  | directValue hop hset hvalues hvalue hscalar =>
    unfold CommandForward.parameterRequest
    simp [hop, hset, hvalues, hvalue, hscalar, Json.asStr, Edit.request]

theorem planned_request (device : String) (h : edit.MatchesShape s set) :
    ∃ writes, CommandForward.planned (recorded device s) device (edit.request set) = .ok writes ∧
      writes.Perm (edit.members.map fun m => ((ownerOf s set m.1).getD m.1, m.2)) := by
  cases edit with
  | keys values =>
    have hnone : ownerOf s set literalKey = none := h
    refine ⟨(ownOrder values).map fun m =>
      (CommandForward.pointOf (recorded device s) device set m.1, m.2), ?_, ?_⟩
    · simp [CommandForward.planned, Edit.request, CommandForward.parameterWrites, hnone, entries]
    simpa [Edit.members, CommandForward.pointOf, entries] using (ownOrder_perm values).map
      fun m => ((ownerOf s set m.1).getD m.1, m.2)
  | literal value =>
    obtain ⟨p, hp⟩ := Option.isSome_iff_exists.1 (h : (ownerOf s set literalKey).isSome)
    refine ⟨[(p, value)], by simp [CommandForward.planned, Edit.request,
      CommandForward.parameterWrites, hp], ?_⟩
    simp [Edit.members, hp]

theorem startsWith_index (n : Nat) :
    startsWith CommandForward.markerPrefix (toString n) = false := by
  by_contra hstart
  have hprefix := List.isPrefixOf_iff_prefix.1 (Bool.not_eq_false _ ▸ hstart)
  have hfirst : 'c' ∈ (toString n).toList :=
    hprefix.subset (by simp [CommandForward.markerPrefix])
  -- an index has digits only
  have hdigits : 'c' ∈ Nat.toDigits 10 n := by
    have htext : toString n = n.repr := rfl
    simpa [htext] using hfirst
  exact absurd (Nat.isDigit_of_mem_toDigits (by decide) (by decide) hdigits) (by decide)

theorem startsWith_iff {start s : String} :
    startsWith start s = true ↔ s = start ++ slice start.length s := by
  constructor
  · intro h
    obtain ⟨rest, hrest⟩ := List.isPrefixOf_iff_prefix.1 h
    apply String.toList_inj.1
    simp [slice, ← hrest, ← String.length_toList]
  · intro h
    rw [h]
    exact startsWith_append _ _

theorem planned_writes (edit : Edit)
    (hok : CommandForward.planned (recorded device s) device (edit.request set) = .ok writes) :
    edit.MatchesShape s set := by
  cases edit with
  | keys values =>
    unfold Edit.MatchesShape
    cases howner : ownerOf s set literalKey with
    | none => rfl
    | some p =>
      simp [CommandForward.planned, Edit.request, CommandForward.parameterWrites, howner] at hok
  | literal value =>
    unfold Edit.MatchesShape
    cases howner : ownerOf s set literalKey with
    | none => simp [CommandForward.planned, Edit.request, CommandForward.parameterWrites,
      howner] at hok
    | some p => rfl

/-- A fragment is planned only when its value has the shape the set has. -/
theorem planned_fragment {op : JsonMap}
    (hok : CommandForward.planned (recorded device s) device (CommandForward.fragmentRequest set
      (property op set)) = .ok writes)
    (hwrites : writes ≠ []) :
    (∃ values, JsonMap.get op set = some (.object values) ∧ (Edit.keys values).MatchesShape s set) ∨
      ∃ value, JsonMap.get op set = some value ∧ isScalar value = true ∧
        (Edit.literal value).MatchesShape s set := by
  cases hget : JsonMap.get op set with
  | none =>
    exfalso
    by_cases hproto : set = "__proto__"
    · -- the empty prototype has no keys
      have hempty : property op set = some (.object []) := by
        rw [property, hget, if_pos hproto]
        rfl
      rw [hempty] at hok
      obtain ⟨writes', hplan, hperm⟩ := planned_request device
        (planned_writes (.keys []) hok)
      have heq : writes' = writes := Except.ok.inj (hplan.symm.trans hok)
      subst heq
      exact hwrites (List.perm_nil.1 hperm)
    · have hnone : property op set = none := by simp [property, hget, hproto]
      rw [hnone] at hok
      cases hok
  | some value =>
    have hproperty : property op set = some value := by simp [property, hget]
    rw [hproperty] at hok
    by_cases hscalar : isScalar value = true
    · rw [fragmentRequest_scalar hscalar] at hok
      exact Or.inr ⟨value, rfl, hscalar, planned_writes (.literal value) hok⟩
    · cases value with
      | object values => exact Or.inl ⟨values, rfl, planned_writes (.keys values) hok⟩
      | array items => cases hok
      | null => cases hok
      | bool b => exact absurd rfl hscalar
      | number n => exact absurd rfl hscalar
      | string t => exact absurd rfl hscalar

theorem eq_string_of_asStr {v : Option Json} {text : String} (h : v.bind Json.asStr = some text) :
    v = some (.string text) := by
  obtain ⟨v, rfl, hstr⟩ := Option.bind_eq_some_iff.1 h
  cases v with
  | string t => rw [Option.some.inj hstr]
  | _ => cases hstr

/-- An edit of another shape plans no write. -/
theorem planned_misshapen (hshape : ¬ ∃ set edit, Asks set payload edit ∧ edit.MatchesShape s set)
    (harray : ∀ items, payload.get "parameters" ≠ some (.array items))
    (hok : CommandForward.planned (recorded device s) device (CommandForward.parameterRequest
      payload) = .ok writes) :
    writes = [] := by
  -- a write that is planned gives the set and the edit the payload asks for
  by_contra hwrites
  apply hshape
  unfold CommandForward.parameterRequest at hok
  split at hok
  · next op hop =>
    obtain ⟨hmember, hobject⟩ := Option.filter_eq_some_iff.1 hop
    split at hok
    · cases hok
    · next marker value hfind =>
      have hstart := List.find?_some hfind
      cases op with
      | object op =>
        have hmarked : Marked op (slice CommandForward.markerPrefix.length marker) := by
          unfold Marked
          rw [show op.find? _ = some (marker, value) from hfind]
          exact congrArg some (startsWith_iff.1 hstart)
        rcases planned_fragment hok hwrites with ⟨values, hget, hshape⟩ | ⟨v, hget, hscalar, hshape⟩
        · exact ⟨_, _, .operation hmember hmarked hget, hshape⟩
        · exact ⟨_, _, .operationValue hmember hmarked hget hscalar, hshape⟩
      | array items =>
        obtain ⟨x, -, hx⟩ := List.mem_map.1 (List.mem_of_find?_eq_some hfind)
        have hindex := startsWith_index x.2
        rw [(Prod.mk.inj hx).1] at hindex
        exact absurd (hindex.symm.trans hstart) (by decide)
      | null => cases hobject
      | bool b => cases hobject
      | number n => cases hobject
      | string t => cases hobject
  · next hop =>
    split at hok
    · next _ set parameters hset hparameters =>
      obtain ⟨hmember, hobject⟩ := Option.filter_eq_some_iff.1 hparameters
      have htext := eq_string_of_asStr hset
      cases parameters with
      | object values =>
        exact ⟨set, _, .direct hop htext hmember, planned_writes (.keys values) hok⟩
      | array items => exact absurd hmember (harray items)
      | null => cases hobject
      | bool b => cases hobject
      | number n => cases hobject
      | string t => cases hobject
    · next _ set value hset hparameters hvalue =>
      have htext := eq_string_of_asStr hset
      split at hok
      · next hscalar =>
        exact ⟨set, _, .directValue hop htext hparameters hvalue hscalar,
          planned_writes (.literal value) hok⟩
      · cases hok
    · cases hok

/-! ## Delivery -/

/-- The keys of an edit are keys of the fragment; a value is for a literal. -/
def Edit.Fits (edit : Edit) (s : Device) (set : String) : Prop :=
  match edit with
  | .keys values => (Members.keys values).Nodup ∧ s.values set ≠ [] ∧
      (s.values set).containsKey literalKey = false ∧
      ∀ m ∈ values, (s.values set).containsKey m.1 = true
  | .literal _ => (s.values set).containsKey literalKey = true

theorem Edit.Fits.valued (h : edit.Fits s set) :
    ∀ m ∈ edit.members, (s.values set).containsKey m.1 = true := by
  cases edit with
  | keys values => exact h.2.2.2
  | literal value =>
    have hliteral : (s.values set).containsKey literalKey = true := h
    simpa [Edit.members] using hliteral

theorem Edit.Fits.distinct (h : edit.Fits s set) : (Members.keys edit.members).Nodup := by
  cases edit with
  | keys values => exact h.1
  | literal value => simp [Edit.members]

/-- An edit of keys that have owners has the shape of its set. -/
theorem Edit.Fits.matchesShape (h : edit.Fits s set) (hagree : Agree s) :
    edit.MatchesShape s set := by
  cases edit with
  | keys values =>
    obtain ⟨-, hvalues, hliteral, -⟩ := h
    obtain ⟨m, hm⟩ := List.exists_mem_of_ne_nil _ hvalues
    have hkey : (s.values set).containsKey m.1 = true :=
      (Members.isSome_get_iff _ _).2 (Members.mem_keys_of_mem hm)
    obtain ⟨hset, q, hq⟩ := hagree.valued set m.1 hkey
    have hclaim := (hagree.owned set m.1 q hset).1 hq
    refine Option.eq_none_iff_forall_ne_some.2 fun p hp => ?_
    -- a literal would be the only key
    have honly := hagree.shapes set m.1 p q ((hagree.owned set literalKey p hset).1 hp) hclaim
    rw [honly] at hkey
    exact absurd (hkey.symm.trans hliteral) (by decide)
  | literal value =>
    obtain ⟨-, p, hp⟩ := hagree.valued set literalKey h
    exact Option.isSome_iff_exists.2 ⟨p, hp⟩

def requestTopic (device id : String) : Topic :=
  ["te", "device", device, "", "", "cmd", CommandForward.parameterUpdate, id]

def batchTopic (device protocol id : String) : Topic :=
  ["te", "device", device, "ot", protocol, "cmd", "write-batch", CommandForward.internalPrefix ++ id]

/-- The batch of an edit, at a connector that lists every written point: one write for each key, to
the point that has claimed it, with the requested value. -/
structure Delivered (s : Device) (src : Sources) (device id set : String) (edit : Edit)
    (message : Message) (protocol : String) (writes : List (String × Json)) : Prop where
  topic : message.topic = batchTopic device protocol id
  listed : ∃ listed, src.points protocol = some listed ∧ ∀ w ∈ writes, w.1 ∈ listed
  batch : message.payload.get "writes" = some (.array (writes.map CommandForward.writeObject))
  each : ∃ point : String → String, writes.Perm (edit.members.map fun m => (point m.1, m.2)) ∧
    ∀ m ∈ edit.members, (set, m.1) ∈ s.claims (point m.1)

/-- The last message of the device came over a protocol whose link status lists the points of the
edited keys. -/
def Routed (s : Device) (src : Sources) (set : String) (edit : Edit) (protocol : String) : Prop :=
  protocol ≠ "" ∧ src.protocol = some protocol ∧ ∃ listed, src.points protocol = some listed ∧
    ∀ m ∈ edit.members, ∀ p, (set, m.1) ∈ s.claims p → p ∈ listed

/-- Each written point shows another value only in sets that a result for it reaches. -/
def Covered (cfg : Config) (s : Device) (protocol set : String) (writes : List (String × Json)) :
    Prop :=
  ∀ w ∈ writes, w.1 ≠ "__proto__" ∧ ∀ set' key x, Shows s set' w.1 key x →
    set' ∈ reached cfg s protocol set w.1 ∨ cfg.stringify x = cfg.stringify w.2

/-- After a result, every fragment that shows one of the points shows the requested value. -/
def Lands (cfg : Config) (device : String) (s : Device) (protocol : String) (origin : JsonMap)
    (writes : List (String × Json)) : Prop :=
  ∀ w ∈ writes, ∀ set key x, Shows (step cfg device s
    (.message protocol "cmd" "write-batch" (batchResult origin writes))).1 set w.1 key x →
    cfg.stringify x = cfg.stringify w.2

theorem forwarded (mapper : CommandForward.Recorded) (fallback device id : String)
    (hinit : CommandForward.isInit payload = true) :
    CommandForward.onMessage mapper fallback (requestTopic device id) (.object payload) =
      some { topic := batchTopic device (CommandForward.protocolOf mapper fallback device) id
             payload := CommandForward.parameterBatch mapper device payload } := by
  have hverb : CommandForward.verbOf CommandForward.parameterUpdate = "write-batch" := by decide
  have hmanagement : "write-batch" ∉ CommandForward.managementVerbs := by decide
  simp [CommandForward.onMessage, requestTopic, hinit, hverb, hmanagement, batchTopic]

theorem writes_of_planned {mapper : CommandForward.Recorded}
    (h : CommandForward.planned mapper device (CommandForward.parameterRequest payload) = .ok writes) :
    (CommandForward.parameterBatch mapper device payload).get "writes" =
        some (.array (writes.map CommandForward.writeObject)) ∧
      (CommandForward.parameterBatch mapper device payload).get "origin" =
        some (.object (CommandForward.batchOrigin (CommandForward.parameterRequest payload)
          none)) := by
  simp [CommandForward.parameterBatch, h, JsonMap.get]

theorem writes_of_error {mapper : CommandForward.Recorded} {error : String}
    (h : CommandForward.planned mapper device (CommandForward.parameterRequest payload) =
      .error error) :
    (CommandForward.parameterBatch mapper device payload).get "writes" = some (.array []) := by
  simp [CommandForward.parameterBatch, h, JsonMap.get]

theorem points_distinct (h : Agree s) {members : JsonMap} (hdistinct : (Members.keys members).Nodup)
    (point : String → String) (hclaims : ∀ m ∈ members, (set, m.1) ∈ s.claims (point m.1)) :
    (Members.keys (members.map fun m => (point m.1, m.2))).Nodup := by
  have hkeys : Members.keys (members.map fun m => (point m.1, m.2)) =
      (Members.keys members).map point := by
    simp [Members.keys]
  rw [hkeys]
  refine List.Nodup.map_on ?_ hdistinct
  intro key hkey key' hkey' heq
  obtain ⟨m, hm, rfl⟩ := List.mem_map.1 hkey
  obtain ⟨m', hm', rfl⟩ := List.mem_map.1 hkey'
  have hfirst := h.keyed _ _ id (hclaims m hm)
  have hsecond := h.keyed _ _ id (hclaims m' hm')
  exact hfirst.trans ((congrArg (keyOf s) heq).trans hsecond.symm)

theorem point_ne_empty (h : Agree s) {p : String} {c : String × String} (hc : c ∈ s.claims p) :
    p ≠ "" :=
  owner_ne_empty ((h.owned c.1 c.2 p (h.named p c hc)).2 hc)

/-- The write-batch that reaches the connector has the edit's writes, each for the key's owner. -/
theorem delivered (h : Agree s) {src : Sources} (hsrc : s.sources = src) {protocol : String}
    (hinit : CommandForward.isInit payload = true) (hasks : Asks set payload edit)
    (hfits : edit.Fits s set) (hrouted : Routed s src set edit protocol) (fallback id : String) :
    ∃ message writes origin,
      CommandForward.onMessage (recorded device s) fallback (requestTopic device id)
        (.object payload) = some message ∧
      Delivered s src device id set edit message protocol writes ∧
      message.payload.get "origin" = some (.object origin) ∧
      JsonMap.get origin "set" = some (.string set) ∧
      (Members.keys writes).Nodup ∧ ∀ w ∈ writes, w.1 ≠ "" := by
  obtain ⟨hprotocol, hlast, listed, hlisted, hin⟩ := hrouted
  obtain ⟨writes, hplanned, hperm⟩ := planned_request device (hfits.matchesShape h)
  rw [← parameterRequest_of_asks hasks] at hplanned
  obtain ⟨hwrites, horigin⟩ := writes_of_planned hplanned
  have hclaims : ∀ m ∈ edit.members, (set, m.1) ∈ s.claims ((ownerOf s set m.1).getD m.1) := by
    intro m hm
    obtain ⟨hset, p, hp⟩ := h.valued set m.1 (hfits.valued m hm)
    rw [hp]
    exact (h.owned set m.1 p hset).1 hp
  have hpoints : ∀ w ∈ writes, ∃ m ∈ edit.members, w.1 = (ownerOf s set m.1).getD m.1 := by
    intro w hw
    obtain ⟨m, hm, rfl⟩ := List.mem_map.1 (hperm.subset hw)
    exact ⟨m, hm, rfl⟩
  have hto : CommandForward.protocolOf (recorded device s) fallback device = protocol := by
    have hrecorded : s.protocol = some protocol := (congrArg Sources.protocol hsrc).trans hlast
    simp [CommandForward.protocolOf, recorded, hrecorded, Option.filter, hprotocol]
  refine ⟨_, writes, _, forwarded _ fallback device id hinit, ⟨by rw [hto], ⟨listed, hlisted, ?_⟩,
    hwrites, fun key => (ownerOf s set key).getD key, hperm, hclaims⟩, horigin, ?_, ?_, ?_⟩
  · intro w hw
    obtain ⟨m, hm, heq⟩ := hpoints w hw
    exact hin m hm w.1 (heq ▸ hclaims m hm)
  · rw [parameterRequest_of_asks hasks]
    cases edit <;> simp [Edit.request, CommandForward.batchOrigin, JsonMap.get]
  · have hnodup := points_distinct h hfits.distinct (fun key => (ownerOf s set key).getD key) hclaims
    exact ((hperm.map Prod.fst).nodup_iff).2 hnodup
  · intro w hw
    obtain ⟨m, hm, heq⟩ := hpoints w hw
    exact heq ▸ point_ne_empty h (hclaims m hm)

/-- An edit of what a fragment shows is delivered, and its result lands; a request of another shape
writes nothing. The result may come in any later state. -/
theorem edit_reaches {cfg : Config} (hforced : ColonFree (trimC cfg.defaultSet)) (device : String)
    {events : List Event} (hnamed : ∀ event ∈ events, Named cfg event) {s : Device}
    (hs : s = final (step cfg device) Device.empty events) (fallback id : String)
    {payload : JsonMap} (hinit : CommandForward.isInit payload = true) :
    (∀ set edit protocol, Asks set payload edit → edit.Fits s set →
      Routed s (heard device events) set edit protocol →
      ∃ message writes origin,
        CommandForward.onMessage (recorded device s) fallback (requestTopic device id)
          (.object payload) = some message ∧
        Delivered s (heard device events) device id set edit message protocol writes ∧
        message.payload.get "origin" = some (.object origin) ∧
        ∀ later, (∀ event ∈ later, Named cfg event) →
          Covered cfg (final (step cfg device) s later) protocol set writes →
          Lands cfg device (final (step cfg device) s later) protocol origin writes) ∧
    ((¬ ∃ set edit, Asks set payload edit ∧ edit.MatchesShape s set) →
      (∀ items, payload.get "parameters" ≠ some (.array items)) →
      ∃ message,
        CommandForward.onMessage (recorded device s) fallback (requestTopic device id)
          (.object payload) = some message ∧
        message.payload.get "writes" = some (.array [])) := by
  have hagree : Agree s := hs ▸ agree_final hforced device hnamed (tables_empty _)
  have hsrc : s.sources = heard device events := hs ▸ sources_final cfg device _ events
  constructor
  · intro set edit protocol hasks hfits hrouted
    obtain ⟨message, writes, origin, hforward, hdelivered, horigin, hset, hdistinct, hpoints⟩ :=
      delivered hagree hsrc hinit hasks hfits hrouted fallback id
    refine ⟨message, writes, origin, hforward, hdelivered, horigin, ?_⟩
    intro later hlater hcovered w hw set' key x hshows
    have hafter := agree_final hforced device hlater hagree
    obtain ⟨hplain, hreached⟩ := hcovered w hw
    exact result_shows hafter hforced hset hdistinct hpoints hw hplain hreached hshows
  · intro hshape harray
    refine ⟨_, forwarded _ fallback device id hinit, ?_⟩
    cases hplanned : CommandForward.planned (recorded device s) device
        (CommandForward.parameterRequest payload) with
    | ok writes =>
      rw [(writes_of_planned hplanned).1, planned_misshapen hshape harray hplanned]
      rfl
    | error error => exact writes_of_error hplanned

section Instances

def controlSet : String := "modbus_control_parameters"

/-- A link status of a connector that has one point. -/
def statusOf (point : String) : Event :=
  .message "modbus" "status" "link" (.object [("points", .array [.string point])])

/-- The device `meter` after its link status and a sample. -/
def meterEvents : List Event := [statusOf "p", sampleOf "p" 1]

def meter : Device := final (step plainConfig "meter") Device.empty meterEvents

def editOf (key : String) (value : UInt64) : JsonMap :=
  [("status", .string "init"), ("set", .string controlSet),
    ("parameters", .object [(key, .number (.posInt value))])]

theorem editOf_asks (key : String) (value : UInt64) :
    Asks controlSet (editOf key value) (.keys [(key, .number (.posInt value))]) := by
  apply Asks.direct <;> simp [editOf, JsonMap.get]

theorem named_meterEvents : ∀ event ∈ meterEvents, Named plainConfig event := by
  have hstatus : Named plainConfig (statusOf "p") := by simp [Named, statusOf]
  have hsample : Named plainConfig (sampleOf "p" 1) := named_sampleOf (by decide) 1
  intro event hevent
  simp only [meterEvents, List.mem_cons, List.not_mem_nil, or_false] at hevent
  rcases hevent with rfl | rfl
  · exact hstatus
  · exact hsample

theorem plain_forced : ColonFree (trimC plainConfig.defaultSet) := by
  simp [ColonFree, plainConfig, trimC]

theorem meter_claims : meter.claims "p" = [(controlSet, "p")] := by decide +kernel

theorem fits_one {s : Device} {set key : String} {value : Json}
    (hkey : (s.values set).containsKey key = true)
    (hliteral : (s.values set).containsKey literalKey = false) :
    (Edit.keys [(key, value)]).Fits s set := by
  refine ⟨by simp, ?_, hliteral, by simpa using hkey⟩
  intro hnil
  rw [hnil] at hkey
  cases hkey

/-- A key edit of a set that two samples filled. -/
theorem edit_reaches_meter : ∃ message writes origin,
    CommandForward.onMessage (recorded "meter" meter) "" (requestTopic "meter" "1")
      (.object (editOf "p" 5)) = some message ∧
    Delivered meter (heard "meter" meterEvents) "meter" "1" controlSet
      (.keys [("p", .number (.posInt 5))]) message "modbus" writes ∧
    Lands plainConfig "meter" meter "modbus" origin writes := by
  have hagree : Agree meter := agree_final plain_forced "meter" named_meterEvents (tables_empty _)
  have hfits : (Edit.keys [("p", .number (.posInt 5))]).Fits meter controlSet :=
    fits_one (by decide +kernel) (by decide +kernel)
  have hrouted : Routed meter (heard "meter" meterEvents) controlSet
      (.keys [("p", .number (.posInt 5))]) "modbus" := by
    refine ⟨by decide, rfl, ["p"], rfl, ?_⟩
    intro m hm p hp
    obtain rfl := List.mem_singleton.1 hm
    simpa using hagree.claimer_unique hp (q := "p") (by simp [meter_claims])
  obtain ⟨message, writes, origin, hforward, hdelivered, -, hlands⟩ :=
    (edit_reaches plain_forced "meter" named_meterEvents rfl "" "1"
      (show CommandForward.isInit (editOf "p" 5) = true from rfl)).1 controlSet _ "modbus"
        (editOf_asks "p" 5) hfits hrouted
  refine ⟨message, writes, origin, hforward, hdelivered, ?_⟩
  apply hlands [] (by simp)
  intro w hw
  have hw : w.1 = "p" := by
    obtain ⟨listed, hlisted, hin⟩ := hdelivered.listed
    obtain rfl : ["p"] = listed := Option.some.inj hlisted
    simpa using hin w hw
  rw [hw]
  refine ⟨by decide, fun set' key x hshows => Or.inl ?_⟩
  -- the point has its one claim in the set
  have hclaim : (set', key) ∈ meter.claims "p" := hshows.1
  rw [meter_claims] at hclaim
  obtain ⟨rfl, -⟩ := Prod.mk.inj (List.mem_singleton.1 hclaim)
  decide +kernel

/-- The device after a command of another protocol. -/
def strayEvents : List Event := meterEvents ++ [.message "opcua" "cmd" "write" (.object [])]

def stray : Device := final (step plainConfig "meter") Device.empty strayEvents

/-- The edit goes where the command went: to a protocol whose connector lists nothing. -/
theorem edit_astray :
    CommandForward.isInit (editOf "p" 5) = true ∧
    Asks controlSet (editOf "p" 5) (.keys [("p", .number (.posInt 5))]) ∧
    (Edit.keys [("p", .number (.posInt 5))]).Fits stray controlSet ∧
    ¬ ∃ message protocol writes,
      CommandForward.onMessage (recorded "meter" stray) "" (requestTopic "meter" "1")
        (.object (editOf "p" 5)) = some message ∧
      Delivered stray (heard "meter" strayEvents) "meter" "1" controlSet
        (.keys [("p", .number (.posInt 5))]) message protocol writes := by
  refine ⟨rfl, editOf_asks "p" 5, fits_one (by decide +kernel) (by decide +kernel), ?_⟩
  rintro ⟨message, protocol, writes, hforward, hdelivered⟩
  rw [forwarded _ "" "meter" "1" rfl] at hforward
  obtain rfl := Option.some.inj hforward
  have hto : CommandForward.protocolOf (recorded "meter" stray) "" "meter" = "opcua" := by
    decide +kernel
  have htopic := congrArg (fun topic : Topic => topic.getD 4 "") hdelivered.topic
  obtain rfl : "opcua" = protocol := hto.symm.trans (by simpa [batchTopic] using htopic)
  obtain ⟨listed, hlisted, -⟩ := hdelivered.listed
  cases hlisted

end Instances

end TedgeDot.Flows.Edits
