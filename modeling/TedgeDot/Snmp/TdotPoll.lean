import Mathlib.Data.List.Nodup
import TedgeDot.Snmp.Complete

/-!
# Polling in the C connector

`fetch_batch` and `read_point` of `connector_snmp.c`, in a pass of the C runtime over the due points
of a device: the first read of the pass fetches all of them, and the others are served from what it
fetched. A read that reports the transport down ends the pass. What the agent does is the list of the
answers it gives, and ends the poll where it ends; `tsnmp_convert` is a parameter.

A batch that timed out does not keep the next one from being asked. A pass that lost a batch ends at
the last point of it, and the points after that one are not published.

## Main result

- `polled_iff`: which answers a pass is complete for.
-/

namespace TedgeDot.Snmp.Tdot

/-! ## The agent -/

/-- A variable of a response; the name of an oversized one is not known. -/
structure Variable where
  name : Option Oid
  value : VarValue

structure Response where
  errstat : Int
  errindex : Int
  vars : List Variable

/-- What `tsnmp_request` ends with when there is no response. -/
inductive Failure where
  | timeout (why : String)
  | security (why : String)
  | send (why : String)

abbrev Answer := Except Failure Response

/-- A request that was sent, and what came of it. -/
abbrev Sent := Request × Answer

/-- `SNMP_ERR_NOSUCHNAME` -/
def noSuchName : Int := 2

def Answer.isTimeout : Answer → Bool
  | .error (.timeout _) => true
  | _ => false

def Failure.down : Failure → Bool
  | .security _ => false
  | _ => true

def Failure.text : Failure → String
  | .security why => "SNMPv3 authentication failed: " ++ why
  | .timeout why | .send why => why

/-! ## Samples -/

structure Sample where
  point : String
  value : Option Value
  raw : List UInt8
  quality : Quality
  error : Option String

/-- `TDOT_RAW_MAX` -/
def rawMax : Nat := 256

/-- `tdot_sample_bad`, of a new sample. -/
def bad (p : ObjectPoint) (why : String) : Sample where
  point := p.id
  value := none
  raw := []
  quality := .bad
  error := some why

/-- `tsnmp_error_status_name` -/
def errorStatusName (status : Int) : String :=
  if 0 ≤ status ∧ status ≤ 18 then errorName (UInt32.ofNat status.toNat) else "unknownError"

section

variable (convert : VarValue → DataType → Except String Value)

def fillValue (p : ObjectPoint) (v : VarValue) : Sample :=
  if v.kind.isException then bad p v.kind.name
  else
    let filled : Sample :=
      { point := p.id, value := none, raw := v.raw.take rawMax, quality := .good, error := none }
    match p.mode, p.datatype with
    | .typed, some datatype =>
      match convert v datatype with
      | .ok value => { filled with value := some (p.transform value) }
      | .error why => { filled with quality := .bad, error := some why }
    | _, _ => filled

/-- The sample of one point, where the request did not fail. -/
def answered (p : ObjectPoint) : Option Variable → Sample
  | none => bad p "the response carried no value for this OID"
  | some v =>
    if v.value.kind.isException then fillValue convert p v.value
    else
      match v.name with
      | none => bad p "the response named an oversized OID instead"
      | some name =>
        if name = p.oid.getD [] then fillValue convert p v.value
        else bad p s!"the response named {dotted name} instead"

/-! ## Fetching -/

/-- `cached_sample` and `cached_rc` of a point. -/
structure Cached where
  point : ObjectPoint
  sample : Sample
  down : Bool

def cacheBad (p : ObjectPoint) (down : Bool) (why : String) : Cached where
  point := p
  sample := bad p why
  down := down

/-- The request for some points: a scalar is asked for by its parent in a GETBULK. -/
def requestOf (bulk : Bool) (todo : List ObjectPoint) : Request :=
  if bulk then .getBulk (todo.map fun p => (p.oid.getD []).dropLast)
  else .get (todo.map fun p => p.oid.getD [])

/-- The point that a response of an SNMPv1 agent takes out of a request. -/
def takenOut (v1 : Bool) (todo : Nat) (response : Response) : Option Nat :=
  if v1 ∧ response.errstat = noSuchName ∧ 1 ≤ response.errindex ∧ response.errindex ≤ todo then
    some (response.errindex.toNat - 1)
  else none

/-- What a batch caches, and the requests it sends. -/
structure Fetched where
  cached : List Cached
  sent : List Sent

/-- `fetch_batch`; none where the answers end. -/
def fetchBatch (v1 bulk : Bool) :
    List Answer → List ObjectPoint → Option (Fetched × List Answer)
  | answers, [] => some (⟨[], []⟩, answers)
  | [], _ :: _ => none
  | answer :: answers, p :: others =>
    let todo := p :: others
    let sent := (requestOf bulk todo, answer)
    match answer with
    | .error failure =>
      some (⟨todo.map fun p => cacheBad p failure.down failure.text, [sent]⟩, answers)
    | .ok response =>
      if response.errstat = 0 then
        some (⟨todo.mapIdx fun i p => ⟨p, answered convert p response.vars[i]?, false⟩, [sent]⟩,
          answers)
      else
        match takenOut v1 todo.length response with
        | some i =>
          (fetchBatch v1 bulk answers (todo.eraseIdx i)).map fun f =>
            (⟨(todo[i]?.toList.map fun p =>
                cacheBad p false (errorStatusName response.errstat)) ++ f.1.cached,
              sent :: f.1.sent⟩, f.2)
        | none =>
          let why := s!"{errorStatusName response.errstat} (error-index {response.errindex})"
          some (⟨todo.map fun p => cacheBad p false why, [sent]⟩, answers)

def scalarInstance (p : ObjectPoint) : Bool :=
  let oid := p.oid.getD []
  3 ≤ oid.length && oid.getLast? == some 0

/-- One round of the swaps that put the scalars first. -/
def swapIn (sorted : List ObjectPoint × List ObjectPoint) (p : ObjectPoint) :
    List ObjectPoint × List ObjectPoint :=
  if scalarInstance p then
    match sorted.2 with
    | [] => (sorted.1 ++ [p], [])
    | q :: others => (sorted.1 ++ [p], others ++ [q])
  else (sorted.1, sorted.2 ++ [p])

/-- The scalars that are due, and the other points. -/
def sortDue (due : List ObjectPoint) : List ObjectPoint × List ObjectPoint :=
  due.foldl swapIn ([], [])

/-- The batches of a pass, each with whether it is a GETBULK. -/
def batches (model : DeviceModel) (due : List ObjectPoint) : List (Bool × List ObjectPoint) :=
  let sorted := sortDue due
  let bulk := model.bulk && model.version != .v1
  (sorted.1.toChunks model.maxVarbinds).map (bulk, ·) ++
    (sorted.2.toChunks model.maxVarbinds).map (false, ·)

def fetchAll (v1 : Bool) :
    List (Bool × List ObjectPoint) → List Answer → Option (Fetched × List Answer)
  | [], answers => some (⟨[], []⟩, answers)
  | (bulk, batch) :: rest, answers =>
    match fetchBatch convert v1 bulk answers batch with
    | none => none
    | some (first, answers) =>
      (fetchAll v1 rest answers).map fun f =>
        (⟨first.cached ++ f.1.cached, first.sent ++ f.1.sent⟩, f.2)

/-! ## A pass -/

/-- The pass over the points, from the cache: `pending` is `transport_pending`. -/
def readAll (cache : List Cached) : Nat → List ObjectPoint → List Sample
  | _, [] => []
  | pending, p :: rest =>
    match cache.find? fun c => c.point.id == p.id with
    | none => bad p "no value fetched" :: readAll cache pending rest
    | some c =>
      if c.down then
        -- the verdict is held back while later points carry it
        if 1 < pending then c.sample :: readAll cache (pending - 1) rest else [c.sample]
      else c.sample :: readAll cache pending rest

/-- What a pass publishes, and what it sends. -/
structure Pass where
  samples : List Sample
  sent : List Sent

/-- A pass over the due points of a device, in their order. -/
def poll (model : DeviceModel) (answers : List Answer) (due : List ObjectPoint) : Option Pass :=
  (fetchAll convert (model.version == .v1) (batches model due) answers).map fun f =>
    { samples := readAll f.1.cached (f.1.cached.countP Cached.down) due, sent := f.1.sent }

end

/-! ## What is to hold, and when -/

/-- A sample of the value that a response has under the name of the point. -/
def Carries (convert : VarValue → DataType → Except String Value) (p : ObjectPoint)
    (sent : List Sent) (x : Sample) : Prop :=
  ∃ request ∈ sent, ∃ response, request.2 = .ok response ∧ ∃ v ∈ response.vars,
    v.name = some (p.oid.getD []) ∧ v.value.kind.isException = false ∧
      x.raw = v.value.raw.take rawMax ∧ Publishes (convert v.value) p x.value

/-- A pass is complete: every due point has one sample, a good one carries a value of its own name,
there are no more requests than points, and none after one that timed out. -/
structure Complete (convert : VarValue → DataType → Except String Value) (due : List ObjectPoint)
    (pass : Pass) : Prop where
  each : pass.samples.map Sample.point = due.map ObjectPoint.id
  good : ∀ x ∈ pass.samples, x.quality = .good →
    ∃ p ∈ due, x.point = p.id ∧ Carries convert p pass.sent x
  bounded : pass.sent.length ≤ due.length
  last : ∀ request ∈ pass.sent.dropLast, request.2.isTimeout = false

/-- What an SNMPv1 agent leaves of a batch, and its answer to that. -/
abbrev Ending := List ObjectPoint × Answer

/-- How the agent ends a batch, unless it takes out every point; and the answers left over. -/
def ending (v1 : Bool) : List Answer → List ObjectPoint → Option Ending × List Answer
  | answers, [] => (none, answers)
  | [], _ :: _ => (none, [])
  | answer :: answers, p :: others =>
    match answer with
    | .ok response =>
      match if response.errstat = 0 then none else takenOut v1 (p :: others).length response with
      | some i => ending v1 answers ((p :: others).eraseIdx i)
      | none => (some (p :: others, answer), answers)
    | .error _ => (some (p :: others, answer), answers)

/-- How the agent ends the batches of a pass. -/
def endings (v1 : Bool) : List (List ObjectPoint) → List Answer → List (Option Ending)
  | [], _ => []
  | batch :: rest, answers =>
    (ending v1 answers batch).1 :: endings v1 rest (ending v1 answers batch).2

def Ending.down (e : Ending) : Bool :=
  match e.2 with
  | .error failure => failure.down
  | .ok _ => false

/-- The agent spares a pass: no batch but the last times out, and where the transport fails, it fails
for the last of the due points. -/
structure Spares (due : List ObjectPoint) (ends : List (Option Ending)) : Prop where
  timeouts : ∀ e ∈ ends.dropLast, ∀ x ∈ e, x.2.isTimeout = false
  last : (∃ e ∈ ends, ∃ x ∈ e, Ending.down x = true) →
    ∃ p ∈ due.getLast?, ∃ e ∈ ends, ∃ x ∈ e, Ending.down x = true ∧ p ∈ x.1

/-! ## One batch -/

section

variable {convert : VarValue → DataType → Except String Value} {v1 bulk : Bool}

theorem fillValue_point (p : ObjectPoint) (v : VarValue) : (fillValue convert p v).point = p.id := by
  unfold fillValue
  split
  · rfl
  · dsimp only
    split
    · split <;> rfl
    · rfl

variable {p : ObjectPoint} {todo : List ObjectPoint} {f : Fetched} {cache : List Cached}
  {points due : List ObjectPoint} {ends : List (Option Ending)}

/-- A good value is published with its bytes as they came, cut to what is kept. -/
theorem fillValue_good {v : VarValue} (h : (fillValue convert p v).quality = .good) :
    v.kind.isException = false ∧ (fillValue convert p v).raw = v.raw.take rawMax ∧
      Publishes (convert v) p (fillValue convert p v).value := by
  unfold fillValue at h ⊢
  by_cases hexception : v.kind.isException = true
  · rw [if_pos hexception] at h
    cases h
  · rw [if_neg hexception] at h ⊢
    refine ⟨by simpa using hexception, ?_⟩
    unfold Publishes
    cases hmode : p.mode with
    | raw => exact ⟨rfl, rfl⟩
    | typed =>
      cases hdatatype : p.datatype with
      | none => exact ⟨rfl, trivial⟩
      | some datatype =>
        rw [hmode, hdatatype] at h
        cases hvalue : convert v datatype with
        | error why =>
          simp only [hvalue] at h
          cases h
        | ok value => exact ⟨by simp [hvalue], value, hvalue, by simp [hvalue]⟩

theorem answered_point (p : ObjectPoint) (v : Option Variable) :
    (answered convert p v).point = p.id := by
  unfold answered
  cases v with
  | none => rfl
  | some v =>
    dsimp only
    split
    · exact fillValue_point p v.value
    · split
      · rfl
      · split
        · exact fillValue_point p v.value
        · rfl

/-- A good answer is the point's own variable. -/
theorem answered_good {v : Option Variable} (h : (answered convert p v).quality = .good) :
    ∃ w, v = some w ∧ w.name = some (p.oid.getD []) ∧ w.value.kind.isException = false ∧
      (answered convert p v).raw = w.value.raw.take rawMax ∧
        Publishes (convert w.value) p (answered convert p v).value := by
  cases v with
  | none => cases h
  | some w =>
    unfold answered at h ⊢
    dsimp only at h ⊢
    by_cases hexception : w.value.kind.isException = true
    · rw [if_pos hexception] at h
      rw [(fillValue_good h).1] at hexception
      cases hexception
    · rw [if_neg hexception] at h ⊢
      cases hname : w.name with
      | none =>
        rw [hname] at h
        cases h
      | some name =>
        rw [hname] at h
        dsimp only at h ⊢
        by_cases hown : name = p.oid.getD []
        · rw [if_pos hown] at h ⊢
          exact ⟨w, rfl, by rw [hname, hown], fillValue_good h⟩
        · rw [if_neg hown] at h
          cases h

/-- What a part of a pass comes to, where `ends` is how the agent ended it. -/
structure Ran (convert : VarValue → DataType → Except String Value) (points : List ObjectPoint)
    (ends : List (Option Ending)) (f : Fetched) : Prop where
  once : (f.cached.map Cached.point).Perm points
  own : ∀ c ∈ f.cached, c.sample.point = c.point.id
  good : ∀ c ∈ f.cached, c.sample.quality = .good → Carries convert c.point f.sent c.sample
  bounded : f.sent.length ≤ points.length
  down : ∀ c ∈ f.cached, (c.down = true ↔ ∃ e ∈ ends, ∃ x ∈ e, Ending.down x = true ∧ c.point ∈ x.1)
  asked : ∀ e ∈ ends, ∀ x ∈ e, x.1 ⊆ points

/-- Where the timeouts of a batch are. -/
structure EndsAlone (e : Option Ending) (sent : List Sent) : Prop where
  before : ∀ request ∈ sent.dropLast, request.2.isTimeout = false
  all : (∀ request ∈ sent, request.2.isTimeout = false) ↔ ∀ x ∈ e, x.2.isTimeout = false

theorem Carries.mono {sent more : List Sent} {x : Sample} (h : Carries convert p sent x)
    (hsub : sent ⊆ more) : Carries convert p more x := by
  obtain ⟨request, hrequest, hrest⟩ := h
  exact ⟨request, hsub hrequest, hrest⟩

theorem ran_ended (htodo : todo ≠ []) (answer : Answer) (request : Request) {cached : List Cached}
    (hpoints : cached.map Cached.point = todo) (hown : ∀ c ∈ cached, c.sample.point = c.point.id)
    (hgood : ∀ c ∈ cached, c.sample.quality = .good →
      Carries convert c.point [(request, answer)] c.sample)
    (hdown : ∀ c ∈ cached, c.down = Ending.down (todo, answer)) :
    Ran convert todo [some (todo, answer)] ⟨cached, [(request, answer)]⟩ ∧
      EndsAlone (some (todo, answer)) [(request, answer)] where
  left :=
    { once := List.Perm.of_eq hpoints
      own := hown
      good := hgood
      bounded := List.length_pos_iff.mpr htodo
      down := fun c hc => by
        have hmem : c.point ∈ todo := hpoints ▸ List.mem_map_of_mem hc
        rw [hdown c hc]
        simp [hmem]
      asked := by simp }
  right := ⟨fun _ h => (List.not_mem_nil h).elim, by simp⟩

theorem ran_bad (htodo : todo ≠ []) (answer : Answer) (request : Request) (why : String) :
    Ran convert todo [some (todo, answer)]
        ⟨todo.map fun p => cacheBad p (Ending.down (todo, answer)) why, [(request, answer)]⟩ ∧
      EndsAlone (some (todo, answer)) [(request, answer)] := by
  refine ran_ended htodo answer request ?_ ?_ ?_ ?_
  · rw [List.map_map]
    exact List.map_id _
  all_goals
    intro c hc
    obtain ⟨p, -, rfl⟩ := List.mem_map.mp hc
  · rfl
  · exact fun h => by cases h
  · rfl

variable (convert) in
theorem ran_answered (htodo : todo ≠ []) (request : Request) (response : Response) :
    Ran convert todo [some (todo, .ok response)]
        ⟨todo.mapIdx fun i p => ⟨p, answered convert p response.vars[i]?, false⟩,
          [(request, .ok response)]⟩ ∧
      EndsAlone (some (todo, .ok response)) [(request, .ok response)] := by
  refine ran_ended htodo (.ok response) request ?_ ?_ ?_ ?_
  · apply List.ext_getElem
    · simp
    · simp
  all_goals
    intro c hc
    obtain ⟨i, hi, rfl⟩ := List.mem_mapIdx.mp hc
  · exact answered_point _ _
  · intro hgood
    obtain ⟨v, hv, hvalue⟩ := answered_good hgood
    exact ⟨_, List.mem_singleton_self _, response, rfl, v, List.mem_of_getElem? hv, hvalue⟩
  · rfl

theorem lt_of_takenOut {todo i : Nat} {response : Response}
    (h : takenOut v1 todo response = some i) : i < todo := by
  unfold takenOut at h
  split at h
  · next hin =>
    cases h
    omega
  · cases h

structure BatchRan (convert : VarValue → DataType → Except String Value) (v1 : Bool)
    (answers : List Answer) (todo : List ObjectPoint) (f : Fetched)
    (rest : List Answer) : Prop where
  ran : Ran convert todo [(ending v1 answers todo).1] f
  alone : EndsAlone (ending v1 answers todo).1 f.sent
  rest : (ending v1 answers todo).2 = rest
  sent : todo ≠ [] → f.sent ≠ []

theorem fetchBatch_nil {answers rest : List Answer}
    (h : fetchBatch convert v1 bulk answers [] = some (f, rest)) :
    BatchRan convert v1 answers [] f rest := by
  cases answers <;>
  · cases h
    exact ⟨⟨List.Perm.nil, by simp, by simp, le_rfl, by simp, by simp [ending]⟩,
      ⟨by simp, by simp [ending]⟩, rfl, fun hne => absurd rfl hne⟩

/-- A point taken out of a batch is reported and not asked for again. -/
theorem ran_takenOut (hnodup : todo.Nodup) {i : Nat} {q : ObjectPoint} (hq : todo[i]? = some q)
    {e : Option Ending} (h : Ran convert (todo.eraseIdx i) [e] f) (halone : EndsAlone e f.sent)
    (request : Request) (response : Response) (why : String) :
    Ran convert todo [e] ⟨cacheBad q false why :: f.cached, (request, .ok response) :: f.sent⟩ ∧
      EndsAlone e ((request, .ok response) :: f.sent) := by
  obtain ⟨hlt, hget⟩ := List.getElem?_eq_some_iff.mp hq
  have hperm : (q :: todo.eraseIdx i).Perm todo := by
    rw [← hget]
    exact List.getElem_cons_eraseIdx_perm hlt
  -- so nothing reports it twice
  have hout : q ∉ todo.eraseIdx i := (List.nodup_cons.mp (hperm.nodup_iff.mpr hnodup)).1
  refine ⟨⟨?_, ?_, ?_, ?_, ?_, ?_⟩, ?_, ?_⟩
  · rw [List.map_cons]
    exact (h.once.cons q).trans hperm
  · exact List.forall_mem_cons.mpr ⟨rfl, h.own⟩
  · refine List.forall_mem_cons.mpr ⟨fun hgood => (by cases hgood), fun c hc hgood => ?_⟩
    exact (h.good c hc hgood).mono (List.subset_cons_self _ _)
  · have hlength := List.length_eraseIdx_of_lt hlt
    have hbounded := h.bounded
    rw [List.length_cons]
    omega
  · refine List.forall_mem_cons.mpr ⟨iff_of_false Bool.false_ne_true ?_, h.down⟩
    rintro ⟨e', he', x, hx, -, hmem⟩
    exact hout (h.asked e' he' x hx hmem)
  · exact fun e' he' x hx => List.Subset.trans (h.asked e' he' x hx) (List.eraseIdx_subset)
  · intro r hr
    cases hsent : f.sent with
    | nil =>
      rw [hsent] at hr
      cases hr
    | cons s more =>
      rw [hsent, List.dropLast_cons_of_ne_nil (List.cons_ne_nil s more)] at hr
      obtain rfl | hr := List.mem_cons.mp hr
      · rfl
      · exact halone.before r (hsent ▸ hr)
  · rw [List.forall_mem_cons, ← halone.all]
    exact and_iff_right rfl

/-- **Batch**: every point is cached once, and every repetition is for one point less. -/
theorem fetchBatch_ran (answers : List Answer) (todo : List ObjectPoint) (hnodup : todo.Nodup)
    {rest : List Answer} (h : fetchBatch convert v1 bulk answers todo = some (f, rest)) :
    BatchRan convert v1 answers todo f rest := by
  induction answers generalizing todo f rest with
  | nil =>
    cases todo with
    | nil => exact fetchBatch_nil h
    | cons p others => cases h
  -- an answer settles the batch, splits it, or takes one point out
  | cons answer answers ih =>
    cases todo with
    | nil => exact fetchBatch_nil h
    | cons p others =>
      have htodo : p :: others ≠ [] := List.cons_ne_nil p others
      have hend : ∀ e r, ending v1 (answer :: answers) (p :: others) = (e, r) →
          Ran convert (p :: others) [e] f → EndsAlone e f.sent → r = rest → f.sent ≠ [] →
          BatchRan convert v1 (answer :: answers) (p :: others) f rest := by
        intro e r heq hran halone hrest hsent
        exact ⟨by rw [heq]; exact hran, by rw [heq]; exact halone, by rw [heq]; exact hrest,
          fun _ => hsent⟩
      simp only [fetchBatch, ending] at h hend
      generalize p :: others = todo at h htodo hnodup hend ⊢
      cases answer with
      | error failure =>
        cases h
        obtain ⟨hran, halone⟩ := ran_bad htodo (.error failure) (requestOf bulk todo)
          failure.text
        exact hend _ _ rfl hran halone rfl (List.cons_ne_nil _ _)
      | ok response =>
        dsimp only at h hend
        by_cases hstatus : response.errstat = 0
        · rw [if_pos hstatus] at h hend
          cases h
          obtain ⟨hran, halone⟩ := ran_answered convert htodo (requestOf bulk todo)
            response
          exact hend _ _ rfl hran halone rfl (List.cons_ne_nil _ _)
        · rw [if_neg hstatus] at h hend
          cases htaken : takenOut v1 todo.length response with
          | none =>
            rw [htaken] at h hend
            cases h
            obtain ⟨hran, halone⟩ := ran_bad htodo (.ok response) (requestOf bulk todo)
              s!"{errorStatusName response.errstat} (error-index {response.errindex})"
            exact hend _ _ rfl hran halone rfl (List.cons_ne_nil _ _)
          | some i =>
            rw [htaken] at h hend
            dsimp only at h hend
            obtain ⟨⟨f', rest'⟩, hfetch, heq⟩ := Option.map_eq_some_iff.mp h
            cases heq
            have hlt : i < todo.length := lt_of_takenOut htaken
            have hbatch := ih (todo.eraseIdx i) (hnodup.sublist (List.eraseIdx_sublist todo i)) hfetch
            obtain ⟨hran, halone⟩ := ran_takenOut hnodup (List.getElem?_eq_getElem hlt) hbatch.ran
              hbatch.alone (requestOf bulk todo) response (errorStatusName response.errstat)
            refine hend _ _ rfl ?_ halone hbatch.rest (List.cons_ne_nil _ _)
            rw [List.getElem?_eq_getElem hlt]
            exact hran

/-! ## All batches -/

/-- Two batches one after the other. -/
theorem Ran.append {points points' : List ObjectPoint} {ends ends' : List (Option Ending)}
    {f f' : Fetched} (h : Ran convert points ends f) (h' : Ran convert points' ends' f')
    (hdisjoint : ∀ p ∈ points, p ∉ points') :
    Ran convert (points ++ points') (ends ++ ends') ⟨f.cached ++ f'.cached, f.sent ++ f'.sent⟩ where
  once := by
    rw [List.map_append]
    exact h.once.append h'.once
  own := List.forall_mem_append.mpr ⟨h.own, h'.own⟩
  good := List.forall_mem_append.mpr
    ⟨fun c hc hgood => (h.good c hc hgood).mono (List.subset_append_left _ _),
      fun c hc hgood => (h'.good c hc hgood).mono (List.subset_append_right _ _)⟩
  bounded := by
    rw [List.length_append, List.length_append]
    exact Nat.add_le_add h.bounded h'.bounded
  down := by
    have hin : ∀ c ∈ f.cached, c.point ∈ points := fun c hc =>
      h.once.mem_iff.mp (List.mem_map_of_mem hc)
    have hin' : ∀ c ∈ f'.cached, c.point ∈ points' := fun c hc =>
      h'.once.mem_iff.mp (List.mem_map_of_mem hc)
    -- the endings of the other part are about other points
    refine List.forall_mem_append.mpr ⟨fun c hc => ?_, fun c hc => ?_⟩
    · rw [h.down c hc]
      constructor
      · rintro ⟨e, he, hx⟩
        exact ⟨e, List.mem_append_left _ he, hx⟩
      · rintro ⟨e, he, x, hx, hdown, hmem⟩
        obtain he | he := List.mem_append.mp he
        · exact ⟨e, he, x, hx, hdown, hmem⟩
        · exact absurd (h'.asked e he x hx hmem) (hdisjoint _ (hin c hc))
    · rw [h'.down c hc]
      constructor
      · rintro ⟨e, he, hx⟩
        exact ⟨e, List.mem_append_right _ he, hx⟩
      · rintro ⟨e, he, x, hx, hdown, hmem⟩
        obtain he | he := List.mem_append.mp he
        · exact absurd (hin' c hc) (hdisjoint _ (h.asked e he x hx hmem))
        · exact ⟨e, he, x, hx, hdown, hmem⟩
  asked := List.forall_mem_append.mpr
    ⟨fun e he x hx => List.Subset.trans (h.asked e he x hx) (List.subset_append_left _ _),
      fun e he x hx => List.Subset.trans (h'.asked e he x hx) (List.subset_append_right _ _)⟩

/-- What the batches of a pass come to. -/
structure AllRan (convert : VarValue → DataType → Except String Value) (v1 : Bool)
    (answers : List Answer) (batches : List (Bool × List ObjectPoint))
    (f : Fetched) : Prop where
  ran : Ran convert (batches.flatMap Prod.snd) (endings v1 (batches.map Prod.snd) answers) f
  timeouts : (∀ request ∈ f.sent.dropLast, request.2.isTimeout = false) ↔
    ∀ e ∈ (endings v1 (batches.map Prod.snd) answers).dropLast, ∀ x ∈ e, x.2.isTimeout = false
  sent : batches ≠ [] → f.sent ≠ []

/-- A pass over all batches asks for each point and reports it once. -/
theorem fetchAll_ran (batches : List (Bool × List ObjectPoint)) (hne : ∀ b ∈ batches, b.2 ≠ [])
    (hnodup : (batches.flatMap Prod.snd).Nodup) (answers : List Answer) {rest : List Answer}
    (h : fetchAll convert v1 batches answers = some (f, rest)) :
    AllRan convert v1 answers batches f := by
  induction batches generalizing answers f rest with
  | nil =>
    cases h
    exact ⟨⟨List.Perm.nil, by simp, by simp, le_rfl, by simp, by simp [endings]⟩,
      by simp [endings], fun hnil => absurd rfl hnil⟩
  | cons b batches ih =>
    obtain ⟨bulk, batch⟩ := b
    obtain ⟨hbatch, hne⟩ := List.forall_mem_cons.mp hne
    rw [List.flatMap_cons, List.nodup_append] at hnodup
    obtain ⟨hnodup₁, hnodup₂, hdisjoint⟩ := hnodup
    simp only [fetchAll] at h
    cases hfetch : fetchBatch convert v1 bulk answers batch with
    | none =>
      rw [hfetch] at h
      cases h
    | some r =>
      obtain ⟨first, answers'⟩ := r
      rw [hfetch] at h
      obtain ⟨⟨f', rest'⟩, hall, heq⟩ := Option.map_eq_some_iff.mp h
      cases heq
      have hfirst := fetchBatch_ran answers batch hnodup₁ hfetch
      have hothers := ih hne hnodup₂ answers' hall
      have hends : endings v1 (batch :: batches.map Prod.snd) answers =
          (ending v1 answers batch).1 :: endings v1 (batches.map Prod.snd) answers' := by
        rw [endings, hfirst.rest]
      refine ⟨?_, ?_, fun _ hnil => hfirst.sent hbatch (List.append_eq_nil_iff.mp hnil).1⟩
      · rw [List.map_cons, hends]
        exact hfirst.ran.append hothers.ran fun p hp hp' => hdisjoint p hp p hp' rfl
      · rw [List.map_cons, hends]
        dsimp only
        cases batches with
        | nil =>
          -- the last batch
          have hsent : f'.sent = [] := by
            cases hall
            rfl
          rw [hsent, List.append_nil]
          exact iff_of_true hfirst.alone.before (by simp [endings])
        | cons b batches =>
          rw [List.dropLast_append_of_ne_nil (hothers.sent (List.cons_ne_nil b batches)),
            List.forall_mem_append, hfirst.alone.all, hothers.timeouts, List.map_cons, endings,
            List.dropLast_cons_of_ne_nil (List.cons_ne_nil _ _), List.forall_mem_cons]

/-! ## The order of the points -/

theorem swapIn_perm (sorted : List ObjectPoint × List ObjectPoint) (p : ObjectPoint) :
    ((swapIn sorted p).1 ++ (swapIn sorted p).2).Perm (sorted.1 ++ sorted.2 ++ [p]) := by
  obtain ⟨scalars, others⟩ := sorted
  unfold swapIn
  dsimp only
  split
  · cases others with
    | nil => simp
    | cons q others =>
      dsimp only
      rw [List.append_assoc, List.append_assoc]
      refine List.Perm.append_left scalars ?_
      have hback : (others ++ [q]).Perm (q :: others) := List.perm_append_singleton q others
      exact List.perm_append_comm.trans (hback.append_right [p])
  · simp

theorem sortDue_perm (due : List ObjectPoint) :
    ((sortDue due).1 ++ (sortDue due).2).Perm due := by
  have hfold : ∀ (due : List ObjectPoint) (sorted : List ObjectPoint × List ObjectPoint),
      ((due.foldl swapIn sorted).1 ++ (due.foldl swapIn sorted).2).Perm
        (sorted.1 ++ sorted.2 ++ due) := by
    intro due
    induction due with
    | nil => exact fun sorted => by simp
    | cons p due ih =>
      intro sorted
      have hswap := (swapIn_perm sorted p).append_right due
      rw [List.append_assoc _ [p] due, List.singleton_append] at hswap
      exact (ih (swapIn sorted p)).trans hswap
  exact hfold due ([], [])

theorem flatten_batches (model : DeviceModel) (due : List ObjectPoint) :
    ((batches model due).flatMap Prod.snd).Perm due := by
  unfold batches
  dsimp only
  rw [List.flatMap_append, List.flatMap_map, List.flatMap_map]
  simp only [List.flatMap_id', Chunks.flatten_toChunks]
  exact sortDue_perm due

theorem batch_ne_nil {model : DeviceModel} {due : List ObjectPoint} {b : Bool × List ObjectPoint}
    (hb : b ∈ batches model due) : b.2 ≠ [] := by
  unfold batches at hb
  rw [List.mem_append, List.mem_map, List.mem_map] at hb
  obtain ⟨l, hl, rfl⟩ | ⟨l, hl, rfl⟩ := hb <;> exact Chunks.ne_nil_of_mem_toChunks hl

/-! ## The pass -/

def cachedOf (cache : List Cached) (p : ObjectPoint) : Option Cached :=
  cache.find? fun c => c.point.id == p.id

/-- Whether the transport failed for a point. -/
def lost (cache : List Cached) (p : ObjectPoint) : Bool := (cachedOf cache p).any Cached.down

/-- **Pass**: where everything is cached, it publishes a sample of every point unless the last of them
was not lost and another one was. -/
theorem readAll_points (due : List ObjectPoint)
    (hcached : ∀ p ∈ due, ∃ c, cachedOf cache p = some c ∧ c.sample.point = p.id) :
    (readAll cache (due.countP (lost cache)) due).map Sample.point = due.map ObjectPoint.id ↔
      ((∃ p ∈ due, lost cache p = true) → ∃ p ∈ due.getLast?, lost cache p = true) := by
  induction due with
  | nil => simp [readAll]
  | cons p rest ih =>
    obtain ⟨⟨c, hc, hpoint⟩, hrest⟩ := List.forall_mem_cons.mp hcached
    -- the session was lost over a point if its cached answer says so
    have hlost : lost cache p = c.down := by
      unfold lost
      rw [hc]
      rfl
    have hread : readAll cache ((p :: rest).countP (lost cache)) (p :: rest) =
        if c.down then
          if 1 < (p :: rest).countP (lost cache) then
            c.sample :: readAll cache ((p :: rest).countP (lost cache) - 1) rest
          else [c.sample]
        else c.sample :: readAll cache ((p :: rest).countP (lost cache)) rest := by
      unfold cachedOf at hc
      rw [readAll, hc]
    have hih := ih hrest
    rw [hread]
    cases hdown : c.down with
    | false =>
      rw [hdown] at hlost
      rw [List.countP_cons_of_neg (by simp [hlost]), if_neg Bool.false_ne_true, List.map_cons,
        List.map_cons, hpoint, List.cons_inj_right, hih]
      cases rest with
      | nil => simp [hlost]
      | cons q rest => simp [hlost]
    | true =>
      rw [hdown] at hlost
      rw [List.countP_cons_of_pos hlost, if_pos rfl]
      by_cases hmore : ∃ q ∈ rest, lost cache q = true
      · -- a later point carries the verdict
        have hcount : 1 < rest.countP (lost cache) + 1 :=
          Nat.lt_add_of_pos_left (List.countP_pos_iff.mpr hmore)
        rw [if_pos hcount, Nat.add_sub_cancel, List.map_cons, List.map_cons, hpoint,
          List.cons_inj_right, hih]
        have hne : rest ≠ [] := fun hnil => by
          obtain ⟨q, hq, -⟩ := hmore
          rw [hnil] at hq
          cases hq
        obtain ⟨r, rest, rfl⟩ := List.exists_cons_of_ne_nil hne
        rw [List.getLast?_cons_cons]
        exact ⟨fun h _ => h hmore, fun h _ => h ⟨p, List.mem_cons_self, hlost⟩⟩
      · have hcount : rest.countP (lost cache) = 0 := by
          rw [List.countP_eq_zero]
          exact fun q hq hq' => hmore ⟨q, hq, hq'⟩
        rw [hcount, if_neg (Nat.lt_irrefl 1), List.map_singleton, List.map_cons, hpoint]
        cases rest with
        | nil => simp [hlost]
        | cons q rest =>
          refine iff_of_false (by simp) fun h => ?_
          obtain ⟨r, hr, hlostr⟩ := h ⟨p, List.mem_cons_self, hlost⟩
          rw [List.getLast?_cons_cons] at hr
          exact hmore ⟨r, List.mem_of_getLast? hr, hlostr⟩

/-- A sample is of a due point, from the cache. -/
theorem mem_readAll {pending : Nat} {due : List ObjectPoint}
    (hcached : ∀ p ∈ due, ∃ c, cachedOf cache p = some c) {x : Sample}
    (hx : x ∈ readAll cache pending due) :
    ∃ p ∈ due, ∃ c, cachedOf cache p = some c ∧ x = c.sample := by
  induction due generalizing pending with
  | nil => cases hx
  | cons p rest ih =>
    obtain ⟨⟨c, hc⟩, hrest⟩ := List.forall_mem_cons.mp hcached
    have hothers : ∀ pending, x ∈ readAll cache pending rest →
        ∃ p' ∈ p :: rest, ∃ c, cachedOf cache p' = some c ∧ x = c.sample := fun pending h => by
      obtain ⟨p', hp', hsample⟩ := ih hrest h
      exact ⟨p', List.mem_cons_of_mem _ hp', hsample⟩
    have hfind := hc
    unfold cachedOf at hfind
    rw [readAll, hfind] at hx
    dsimp only at hx
    split at hx
    · split at hx
      · obtain rfl | hx := List.mem_cons.mp hx
        · exact ⟨p, List.mem_cons_self, c, hc, rfl⟩
        · exact hothers _ hx
      · rw [List.mem_singleton.mp hx]
        exact ⟨p, List.mem_cons_self, c, hc, rfl⟩
    · obtain rfl | hx := List.mem_cons.mp hx
      · exact ⟨p, List.mem_cons_self, c, hc, rfl⟩
      · exact hothers _ hx

theorem cachedOf_point {due : List ObjectPoint} (hids : (due.map ObjectPoint.id).Nodup)
    (honce : (cache.map Cached.point).Perm due) {c : Cached} (hc : c ∈ cache) :
    cachedOf cache c.point = some c := by
  have hcacheIds : (cache.map fun c => c.point.id).Nodup := by
    have hmap := (honce.map ObjectPoint.id).nodup_iff.mpr hids
    rwa [List.map_map] at hmap
  unfold cachedOf
  have hsome : (cache.find? fun c' => c'.point.id == c.point.id).isSome = true :=
    List.find?_isSome.mpr ⟨c, hc, beq_self_eq_true _⟩
  obtain ⟨c', hc'⟩ := Option.isSome_iff_exists.mp hsome
  have hid : c'.point.id = c.point.id := beq_iff_eq.mp (List.find?_some hc' :)
  rw [hc', List.inj_on_of_nodup_map hcacheIds (List.mem_of_find?_eq_some hc') hc hid]

/-! ## It ends -/

/-- With enough answers a batch ends. -/
theorem fetchBatch_ends (answers : List Answer) (todo : List ObjectPoint)
    (h : todo.length ≤ answers.length) :
    ∃ f rest, fetchBatch convert v1 bulk answers todo = some (f, rest) ∧
      answers.length ≤ rest.length + todo.length := by
  induction answers generalizing todo with
  | nil =>
    obtain rfl : todo = [] := List.length_eq_zero_iff.mp (Nat.le_zero.mp h)
    exact ⟨_, _, rfl, le_rfl⟩
  | cons answer answers ih =>
    cases todo with
    | nil => exact ⟨_, _, rfl, le_rfl⟩
    | cons p others =>
      have htodo : 1 ≤ (p :: others).length := Nat.le_add_left 1 others.length
      have hone : (answer :: answers).length ≤ answers.length + (p :: others).length :=
        Nat.add_le_add_left htodo answers.length
      simp only [fetchBatch]
      generalize p :: others = todo at h htodo hone ⊢
      cases answer with
      | error failure => exact ⟨_, _, rfl, hone⟩
      | ok response =>
        dsimp only
        by_cases hstatus : response.errstat = 0
        · rw [if_pos hstatus]
          exact ⟨_, _, rfl, hone⟩
        · rw [if_neg hstatus]
          cases htaken : takenOut v1 todo.length response with
          | none => exact ⟨_, _, rfl, hone⟩
          | some i =>
            have hlength := List.length_eraseIdx_of_lt (lt_of_takenOut htaken)
            rw [List.length_cons] at h
            obtain ⟨f, rest, hfetch, hrest⟩ := ih (todo.eraseIdx i)
              (by rw [hlength]; exact Nat.sub_le_of_le_add h)
            refine ⟨_, rest, by dsimp only; rw [hfetch]; rfl, ?_⟩
            rw [hlength] at hrest
            rw [List.length_cons]
            omega

theorem fetchAll_ends (batches : List (Bool × List ObjectPoint)) (answers : List Answer)
    (h : (batches.flatMap Prod.snd).length ≤ answers.length) :
    ∃ f, fetchAll convert v1 batches answers = some f := by
  induction batches generalizing answers with
  | nil => exact ⟨_, rfl⟩
  | cons b batches ih =>
    obtain ⟨bulk, batch⟩ := b
    rw [List.flatMap_cons, List.length_append] at h
    obtain ⟨first, rest, hfetch, hrest⟩ : ∃ f rest,
        fetchBatch convert v1 bulk answers batch = some (f, rest) ∧ _ :=
      fetchBatch_ends answers batch (le_trans (Nat.le_add_right _ _) h)
    obtain ⟨f, hall⟩ := ih rest (by dsimp only at h; omega)
    rw [fetchAll, hfetch]
    dsimp only
    rw [hall]
    exact ⟨_, rfl⟩

/-! ## When a pass is complete -/

/-- A batch that is left over has points. -/
theorem ending_ne_nil (answers : List Answer) (todo : List ObjectPoint) :
    ∀ x ∈ (ending v1 answers todo).1, x.1 ≠ [] := by
  induction answers generalizing todo with
  | nil => cases todo <;> exact fun x hx => by cases hx
  | cons answer answers ih =>
    cases todo with
    | nil => exact fun x hx => by cases hx
    | cons p others =>
      have htodo : p :: others ≠ [] := List.cons_ne_nil p others
      have hone : ∀ x ∈ some (p :: others, answer), x.1 ≠ [] := fun x hx => by
        cases hx
        exact htodo
      simp only [ending]
      generalize p :: others = todo at hone ⊢
      cases answer with
      | error failure => exact hone
      | ok response =>
        dsimp only
        cases if response.errstat = 0 then none else takenOut v1 todo.length response with
        | none => exact hone
        | some i => exact ih (todo.eraseIdx i)

theorem endings_ne_nil (batches : List (List ObjectPoint)) (answers : List Answer) :
    ∀ e ∈ endings v1 batches answers, ∀ x ∈ e, x.1 ≠ [] := by
  induction batches generalizing answers with
  | nil => exact fun e he => by cases he
  | cons batch batches ih =>
    exact List.forall_mem_cons.mpr ⟨ending_ne_nil answers batch, ih _⟩

theorem Ran.cached (h : Ran convert points ends f) (hperm : points.Perm due)
    (hids : (due.map ObjectPoint.id).Nodup) (hp : p ∈ due) :
    ∃ c ∈ f.cached, c.point = p ∧ cachedOf f.cached p = some c := by
  have honce := h.once.trans hperm
  obtain ⟨c, hc, rfl⟩ := List.mem_map.mp (honce.mem_iff.mpr hp)
  exact ⟨c, hc, rfl, cachedOf_point hids honce hc⟩

theorem Ran.lost_iff (h : Ran convert points ends f) (hperm : points.Perm due)
    (hids : (due.map ObjectPoint.id).Nodup) (hp : p ∈ due) :
    lost f.cached p = true ↔ ∃ e ∈ ends, ∃ x ∈ e, Ending.down x = true ∧ p ∈ x.1 := by
  obtain ⟨c, hc, rfl, hfind⟩ := h.cached hperm hids hp
  unfold lost
  rw [hfind, Option.any_some]
  exact h.down c hc

theorem Ran.pending (h : Ran convert points ends f) (hperm : points.Perm due)
    (hids : (due.map ObjectPoint.id).Nodup) :
    f.cached.countP Cached.down = due.countP (lost f.cached) := by
  rw [← (h.once.trans hperm).countP_eq, List.countP_map]
  apply List.countP_congr
  intro c hc
  unfold lost
  rw [Function.comp_apply, cachedOf_point hids (h.once.trans hperm) hc]
  rfl

theorem Ran.down_iff (h : Ran convert points ends f) (hperm : points.Perm due)
    (hids : (due.map ObjectPoint.id).Nodup) (hne : ∀ e ∈ ends, ∀ x ∈ e, x.1 ≠ []) :
    (∃ e ∈ ends, ∃ x ∈ e, Ending.down x = true) ↔ ∃ p ∈ due, lost f.cached p = true := by
  constructor
  · rintro ⟨e, he, x, hx, hdown⟩
    obtain ⟨p, hp⟩ := List.exists_mem_of_ne_nil x.1 (hne e he x hx)
    have hdue : p ∈ due := hperm.mem_iff.mp (h.asked e he x hx hp)
    exact ⟨p, hdue, (h.lost_iff hperm hids hdue).mpr ⟨e, he, x, hx, hdown, hp⟩⟩
  · rintro ⟨p, hp, hlost⟩
    obtain ⟨e, he, x, hx, hdown, -⟩ := (h.lost_iff hperm hids hp).mp hlost
    exact ⟨e, he, x, hx, hdown⟩

/-- **Pass**: it is complete exactly where the agent spares it. -/
theorem polled_iff {model : DeviceModel} {due : List ObjectPoint}
    (hids : (due.map ObjectPoint.id).Nodup) {answers : List Answer} {pass : Pass}
    (h : poll convert model answers due = some pass) :
    Complete convert due pass ↔
      Spares due (endings (model.version == .v1) ((batches model due).map Prod.snd) answers) := by
  obtain ⟨⟨f, rest⟩, hfetch, rfl⟩ := Option.map_eq_some_iff.mp h
  have hperm := flatten_batches model due
  obtain ⟨hran, htimeouts, -⟩ := fetchAll_ran (batches model due) (fun b hb => batch_ne_nil hb)
    (hperm.nodup_iff.mpr (List.Nodup.of_map _ hids)) answers hfetch
  have hne := @endings_ne_nil (model.version == .v1) ((batches model due).map Prod.snd) answers
  generalize endings (model.version == .v1) ((batches model due).map Prod.snd) answers = ends
    at hran htimeouts hne ⊢
  have hcached : ∀ p ∈ due, ∃ c ∈ f.cached, c.point = p ∧ cachedOf f.cached p = some c :=
    fun _ => hran.cached hperm hids
  -- a sample of every point is what the last of them decides
  have heach : (readAll f.cached (f.cached.countP Cached.down) due).map Sample.point =
        due.map ObjectPoint.id ↔
      ((∃ e ∈ ends, ∃ x ∈ e, Ending.down x = true) →
        ∃ p ∈ due.getLast?, ∃ e ∈ ends, ∃ x ∈ e, Ending.down x = true ∧ p ∈ x.1) := by
    rw [hran.pending hperm hids, hran.down_iff hperm hids hne, readAll_points due fun p hp => by
      obtain ⟨c, hc, rfl, hfind⟩ := hcached p hp
      exact ⟨c, hfind, hran.own c hc⟩]
    refine imp_congr_right fun _ => exists_congr fun p => and_congr_right fun hp => ?_
    exact hran.lost_iff hperm hids (List.mem_of_getLast? hp)
  constructor
  · rintro ⟨hpoints, -, -, hlast⟩
    exact ⟨htimeouts.mp hlast, heach.mp hpoints⟩
  · rintro ⟨hspared, hlast⟩
    refine ⟨heach.mpr hlast, fun x hx hgood => ?_, ?_, htimeouts.mpr hspared⟩
    · obtain ⟨p, hp, c, hfind, rfl⟩ := mem_readAll (fun p hp => by
        obtain ⟨c, -, -, hfind⟩ := hcached p hp
        exact ⟨c, hfind⟩) hx
      obtain ⟨c', hc', rfl, hfind'⟩ := hcached p hp
      rw [hfind'] at hfind
      cases hfind
      exact ⟨_, hp, hran.own _ hc', hran.good _ hc' hgood⟩
    · exact hperm.length_eq ▸ hran.bounded

/-- Whatever the network does, a poll of the Rust connector takes one sample of every point, good only
of what it asked for, and asks for nothing after a call that stops the cycle; one of the C connector
does exactly where the agent spares it. -/
theorem polls_complete {σ Io α : Type} (lib : Library σ Io α) (model : DeviceModel)
    (convert : VarValue → DataType → Except String Value) :
    (∀ (ts : Nat) (points : List ObjectPoint) (calls : List (List (Turn Io))) (s : Session σ),
      (∀ turns ∈ calls, Lasts s.retries turns) → points.length ≤ calls.length →
        ∃ samples s' log, readObjects lib model ts points calls s = (some samples, s') ∧
          Snmp.Ran lib points s s' log samples ∧ OnlyLastStops log) ∧
    ∀ (due : List ObjectPoint) (answers : List Answer),
      (due.map ObjectPoint.id).Nodup → due.length ≤ answers.length →
        ∃ pass, poll convert model answers due = some pass ∧
          (Complete convert due pass ↔
            Spares due
              (endings (model.version == .v1) ((batches model due).map Prod.snd) answers)) := by
  constructor
  · intro ts points calls s hlasts hcalls
    obtain ⟨samples, s', hread⟩ : ∃ samples s', readObjects lib model ts points calls s =
        (some samples, s') := readObjects_ends model ts s hlasts hcalls
    obtain ⟨log, hran, hstops⟩ := readObjects_ran model ts hread
    exact ⟨samples, s', log, hread, hran, hstops⟩
  · intro due answers hids hanswers
    obtain ⟨f, hfetch⟩ : ∃ f, fetchAll convert (model.version == .v1) (batches model due) answers =
        some f := by
      apply fetchAll_ends
      rwa [(flatten_batches model due).length_eq]
    have hpoll : poll convert model answers due = some
        { samples := readAll f.1.cached (f.1.cached.countP Cached.down) due, sent := f.1.sent } := by
      unfold poll
      rw [hfetch]
      rfl
    exact ⟨_, hpoll, polled_iff hids hpoll⟩

end

def gauge (id : String) (arc : UInt32) : ObjectPoint :=
  { id, oid := some [1, 3, 6, arc], access := .read, mode := .typed, datatype := some .uint32
    unit := none, transform := fun value => value }

/-- A meter of two gauges, which are asked for one at a time. -/
def meter : DeviceModel :=
  { name := "meter", version := .v2c, community := [], writeCommunity := [], retries := 0
    after := "2.000", maxVarbinds := 1, bulk := false, pinnedEngineId := none
    points := [gauge "energy" 1, gauge "power" 2] }

def seven : VarValue := { kind := .gauge32, raw := [7], decoded := .unsigned 7 }

/-- The response to the request for a gauge. -/
def reading (arc : UInt32) : Answer :=
  .ok { errstat := 0, errindex := 0, vars := [{ name := some [1, 3, 6, arc], value := seven }] }

/-- An agent that has the same value for every object that a GET asks for. -/
def sevens : Library Unit Unit Request where
  init s _ := (some (.ok ()), s)
  request s asked _ := (some (.ok asked.request), s)
  pdu request :=
    { version := some .v2c, community := [], messageType := .response, reqId := 0, errorStatus := 0
      errorIndex := 0, v1TrapInfo := none
      varbinds := match request with
        | .get oids => oids.map fun oid => .ok { name := oid, value := seven }
        | _ => [] }
  engineId _ := []

/-- The time that a call can take. -/
def patience : List (Turn Unit) := List.replicate 2 { discovery := [()], wait := some () }

theorem lasts_patience : Lasts 0 patience where
  enough := by decide
  discovery := by decide
  waits := by decide

def opened : Session Unit :=
  { session := (), version := .v2c, retries := 0, pinnedEngineId := none
    discoveredEngineId := none, ready := true, calls := 0 }

/-- A meter with two points. -/
theorem polls_complete_meter :
    (∃ samples s' log, readObjects sevens meter 0 meter.points [patience, patience] opened =
        (some samples, s') ∧
      Snmp.Ran sevens meter.points opened s' log samples ∧ OnlyLastStops log) ∧
    ∃ pass, poll VarValue.convert meter [reading 1, reading 2] meter.points = some pass ∧
      Complete VarValue.convert meter.points pass := by
  constructor
  · refine (polls_complete sevens meter VarValue.convert).1 0 meter.points [patience, patience]
      opened ?_ le_rfl
    exact List.forall_mem_cons.mpr ⟨lasts_patience, List.forall_mem_singleton.mpr lasts_patience⟩
  · obtain ⟨pass, hpoll, hiff⟩ := (polls_complete sevens meter VarValue.convert).2 meter.points
      [reading 1, reading 2] (by decide) le_rfl
    refine ⟨pass, hpoll, hiff.mpr ⟨?_, ?_⟩⟩
    · intro e he x hx
      obtain rfl : e = some ([gauge "energy" 1], reading 1) := List.mem_singleton.mp he
      cases hx
      rfl
    · rintro ⟨e, he, x, hx, hdown⟩
      have hends : e = some ([gauge "energy" 1], reading 1) ∨
          e = some ([gauge "power" 2], reading 2) := by
        obtain he | he := List.mem_cons.mp he
        · exact .inl he
        · exact .inr (List.mem_singleton.mp he)
      obtain rfl | rfl := hends <;>
      · cases hx
        cases hdown

/-- The first of the gauges is not answered: the second is asked for all the same, and its value is not
published. -/
theorem asked_on :
    ∃ pass, poll VarValue.convert meter [.error (.timeout "timeout"), reading 2] meter.points =
        some pass ∧
      pass.samples.map Sample.point = ["energy"] ∧ pass.sent.length = 2 ∧
      ¬Complete VarValue.convert meter.points pass := by
  refine ⟨_, rfl, rfl, rfl, fun h => ?_⟩
  have hlast := h.last (.get [[1, 3, 6, 1]], .error (.timeout "timeout")) List.mem_cons_self
  cases hlast

end TedgeDot.Snmp.Tdot
