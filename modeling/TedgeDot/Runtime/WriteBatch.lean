import TedgeDot.Lib.Machine
import TedgeDot.Runtime.Commands
import TedgeDot.Runtime.EngineeringUnits

/-!
# Write batches

`handle_write_batch` of `runtime.rs`: the writes of one request go to the protocol module one after
the other, each converted to raw units first, up to the first that fails. The module is any machine:
its state and what it does with a request are given, and so is when it does not return in time.

- `parseBatchWrites_iff`: which requests parse, and the writes they ask for.
- `runWrites_spec`: the loop performs the writes up to the first failure, and no others.
- `batch_performed`: what a request publishes and sends, for every module.
-/

namespace TedgeDot.WriteBatch

open Commands (Answer attempt batchResult statusPayload withOrigin asArray)
open EngineeringUnits (CommandRequest WriteError Point rawUnitRequest)

/-! ## The request -/

structure BatchWrite where
  point : String
  value : Option Json
  raw : Option String

/-- One entry of `writes`. -/
def parseWrite (i : Nat) (w : Json) : Except String BatchWrite :=
  match ((w.get "point").bind Json.asStr).filter fun p => !p.isEmpty with
  | none => .error s!"writes[{i}] has no `point`"
  | some point =>
    let value := (w.get "value").filter fun v => !v.isNull
    let raw := (w.get "raw").bind Json.asStr
    if value.isNone && raw.isNone then
      .error s!"writes[{i}] ({point}) has neither `value` nor `raw`"
    else .ok { point, value, raw }

/-- The entries of `writes` from a number on. -/
def parseFrom (i : Nat) : List Json → Except String (List BatchWrite)
  | [] => .ok []
  | w :: rest =>
    match parseWrite i w with
    | .error e => .error e
    | .ok write =>
      match parseFrom (i + 1) rest with
      | .error e => .error e
      | .ok writes => .ok (write :: writes)

def parseBatchWrites (json : Json) : Except String (List BatchWrite) :=
  match (json.get "writes").bind asArray with
  | none => .error "write-batch request needs a `writes` array"
  | some [] => .error "write-batch request has no writes"
  | some writes => parseFrom 0 writes

/-! ## The module -/

structure CommandResult where
  point : String
  value : Option Json
  raw : Option String

/-- What becomes of a call of the module: it returns, with a result or an error as it is displayed,
or does not return in time. -/
inductive Reply where
  | returned (result : Except String CommandResult)
  | late

/-- A protocol module: what it does with a `write` of a device's point. -/
structure Module (σ : Type) where
  execute : σ → String → CommandRequest → Reply × σ

/-- `DeviceConfig`, as far as a write needs it. -/
structure Device where
  name : String
  points : List Point

/-- What is fixed while a batch runs: the configuration, the operation timeout, and the code outside
the SDK. -/
structure Setting where
  devices : List Device
  /-- `Limits::operation`, in nanoseconds. -/
  operation : Nat
  /-- `10f64.powi`. -/
  powi : Int → Float
  /-- `Value::to_string` of `serde_json`. -/
  compact : Json → String
  /-- `!=` of `serde_json` values. -/
  differ : Option Json → Option Json → Bool
  /-- How an error is displayed. -/
  display : WriteError → String

section Handler

variable {σ : Type} (setting : Setting) (module : Module σ) (device : String)

/-- `raw_unit_request`. -/
def requestFor (request : CommandRequest) : Except WriteError CommandRequest :=
  match (setting.devices.find? (·.name == device)).bind fun d =>
      (d.points.find? (·.id == request.point)).filter (·.access.canWrite) with
  | none => .ok request
  | some point => rawUnitRequest setting.powi setting.compact point request

def bounded (what : String) : Reply → Except String CommandResult
  | .returned result => result
  | .late => .error
      s!"transport error: {what} did not return within {setting.operation / 10 ^ 9}s (operation_timeout)"

/-- One attempted write: the request the module got, if it got one, and the answer. -/
structure Attempt where
  sent : Option CommandRequest
  answer : Answer

/-- `execute_write` of one entry, under the operation bound. -/
def executeWrite (s : σ) (w : BatchWrite) : σ × Attempt :=
  let request : CommandRequest := { point := w.point, value := w.value, raw := w.raw }
  match requestFor setting device request with
  | .error e => (s, ⟨none, .refused (setting.display e)⟩)
  | .ok raw =>
    let (reply, s') := module.execute s device raw
    match bounded setting "write" reply with
    | .error e => (s', ⟨some raw, .refused e⟩)
    | .ok result =>
      let value := if setting.differ raw.value request.value then request.value else result.value
      (s', ⟨some raw, .done result.point value (result.raw.map Json.string)⟩)

/-- What the handler does, in order: it publishes on the command topic, or has the module write. -/
inductive Effect where
  | publish (payload : JsonMap)
  | write (request : CommandRequest)

/-- What the loop over the writes leaves. -/
structure Run (σ : Type) where
  effects : List Effect
  results : List Json
  failure : Option String
  state : σ

def runWrites (s : σ) : List BatchWrite → Run σ
  | [] => ⟨[], [], none, s⟩
  | w :: rest =>
    let (s', a) := executeWrite setting module device s w
    let sent := (a.sent.map Effect.write).toList
    match a.answer with
    | .refused reason =>
      ⟨sent, [attempt w.point a.answer], some s!"write to {w.point} failed: {reason}", s'⟩
    | .done .. =>
      let run := runWrites s' rest
      { run with
        effects := sent ++ run.effects
        results := attempt w.point a.answer :: run.results }

/-- `handle_write_batch`. The client takes a message, or is gone: then the handler returns. -/
def handleWriteBatch (s : σ) (json : Json) (taken : Bool) : List Effect × σ :=
  let origin := json.get "origin"
  match parseBatchWrites json with
  | .error reason =>
    ([.publish (withOrigin
      (statusPayload "failed" [("reason", .string reason), ("results", .array [])]) origin)], s)
  | .ok writes =>
    let executing := Effect.publish (withOrigin (statusPayload "executing"
      [("points", .array (writes.map fun w => .string w.point))]) origin)
    if !taken then ([executing], s)
    else
      let run := runWrites setting module device s writes
      (executing :: run.effects ++
        [.publish (withOrigin (batchResult run.results run.failure) origin)], run.state)

end Handler

/-! ## What parses -/

/-- An entry with a point, and with a value or raw octets. -/
def IsWrite (w : Json) : Prop :=
  (∃ point, w.get "point" = some (.string point) ∧ point ≠ "") ∧
    ((∃ v, w.get "value" = some v ∧ v.isNull = false) ∨ ∃ r, w.get "raw" = some (.string r))

def readWrite (w : Json) : BatchWrite where
  point := ((w.get "point").bind Json.asStr).getD ""
  value := (w.get "value").filter fun v => !v.isNull
  raw := (w.get "raw").bind Json.asStr

/-- A request with a batch of writes. -/
structure IsBatch (json : Json) (items : List Json) : Prop where
  array : json.get "writes" = some (.array items)
  nonempty : items ≠ []
  writes : ∀ w ∈ items, IsWrite w

theorem asStr_eq_some {v : Json} {s : String} : v.asStr = some s ↔ v = .string s := by
  cases v <;> simp [Json.asStr]

/-- What is taken for a write. -/
theorem parseWrite_iff {i : Nat} {w : Json} {write : BatchWrite} :
    parseWrite i w = .ok write ↔ IsWrite w ∧ write = readWrite w := by
  have hpoint {point : String} : (((w.get "point").bind Json.asStr).filter fun p => !p.isEmpty) =
      some point ↔ w.get "point" = some (.string point) ∧ point ≠ "" := by
    rw [Option.filter_eq_some_iff, Option.bind_eq_some_iff]
    simp [asStr_eq_some]
  have hvalue : ((w.get "value").filter fun v => !v.isNull).isNone = false ↔
      ∃ v, w.get "value" = some v ∧ v.isNull = false := by
    rw [Option.isNone_eq_false_iff, Option.isSome_iff_exists]
    simp [Option.filter_eq_some_iff]
  have hraw : ((w.get "raw").bind Json.asStr).isNone = false ↔
      ∃ r, w.get "raw" = some (.string r) := by
    rw [Option.isNone_eq_false_iff, Option.isSome_iff_exists]
    simp [Option.bind_eq_some_iff, asStr_eq_some]
  -- a write has a value or raw bytes
  have hcontent : (((w.get "value").filter fun v => !v.isNull).isNone &&
      ((w.get "raw").bind Json.asStr).isNone) = false ↔
      (∃ v, w.get "value" = some v ∧ v.isNull = false) ∨ ∃ r, w.get "raw" = some (.string r) := by
    rw [Bool.and_eq_false_iff, hvalue, hraw]
  unfold parseWrite IsWrite
  split
  · rename_i hnone
    constructor
    · intro h
      cases h
    · rintro ⟨⟨⟨point, hget⟩, -⟩, -⟩
      rw [hpoint.mpr hget] at hnone
      cases hnone
  · rename_i point hsome
    have hget := hpoint.mp hsome
    have hread : readWrite w = ⟨point, (w.get "value").filter fun v => !v.isNull,
        (w.get "raw").bind Json.asStr⟩ := by
      simp [readWrite, hget.1, Json.asStr]
    simp only
    split
    · rename_i hempty
      constructor
      · intro h
        cases h
      · rintro ⟨⟨-, hgiven⟩, -⟩
        rw [hcontent.mpr hgiven] at hempty
        cases hempty
    · rename_i hgiven
      rw [Bool.not_eq_true] at hgiven
      constructor
      · intro h
        exact ⟨⟨⟨point, hget⟩, hcontent.mp hgiven⟩, by rw [hread, Except.ok.inj h]⟩
      · rintro ⟨-, rfl⟩
        rw [hread]

/-- And for a list of them. -/
theorem parseFrom_iff {i : Nat} {items : List Json} {writes : List BatchWrite} :
    parseFrom i items = .ok writes ↔ (∀ w ∈ items, IsWrite w) ∧ writes = items.map readWrite := by
  induction items generalizing i writes with
  | nil => simp [parseFrom, eq_comm]
  | cons w rest ih =>
    simp only [List.forall_mem_cons, List.map_cons]
    rw [parseFrom]
    split
    · rename_i e he
      constructor
      · intro h
        cases h
      · rintro ⟨⟨hw, -⟩, -⟩
        rw [parseWrite_iff.mpr ⟨hw, rfl⟩] at he
        cases he
    · rename_i write hwrite
      obtain ⟨hw, rfl⟩ := parseWrite_iff.mp hwrite
      split
      · rename_i e he
        constructor
        · intro h
          cases h
        · rintro ⟨⟨-, hrest⟩, -⟩
          rw [ih.mpr ⟨hrest, rfl⟩] at he
          cases he
      · rename_i parsed hparsed
        obtain ⟨hrest, rfl⟩ := ih.mp hparsed
        constructor
        · intro h
          exact ⟨⟨hw, hrest⟩, (Except.ok.inj h).symm⟩
        · rintro ⟨-, rfl⟩
          rfl

/-- And for a batch. -/
theorem parseBatchWrites_iff {json : Json} {writes : List BatchWrite} :
    parseBatchWrites json = .ok writes ↔
      ∃ items, IsBatch json items ∧ writes = items.map readWrite := by
  have harray {items : List Json} :
      (json.get "writes").bind asArray = some items ↔ json.get "writes" = some (.array items) := by
    rw [Option.bind_eq_some_iff]
    constructor
    · rintro ⟨v, hv, hitems⟩
      cases v <;> simp only [asArray, reduceCtorEq, Option.some.injEq] at hitems
      rw [hv, hitems]
    · intro h
      exact ⟨_, h, rfl⟩
  unfold parseBatchWrites
  split
  · rename_i hnone
    constructor
    · intro h
      cases h
    · rintro ⟨items, hbatch, -⟩
      rw [harray.mpr hbatch.array] at hnone
      cases hnone
  · rename_i hempty
    constructor
    · intro h
      cases h
    · rintro ⟨items, hbatch, -⟩
      rw [harray.mpr hbatch.array] at hempty
      exact absurd (Option.some.inj hempty) hbatch.nonempty
  · rename_i items hne hitems
    rw [parseFrom_iff]
    constructor
    · rintro ⟨hall, rfl⟩
      exact ⟨items, ⟨harray.mp hitems, hne, hall⟩, rfl⟩
    · rintro ⟨items', hbatch, rfl⟩
      rw [harray.mpr hbatch.array] at hitems
      obtain rfl := Option.some.inj hitems
      exact ⟨hbatch.writes, rfl⟩

/-! ## What the loop performs -/

def Succeeded : Answer → Prop
  | .done .. => True
  | .refused _ => False

instance : DecidablePred Succeeded
  | .done .. => .isTrue trivial
  | .refused _ => .isFalse id

section Loop

variable {σ : Type} (setting : Setting) (module : Module σ) (device : String)

/-- The first so many writes in their order, each with what came of it. -/
def tried (s : σ) (writes : List BatchWrite) (k : ℕ) : List (BatchWrite × Attempt) :=
  Machine.log (executeWrite setting module device) s (writes.take k)

/-- What one attempted write sends to the module. -/
def sends (e : BatchWrite × Attempt) : List Effect := (e.2.sent.map Effect.write).toList

/-- The entry one attempted write gets in `results`. -/
def entry (e : BatchWrite × Attempt) : Json := attempt e.1.point e.2.answer

/-- The loop performed the first `k` writes, one after the other, and the last of them is the first
that failed, or the last there is. -/
structure Performed (s : σ) (writes : List BatchWrite) (k : ℕ) : Prop where
  within : k ≤ writes.length
  begun : writes ≠ [] → 0 < k
  succeeded : ∀ e ∈ (tried setting module device s writes k).dropLast, Succeeded e.2.answer
  stopped : k < writes.length →
    ∃ e ∈ (tried setting module device s writes k).getLast?, ¬ Succeeded e.2.answer

/-- Every requested write was performed, and succeeded. -/
def Complete (s : σ) (writes : List BatchWrite) (k : ℕ) : Prop :=
  k = writes.length ∧ ∀ e ∈ tried setting module device s writes k, Succeeded e.2.answer

instance (s : σ) (writes : List BatchWrite) (k : ℕ) :
    Decidable (Complete setting module device s writes k) :=
  inferInstanceAs (Decidable (_ ∧ _))

variable {setting module device}

theorem tried_cons (s : σ) (w : BatchWrite) (rest : List BatchWrite) (k : ℕ) :
    tried setting module device s (w :: rest) (k + 1) =
      (w, (executeWrite setting module device s w).2) ::
        tried setting module device (executeWrite setting module device s w).1 rest k := rfl

/-- The writes are performed in order, up to the first that fails. -/
theorem runWrites_spec (s : σ) (writes : List BatchWrite) :
    ∃ k, Performed setting module device s writes k ∧
      (runWrites setting module device s writes).effects =
        (tried setting module device s writes k).flatMap sends ∧
      (runWrites setting module device s writes).results =
        (tried setting module device s writes k).map entry ∧
      ((runWrites setting module device s writes).failure = none ↔
        Complete setting module device s writes k) ∧
      (runWrites setting module device s writes).state =
        Machine.final (executeWrite setting module device) s (writes.take k) := by
  induction writes generalizing s with
  | nil =>
    refine ⟨0, ⟨Nat.le_refl 0, fun h => absurd rfl h, ?_, ?_⟩, rfl, rfl, ?_, rfl⟩
    · simp [tried]
    · simp
    · simp [runWrites, Complete, tried]
  | cons w rest ih =>
    cases hanswer : (executeWrite setting module device s w).2.answer with
    | refused reason =>
      -- the loop breaks: this write is the last attempted
      have htried : tried setting module device s (w :: rest) 1 =
          [(w, (executeWrite setting module device s w).2)] := rfl
      have hfailed : ¬ Succeeded (executeWrite setting module device s w).2.answer := by
        simp [hanswer, Succeeded]
      refine ⟨1, ⟨by simp, fun _ => Nat.one_pos, ?_, fun _ => ?_⟩, ?_, ?_, ?_, ?_⟩
      · simp [htried]
      · exact ⟨(w, (executeWrite setting module device s w).2), by simp [htried], hfailed⟩
      · simp [runWrites, hanswer, htried, sends]
      · simp [runWrites, hanswer, htried, entry]
      · simp only [runWrites, hanswer, Complete, htried, List.forall_mem_singleton, reduceCtorEq,
          false_iff, not_and]
        exact fun _ hdone => hdone
      · simp [runWrites, hanswer]
    | done point value raw =>
      -- the loop goes on from the state this write leaves
      obtain ⟨k, hperformed, heffects, hresults, hfailure, hstate⟩ :=
        ih (executeWrite setting module device s w).1
      have hsucceeded : Succeeded (executeWrite setting module device s w).2.answer := by
        simp [hanswer, Succeeded]
      refine ⟨k + 1, ⟨?_, fun _ => Nat.succ_pos k, ?_, ?_⟩, ?_, ?_, ?_, ?_⟩
      · simpa using hperformed.within
      · intro e he
        rw [tried_cons] at he
        rcases List.eq_nil_or_concat (tried setting module device
          (executeWrite setting module device s w).1 rest k) with hnil | ⟨before, last, hlast⟩
        · rw [hnil] at he
          cases he
        · have hsplit := hperformed.succeeded
          rw [hlast, List.concat_eq_append, List.dropLast_concat] at hsplit
          rw [hlast, List.concat_eq_append, ← List.cons_append, List.dropLast_concat] at he
          rcases List.mem_cons.mp he with rfl | he
          · exact hsucceeded
          · exact hsplit e he
      · intro hk
        obtain ⟨e, he, hfailed⟩ := hperformed.stopped (by simpa using hk)
        refine ⟨e, ?_, hfailed⟩
        rw [tried_cons, List.getLast?_cons, Option.mem_def.mp he]
        rfl
      · simp only [runWrites, hanswer, tried_cons, List.flatMap_cons, heffects]
        rfl
      · simp only [runWrites, hanswer, tried_cons, List.map_cons, hresults]
        simp only [entry, hanswer]
      · simp only [runWrites, hanswer, hfailure, Complete, tried_cons, List.forall_mem_cons,
          List.length_cons, Nat.add_right_cancel_iff]
        simp [Succeeded]
      · simp only [runWrites, hanswer, hstate, List.take_succ_cons, Machine.final_cons]

/-! ## What a request comes to -/

/-- A payload tells whether what it reports succeeded. -/
def Reports (payload : JsonMap) (success : Prop) [Decidable success] : Prop :=
  payload.get "status" = some (.string (if success then "successful" else "failed"))

theorem get_withOrigin {payload : JsonMap} {origin : Option Json} {key : String}
    (h : key ≠ "origin") : (withOrigin payload origin).get key = payload.get key := by
  cases origin with
  | none => rfl
  | some origin => rw [withOrigin, JsonMap.get_insert, if_neg (Ne.symm h)]

theorem entry_reports (e : BatchWrite × Attempt) :
    ∃ members, entry e = .object members ∧ Reports members (Succeeded e.2.answer) := by
  unfold entry
  cases e.2.answer with
  | done point value raw => exact ⟨_, rfl, rfl⟩
  | refused reason => exact ⟨_, rfl, rfl⟩

theorem batchResult_reports (results : List Json) (failure : Option String)
    (origin : Option Json) :
    (withOrigin (batchResult results failure) origin).get "results" = some (.array results) ∧
      Reports (withOrigin (batchResult results failure) origin) (failure = none) := by
  rw [Reports, get_withOrigin (by decide), get_withOrigin (by decide)]
  cases failure with
  | none => exact ⟨rfl, rfl⟩
  | some reason => exact ⟨rfl, rfl⟩

/-- A request that is no batch is answered `failed`, with no results, and the module is not called.
A batch is announced and, unless the client is gone, its writes go to the module one after the
other up to the first that fails: the results are one entry for each of them, and the last
transition is `successful` exactly when every write was performed and succeeded. -/
theorem batch_performed (s : σ) (json : Json) (taken : Bool) :
    ((¬ ∃ items, IsBatch json items) → ∃ payload,
      handleWriteBatch setting module device s json taken = ([.publish payload], s) ∧
        Reports payload False ∧ payload.get "results" = some (.array [])) ∧
    ∀ items, IsBatch json items →
      ∃ executing, executing.get "status" = some (.string "executing") ∧
        if taken then
          ∃ k terminal, Performed setting module device s (items.map readWrite) k ∧
            handleWriteBatch setting module device s json taken =
              (.publish executing ::
                  (tried setting module device s (items.map readWrite) k).flatMap sends ++
                  [.publish terminal],
                Machine.final (executeWrite setting module device) s
                  ((items.map readWrite).take k)) ∧
            terminal.get "results" = some (.array
              ((tried setting module device s (items.map readWrite) k).map entry)) ∧
            (∀ e ∈ tried setting module device s (items.map readWrite) k, ∃ members,
              entry e = .object members ∧ Reports members (Succeeded e.2.answer)) ∧
            Reports terminal (Complete setting module device s (items.map readWrite) k)
        else handleWriteBatch setting module device s json taken = ([.publish executing], s) := by
  refine ⟨fun hbatch => ?_, fun items hbatch => ?_⟩
  · unfold handleWriteBatch
    split
    · rename_i reason _
      refine ⟨_, rfl, ?_, ?_⟩
      · rw [Reports, get_withOrigin (by decide)]
        rfl
      · rw [get_withOrigin (by decide)]
        rfl
    · rename_i writes hwrites
      obtain ⟨items, hitems, -⟩ := parseBatchWrites_iff.mp hwrites
      exact absurd ⟨items, hitems⟩ hbatch
  -- the payload parses to the writes it lists
  · have hparse : parseBatchWrites json = .ok (items.map readWrite) :=
      parseBatchWrites_iff.mpr ⟨items, hbatch, rfl⟩
    refine ⟨withOrigin (statusPayload "executing"
      [("points", .array ((items.map readWrite).map fun w => .string w.point))])
      (json.get "origin"), ?_, ?_⟩
    · rw [get_withOrigin (by decide)]
      rfl
    · cases taken with
      | false => simp [handleWriteBatch, hparse]
      | true =>
        obtain ⟨k, hperformed, heffects, hresults, hfailure, hstate⟩ :=
          @runWrites_spec σ setting module device s (items.map readWrite)
        obtain ⟨hentries, hreports⟩ := batchResult_reports
          (runWrites setting module device s (items.map readWrite)).results
          (runWrites setting module device s (items.map readWrite)).failure (json.get "origin")
        refine ⟨k, withOrigin (batchResult
          (runWrites setting module device s (items.map readWrite)).results
          (runWrites setting module device s (items.map readWrite)).failure) (json.get "origin"),
          hperformed, ?_, ?_, fun e _ => entry_reports e, ?_⟩
        · simp [handleWriteBatch, hparse, heffects, hstate]
        · rw [hentries, hresults]
        · simpa only [Reports, hfailure] using hreports

end Loop

/-- A module that counts its calls and refuses the point `b`. -/
def refusingB : Module ℕ where
  execute calls _ request :=
    (.returned (if request.point = "b" then .error "no such point"
      else .ok { point := request.point, value := request.value, raw := none }), calls + 1)

/-- The module is not called for the write after the one it refuses. -/
example (setting : Setting) :
    (runWrites { setting with devices := [], differ := fun _ _ => false } refusingB "pump" 0
      [⟨"a", some .null, none⟩, ⟨"b", some .null, none⟩, ⟨"c", some .null, none⟩]).state = 2 := rfl

end TedgeDot.WriteBatch
