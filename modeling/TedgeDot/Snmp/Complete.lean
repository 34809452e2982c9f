import Mathlib.Data.List.Perm.Basic
import TedgeDot.Lib.Chunks
import TedgeDot.Snmp.Poll

/-!
# A poll is complete

What one cycle of `read_objects` comes to, whatever the network does: the calls it makes on the
session (`Calls`), and the samples that were made of their replies. A batch keeps
`Ran`, which adds up over the batches of a cycle (`Ran.append`).

## Main results

- `readObjects_ran`: every point gets one sample, a good one carries a varbind of its own name that a
  call asked for, there are no more calls than points, and none after a call that stops the cycle.
- `readObjects_ends`: the calls of a cycle end where the network acts for as long as they can wait.
-/

namespace TedgeDot.Snmp

section

variable {σ Io α : Type} (lib : Library σ Io α)

abbrev Call (α : Type) := Request × Except RequestError (Reply α)

/-- The calls between two sessions. -/
inductive Calls : Session σ → List (Call α) → Session σ → Prop where
  | nil (s : Session σ) : Calls s [] s
  | cons {s s' s'' : Session σ} {log : List (Call α)}
      (request : Request) (turns : List (Turn Io)) (result : Except RequestError (Reply α))
      (hcall : s.call lib request turns = (some result, s')) (hrest : Calls s' log s'') :
      Calls s ((request, result) :: log) s''

def Stops (call : Call α) : Prop :=
  ∃ e, call.2 = .error e ∧ e.stopsTheCycle = true

/-- A request that names the object of a point, or its parent in a GETBULK. -/
def AsksFor (p : ObjectPoint) : Request → Prop
  | .get oids => ∀ oid, p.oid = some oid → oid ∈ oids
  | .getBulk oids => ∀ oid, scalarParent p = some oid → oid ∈ oids
  | .set _ _ => False

/-- What a sample of a point publishes of a value: what it converts to, transformed, and nothing but
its octets in raw mode. A typed point has a datatype. -/
def Publishes (convert : DataType → Except String Value) (p : ObjectPoint) (value : Option Value) :
    Prop :=
  match p.mode, p.datatype with
  | .raw, _ => value = none
  | .typed, some datatype => ∃ v, convert datatype = .ok v ∧ value = some (p.transform v)
  | .typed, none => True

/-- A sample of the value that a reply has under the name of the point, which it was asked for. -/
def Carries (points : List ObjectPoint)
    (log : List (Call α)) (x : ObjectSample) : Prop :=
  ∃ p ∈ points, x.point = p.id ∧ ∃ call ∈ log, AsksFor p call.1 ∧ ∃ reply, call.2 = .ok reply ∧
    ∃ v ∈ reply.varbinds, v.name = p.oid.getD [] ∧ v.value.kind.isException = false ∧
      x.raw = v.value.raw ∧ Publishes v.value.convert p x.value

/-- What a part of a cycle comes to. -/
structure Ran (points : List ObjectPoint) (s s' : Session σ)
    (log : List (Call α)) (samples : List (Sampled α)) : Prop where
  calls : Calls lib s log s'
  bounded : log.length ≤ points.length
  each : (samples.map fun x => x.sample.point).Perm (points.map ObjectPoint.id)
  good : ∀ x ∈ samples, x.sample.quality = .good → Carries points log x.sample

variable {lib}

theorem Calls.append {s s' s'' : Session σ}
    {log more : List (Call α)} (h : Calls lib s log s')
    (hmore : Calls lib s' more s'') : Calls lib s (log ++ more) s'' := by
  induction h with
  | nil s => exact hmore
  | cons request turns result hcall _ ih => exact .cons request turns result hcall (ih hmore)

theorem Carries.mono {points points' : List ObjectPoint}
    {log log' : List (Call α)} {x : ObjectSample}
    (hpoints : ∀ p ∈ points, p ∈ points') (hlog : ∀ c ∈ log, c ∈ log')
    (h : Carries points log x) : Carries points' log' x := by
  obtain ⟨p, hp, hpoint, call, hcall, hreply⟩ := h
  exact ⟨p, hpoints p hp, hpoint, call, hlog call hcall, hreply⟩

variable {points : List ObjectPoint} {p : ObjectPoint} {s s' : Session σ}
  {samples : List (Sampled α)} {turns : List (Turn Io)} {batch : List ObjectPoint}
  {failure : Option RequestError} {calls : List (List (Turn Io))}

theorem asksFor_get (hp : p ∈ points) : AsksFor p (.get (points.filterMap (·.oid))) := by
  intro oid hoid
  exact List.mem_filterMap.mpr ⟨p, hp, hoid⟩

theorem asksFor_getBulk (hp : p ∈ points) :
    AsksFor p (.getBulk (points.filterMap scalarParent)) := by
  intro oid hoid
  exact List.mem_filterMap.mpr ⟨p, hp, hoid⟩

theorem Ran.append {points points' : List ObjectPoint} {s s' s'' : Session σ}
    {log log' : List (Call α)} {samples samples' : List (Sampled α)}
    (h : Ran lib points s s' log samples) (h' : Ran lib points' s' s'' log' samples') :
    Ran lib (points ++ points') s s'' (log ++ log') (samples ++ samples') where
  calls := h.calls.append h'.calls
  bounded := by
    rw [List.length_append, List.length_append]
    exact Nat.add_le_add h.bounded h'.bounded
  each := by
    rw [List.map_append, List.map_append]
    exact h.each.append h'.each
  good x hx hgood := by
    obtain hx | hx := List.mem_append.mp hx
    · exact (h.good x hx hgood).mono (fun p hp => List.mem_append_left _ hp)
        fun c hc => List.mem_append_left _ hc
    · exact (h'.good x hx hgood).mono (fun p hp => List.mem_append_right _ hp)
        fun c hc => List.mem_append_right _ hc

theorem Ran.perm {points points' : List ObjectPoint} {log : List (Call α)}
    (h : Ran lib points s s' log samples) (hperm : points.Perm points') :
    Ran lib points' s s' log samples where
  calls := h.calls
  bounded := hperm.length_eq ▸ h.bounded
  each := h.each.trans (hperm.map ObjectPoint.id)
  good x hx hgood := (h.good x hx hgood).mono (fun _ hp => hperm.mem_iff.mp hp) fun _ hc => hc

/-! ## Samples -/

theorem mapVarbind_point (model : DeviceModel) (ts : Nat) (p : ObjectPoint)
    (varbind : Option Varbind) : (mapVarbind model ts p varbind).point = p.id := by
  unfold mapVarbind
  cases varbind with
  | none => rfl
  | some v =>
    dsimp only
    split
    · rfl
    · split <;> rfl

/-- A value that fails to convert makes no good sample. -/
theorem objectSample_publishes {model : DeviceModel} {ts : Nat} {raw : List UInt8}
    {convert : DataType → Except String Value} {converted : Except String Value}
    (hconverted : converted = match p.mode, p.datatype with
      | .typed, some datatype => (convert datatype).map p.transform
      | _, _ => .ok (.bool false))
    (h : (objectSample model p ts raw converted).quality = .good) :
    Publishes convert p (objectSample model p ts raw converted).value := by
  unfold Publishes objectSample at *
  cases hmode : p.mode with
  | raw => cases converted <;> simp
  | typed =>
    cases hdatatype : p.datatype with
    | none => trivial
    | some datatype =>
      replace hconverted : converted = (convert datatype).map p.transform := by
        rwa [hmode, hdatatype] at hconverted
      rw [hmode] at h
      cases hvalue : convert datatype with
      | error e =>
        rw [hconverted, hvalue] at h
        cases h
      | ok v => exact ⟨v, hvalue, by rw [hconverted, hvalue]; rfl⟩

theorem mapVarbind_good {model : DeviceModel} {ts : Nat} {varbind : Option Varbind}
    (h : (mapVarbind model ts p varbind).quality = .good) :
    ∃ v, varbind = some v ∧ v.name = p.oid.getD [] ∧ v.value.kind.isException = false ∧
      (mapVarbind model ts p varbind).raw = v.value.raw ∧
      Publishes v.value.convert p (mapVarbind model ts p varbind).value := by
  have hbad : ∀ reason, (badSample model ts p reason).quality ≠ .good := by simp
  unfold mapVarbind at h ⊢
  cases varbind with
  | none => exact absurd h (hbad _)
  | some v =>
    dsimp only at h ⊢
    by_cases hname : v.name = p.oid.getD []
    · by_cases hexception : v.value.kind.isException = true
      · rw [if_neg (not_not.mpr hname), if_pos hexception] at h
        exact absurd h (hbad _)
      · rw [if_neg (not_not.mpr hname), if_neg hexception] at h ⊢
        exact ⟨v, rfl, hname, by simpa using hexception, rfl, objectSample_publishes rfl h⟩
    · rw [if_pos hname] at h
      exact absurd h (hbad _)

theorem ran_bad {log : List (Call α)} (hcalls : Calls lib s log s')
    (hbounded : log.length ≤ points.length) (model : DeviceModel) (ts : Nat) (reason : String)
    (source : Option (Evidence α)) :
    Ran lib points s s' log
      ((points.map fun p => badSample model ts p reason).map fun sample => { sample, source }) where
  calls := hcalls
  bounded := hbounded
  each := by
    rw [List.map_map, List.map_map]
    exact List.Perm.refl _
  good x hx hgood := by
    obtain ⟨sample, hsample, rfl⟩ := List.mem_map.mp hx
    obtain ⟨p, -, rfl⟩ := List.mem_map.mp hsample
    simp at hgood

/-- A call that is answered reports every point of its batch. -/
theorem ran_reply {request : Request} {reply : Reply α}
    (hcall : s.call lib request turns = (some (.ok reply), s')) (hpoints : points ≠ [])
    (hasks : ∀ p ∈ points, AsksFor p request) (model : DeviceModel) (ts : Nat) :
    Ran lib points s s' [(request, .ok reply)]
      (ofReply request reply (mapReply model ts points reply)) := by
  have hone : ([(request, .ok reply)] : List (Call α)).length ≤ points.length :=
    List.length_pos_iff.mpr hpoints
  have hcalls : Calls lib s [(request, .ok reply)] s' := .cons request turns _ hcall (.nil s')
  unfold ofReply mapReply
  by_cases hstatus : reply.errorStatus ≠ 0
  · rw [if_pos hstatus]
    exact ran_bad hcalls hone model ts _ _
  · rw [if_neg hstatus]
    refine ⟨hcalls, hone, ?_, fun x hx hgood => ?_⟩
    · apply List.Perm.of_eq
      apply List.ext_getElem
      · simp
      · intro i _ _
        simp [mapVarbind_point]
    · obtain ⟨sample, hsample, rfl⟩ := List.mem_map.mp hx
      obtain ⟨i, hi, rfl⟩ := List.mem_mapIdx.mp hsample
      obtain ⟨v, hv, hname, hvalue, hcarries⟩ := mapVarbind_good hgood
      exact ⟨points[i], List.getElem_mem hi, mapVarbind_point .., (request, .ok reply),
        List.mem_singleton_self _, hasks _ (List.getElem_mem hi), reply, rfl, v,
        List.mem_of_getElem? hv, hname, hvalue, hcarries⟩

/-! ## One batch -/

/-- The error that a batch ends with is that of its last call. -/
def EndsWith (log : List (Call α)) : Option RequestError → Prop
  | none => ∀ call ∈ log, ¬Stops call
  | some e => ∃ before request, log = before ++ [(request, .error e)] ∧ ∀ call ∈ before, ¬Stops call

theorem not_stops_ok (request : Request) (reply : Reply α) : ¬Stops (request, .ok reply) := by
  rintro ⟨e, h, -⟩
  cases h

variable (model : DeviceModel) (ts : Nat)

theorem readOnce_ran {request : Request} (hbatch : batch ≠ [])
    (hasks : ∀ p ∈ batch, AsksFor p request)
    (h : readOnce lib model ts request batch turns s = (some (samples, failure), s')) :
    ∃ log, Ran lib batch s s' log samples ∧ EndsWith log failure := by
  unfold readOnce at h
  rcases hcall : s.call lib request turns with ⟨_ | e | reply, s₁⟩ <;> rw [hcall] at h
  · cases h
  · cases h
    have hcalls : Calls lib s [(request, .error e)] s' := .cons request turns _ hcall (.nil s')
    refine ⟨_, ran_bad hcalls (List.length_pos_iff.mpr hbatch) model ts _ none, [], request, rfl, ?_⟩
    exact fun c hc => by cases hc
  · cases h
    refine ⟨_, ran_reply hcall hbatch hasks model ts, fun c hc => ?_⟩
    rw [List.mem_singleton.mp hc]
    exact not_stops_ok request reply

/-- A v1 batch: points are taken out until the rest is answered. -/
theorem readV1_ran (calls : List (List (Turn Io))) (pending : List ObjectPoint)
    (done : List (Sampled α)) {rest : List (List (Turn Io))}
    (h : readV1 lib model ts calls pending done s = (some (samples, failure), s', rest)) :
    ∃ more log, samples = done ++ more ∧ Ran lib pending s s' log more ∧ EndsWith log failure := by
  induction calls generalizing pending done s with
  | nil =>
    cases pending with
    | cons p pending => cases h
    | nil =>
      cases h
      exact ⟨[], [], (List.append_nil _).symm,
        ⟨.nil _, le_rfl, List.Perm.nil, fun x hx => by cases hx⟩,
        fun c hc => by cases hc⟩
  | cons turns calls ih =>
    cases pending with
    | nil =>
      cases h
      exact ⟨[], [], (List.append_nil _).symm,
        ⟨.nil _, le_rfl, List.Perm.nil, fun x hx => by cases hx⟩,
        fun c hc => by cases hc⟩
    | cons p others =>
      have hpending : p :: others ≠ [] := List.cons_ne_nil p others
      simp only [readV1] at h
      generalize p :: others = pending at h hpending
      rcases hcall : s.call lib (.get (pending.filterMap (·.oid))) turns with
        ⟨_ | e | reply, s₁⟩ <;> rw [hcall] at h
      · cases h
      · cases h
        have hcalls : Calls lib s [(.get (pending.filterMap (·.oid)), .error e)] s' :=
          .cons _ turns _ hcall (.nil s')
        exact ⟨_, _, rfl, ran_bad hcalls (List.length_pos_iff.mpr hpending) model ts _ none, [], _,
          rfl, fun c hc => by cases hc⟩
      · have hcalls : Calls lib s [(.get (pending.filterMap (·.oid)), .ok reply)] s₁ :=
          .cons _ turns _ hcall (.nil s₁)
        have hok : ∀ c ∈ ([(.get (pending.filterMap (·.oid)), .ok reply)] : List (Call α)),
            ¬Stops c := by
          intro c hc
          rw [List.mem_singleton.mp hc]
          exact not_stops_ok _ reply
        dsimp only at h
        split at h
        · cases h
          exact ⟨_, _, rfl, ran_reply hcall hpending (fun _ => asksFor_get) model ts, hok⟩
        · split at h
          · next q hq =>
            -- the point at the index is bad, and the others are asked for again
            have hindex : reply.errorIndex.toNat ≠ 0 := by
              intro hzero
              rw [if_pos hzero] at hq
              cases hq
            rw [if_neg hindex] at hq
            obtain ⟨more, log, rfl, hran, hends⟩ := ih _ _ h
            have hone := ran_bad hcalls (show _ ≤ [q].length from le_rfl) model ts
              (s!"the agent answered {errorName reply.errorStatus} " ++
                s!"(error-status {reply.errorStatus.toNat})")
              (some { asked := .get (pending.filterMap (·.oid)), response := reply.source })
            obtain ⟨hlt, hget⟩ := List.getElem?_eq_some_iff.mp hq
            have hperm : ([q] ++ pending.eraseIdx (reply.errorIndex.toNat - 1)).Perm pending := by
              rw [← hget]
              exact List.getElem_cons_eraseIdx_perm hlt
            refine ⟨_, _, by rw [List.append_assoc]; rfl, (hone.append hran).perm hperm, ?_⟩
            cases failure with
            | none => exact fun c hc => (List.mem_append.mp hc).elim (hok c) (hends c)
            | some e =>
              obtain ⟨before, request, rfl, hbefore⟩ := hends
              exact ⟨_ :: before, request, rfl, fun c hc =>
                (List.mem_append.mp (List.singleton_append ▸ hc)).elim (hok c) (hbefore c)⟩
          · cases h
            exact ⟨_, _, rfl, ran_bad hcalls (List.length_pos_iff.mpr hpending) model ts _ _, hok⟩

/-! ## The cycle -/

theorem readBatch_ran {bulky : Bool} (hbatch : batch ≠ []) {calls rest : List (List (Turn Io))}
    (h : readBatch lib model ts bulky batch calls s = (some (samples, failure), s', rest)) :
    ∃ log, Ran lib batch s s' log samples ∧ EndsWith log failure := by
  unfold readBatch at h
  split at h
  · obtain ⟨hresult, hs, -⟩ := Prod.mk.inj h |>.imp id Prod.mk.inj
    exact readOnce_ran model ts hbatch (fun _ => asksFor_getBulk) (Prod.ext hresult hs)
  · split at h
    · obtain ⟨hresult, hs, -⟩ := Prod.mk.inj h |>.imp id Prod.mk.inj
      exact readOnce_ran model ts hbatch (fun _ => asksFor_get) (Prod.ext hresult hs)
    · obtain ⟨more, log, hsamples, hran⟩ := readV1_ran model ts calls batch [] h
      rw [List.nil_append] at hsamples
      exact ⟨log, hsamples ▸ hran⟩

/-- None but the last call stops the cycle. -/
def OnlyLastStops (log : List (Call α)) : Prop := ∀ call ∈ log.dropLast, ¬Stops call

theorem onlyLastStops_append {log more : List (Call α)} (h : ∀ call ∈ log, ¬Stops call)
    (hmore : OnlyLastStops more) : OnlyLastStops (log ++ more) := by
  intro call hcall
  cases more with
  | nil =>
    rw [List.append_nil] at hcall
    exact h call (List.mem_of_mem_dropLast hcall)
  | cons c more =>
    rw [List.dropLast_append_of_ne_nil (List.cons_ne_nil c more)] at hcall
    exact (List.mem_append.mp hcall).elim (h call) (hmore call)

/-- All batches of a poll; after a lost connection nothing more is sent. -/
theorem readBatches_ran (batches : List (Bool × List ObjectPoint))
    (hbatches : ∀ b ∈ batches, b.2 ≠ []) (dead : Option String) (calls : List (List (Turn Io)))
    (out : List (Sampled α))
    (h : readBatches lib model ts batches dead calls out s = (some samples, s')) :
    ∃ more log, samples = out ++ more ∧ Ran lib (batches.flatMap Prod.snd) s s' log more ∧
      OnlyLastStops log ∧ (dead.isSome = true → log = []) := by
  induction batches generalizing dead calls out s with
  | nil =>
    cases dead <;>
    · cases h
      exact ⟨[], [], (List.append_nil _).symm,
        ⟨.nil _, le_rfl, List.Perm.nil, fun x hx => by cases hx⟩, (fun c hc => by cases hc),
        fun _ => rfl⟩
  | cons b batches ih =>
    obtain ⟨bulky, batch⟩ := b
    obtain ⟨hbatch, hbatches⟩ := List.forall_mem_cons.mp hbatches
    cases dead with
    | some reason =>
      -- nothing is asked any more
      obtain ⟨more, log, rfl, hran, -, hlog⟩ := ih hbatches (some reason) calls _ h
      obtain rfl := hlog rfl
      have hskipped : Ran lib batch s s [] _ := ran_bad (.nil s) (Nat.zero_le batch.length) model ts
        s!"skipped: {reason}" none
      exact ⟨_, [], by rw [List.append_assoc]; rfl, hskipped.append hran,
        (fun c hc => by cases hc), fun _ => rfl⟩
    | none =>
      simp only [readBatches] at h
      rcases hread : readBatch lib model ts bulky batch calls s with
        ⟨_ | ⟨first, failure⟩, s₁, calls₁⟩ <;> rw [hread] at h
      · cases h
      · obtain ⟨log₁, hran₁, hends⟩ := readBatch_ran model ts hbatch hread
        obtain ⟨more, log, rfl, hran, hstops, hdead⟩ := ih hbatches _ calls₁ _ h
        refine ⟨_, _, by rw [List.append_assoc], hran₁.append hran, ?_, fun hnone => by cases hnone⟩
        cases failure with
        | none => exact onlyLastStops_append hends hstops
        | some e =>
          obtain ⟨before, request, rfl, hbefore⟩ := hends
          by_cases he : e.stopsTheCycle = true
          · rw [Option.bind_some, if_pos he] at hdead
            obtain rfl := hdead rfl
            rw [List.append_nil]
            exact onlyLastStops_append hbefore fun c hc => by cases hc
          · refine onlyLastStops_append (fun c hc => ?_) hstops
            obtain hc | hc := List.mem_append.mp hc
            · exact hbefore c hc
            · rw [List.mem_singleton.mp hc]
              rintro ⟨e', heq, hstops⟩
              cases heq
              exact he hstops

theorem flatten_batchesOf (points : List ObjectPoint) :
    ((batchesOf model points).flatMap Prod.snd).Perm points := by
  unfold batchesOf
  dsimp only
  rw [List.flatMap_append, List.flatMap_map, List.flatMap_map]
  simp only [List.flatMap_id', Chunks.flatten_toChunks]
  split
  · rw [List.partition_eq_filter_filter]
    exact List.filter_append_perm _ points
  · exact List.Perm.refl points

theorem batch_ne_nil {b : Bool × List ObjectPoint} (hb : b ∈ batchesOf model points) :
    b.2 ≠ [] := by
  unfold batchesOf at hb
  rw [List.mem_append, List.mem_map, List.mem_map] at hb
  obtain ⟨l, hl, rfl⟩ | ⟨l, hl, rfl⟩ := hb <;> exact Chunks.ne_nil_of_mem_toChunks hl

theorem readObjects_ran (h : readObjects lib model ts points calls s = (some samples, s')) :
    ∃ log, Ran lib points s s' log samples ∧ OnlyLastStops log := by
  obtain ⟨more, log, rfl, hran, hstops, -⟩ := readBatches_ran model ts (batchesOf model points)
    (fun b hb => batch_ne_nil model hb) none calls [] h
  exact ⟨log, hran.perm (flatten_batchesOf model points), hstops⟩

/-! ## It ends -/

/-- The network acts for as long as a call can wait: while the session discovers the engine, for each
attempt, and for the one that the clock of the engine costs. -/
structure Lasts (retries : Nat) (turns : List (Turn Io)) : Prop where
  enough : retries + 1 < turns.length
  discovery : ∀ turn ∈ turns, retries < turn.discovery.length
  waits : ∀ turn ∈ turns, turn.wait.isSome = true

/-- It comes to something, on a session that keeps the number of retries. -/
def Settles {β : Type} (retries : Nat) (outcome : Option β × Session σ) : Prop :=
  outcome.1.isSome = true ∧ outcome.2.retries = retries

theorem discovered_retries (s : Session σ) : (discovered lib s).2.retries = s.retries := by
  unfold discovered
  dsimp only
  split
  · split <;> rfl
  · rfl

theorem discoverLoop_settles (ios : List Io) (attempts : Nat) (s : Session σ)
    (h : s.retries < attempts + ios.length) :
    attempts ≤ s.retries → Settles s.retries (discoverLoop lib ios attempts s) := by
  induction ios generalizing attempts s with
  | nil => exact fun hle => absurd h (Nat.not_lt.mpr hle)
  | cons io ios ih =>
    intro hle
    rw [List.length_cons] at h
    unfold discoverLoop
    split
    · exact ⟨rfl, discovered_retries _⟩
    · exact ⟨rfl, rfl⟩
    · split
      · exact ⟨rfl, rfl⟩
      · next session _ hmore =>
        exact ih (attempts + 1) { s with session } (by dsimp only; omega) (by dsimp only; omega)

theorem discover_settles {ios : List Io} {s : Session σ} (h : s.retries < ios.length) :
    Settles s.retries (discover lib ios s) := by
  unfold discover
  split
  · exact ⟨rfl, rfl⟩
  · exact discoverLoop_settles ios 0 s (by rwa [Nat.zero_add]) (Nat.zero_le _)

theorem attempt_retries (asked : Asked) (io : Io) (s : Session σ) :
    (attempt lib asked io s).2.retries = s.retries := by
  unfold attempt
  split <;> rfl

/-- The turns that a call has left to take, at most. -/
def turnsLeft (retries : Nat) (retry : Retry) : Nat :=
  retries - retry.attempts + if retry.resynced then 0 else 1

/-- What is to be told of a verdict: the loop goes on one turn nearer its end. -/
def Nears (s : Session σ) (retry : Retry) (verdict : Verdict α × Retry × Session σ) : Prop :=
  verdict.2.2.retries = s.retries ∧
    (verdict.1 = .again → verdict.2.1.attempts ≤ s.retries ∧
      turnsLeft s.retries verdict.2.1 < turnsLeft s.retries retry)

theorem countAttempt_nears (s : Session σ) {retry : Retry} (e : Nat → RequestError) :
    Nears s retry ((countAttempt s retry e : Verdict α × Retry).1,
      (countAttempt s retry e : Verdict α × Retry).2, s) := by
  refine ⟨rfl, ?_⟩
  unfold countAttempt turnsLeft
  dsimp only
  split
  · exact fun hagain => by cases hagain
  · next hmore =>
    intro _
    exact ⟨Nat.not_lt.mp hmore, by dsimp only; omega⟩

/-- Judging an attempt uses up a retry or a resynchronisation. -/
theorem judge_nears (tried : Attempt α) {retry : Retry} {s : Session σ}
    (hattempts : retry.attempts ≤ s.retries) : Nears s retry (judge tried retry s) := by
  have hstays : ∀ e : RequestError, @Nears σ α s retry (.fail e, retry, s) := fun e =>
    ⟨rfl, fun hagain => by cases hagain⟩
  have hresync : retry.resynced = false →
      @Nears σ α s retry (.again, { retry with resynced := true }, s) := fun hfirst =>
    ⟨rfl, fun _ => ⟨hattempts, by simp [turnsLeft, hfirst]⟩⟩
  have hrefused : ∀ (e : RequestError) (ready : Bool),
      @Nears σ α s retry (.fail e, retry, { s with ready }) := fun e ready =>
    ⟨rfl, fun hagain => by cases hagain⟩
  cases tried with
  | done reply => exact ⟨rfl, fun hagain => by cases hagain⟩
  | undecodable e => exact hstays _
  | timedOut => exact countAttempt_nears s .timeout
  | failed e =>
    unfold judge
    dsimp only
    cases e.kind with
    | authUpdated =>
      dsimp only
      split
      · next hfirst => exact hresync (by simpa using hfirst)
      · exact hstays _
    | engineTimeMismatch | engineBootsMismatch =>
      dsimp only
      split
      · next hfirst => exact hresync (by simpa using hfirst)
      · exact hrefused _ _
    | authFailure | crypto => exact hrefused _ _
    | send | receive => exact countAttempt_nears s fun _ => .transport e.text
    | other => exact hstays _

/-- A call ends within its turns. -/
theorem callLoop_settles (asked : Asked) (turns : List (Turn Io)) (retry : Retry) (s : Session σ)
    (hattempts : retry.attempts ≤ s.retries) (hturns : turnsLeft s.retries retry < turns.length)
    (hdiscovery : ∀ turn ∈ turns, s.retries < turn.discovery.length)
    (hwaits : ∀ turn ∈ turns, turn.wait.isSome = true) :
    Settles s.retries (callLoop lib asked turns retry s) := by
  induction turns generalizing retry s with
  | nil => exact absurd hturns (Nat.not_lt_zero _)
  | cons turn rest ih =>
    obtain ⟨hfound, hdiscovery⟩ := List.forall_mem_cons.mp hdiscovery
    obtain ⟨hwait, hwaits⟩ := List.forall_mem_cons.mp hwaits
    obtain ⟨hsome, hretries⟩ := discover_settles hfound
    unfold callLoop
    rcases hdiscover : discover lib turn.discovery s with ⟨_ | e | u, s₁⟩ <;>
      rw [hdiscover] at hsome hretries
    · cases hsome
    · exact ⟨rfl, hretries⟩
    · obtain ⟨io, hio⟩ := Option.isSome_iff_exists.mp hwait
      dsimp only at hretries ⊢
      rw [hio]
      have hsame : (attempt lib asked io s₁).2.retries = s.retries :=
        (attempt_retries asked io s₁).trans hretries
      obtain ⟨hkept, hagain⟩ := judge_nears (attempt lib asked io s₁).1 (hsame ▸ hattempts)
      rw [hsame] at hkept hagain
      dsimp only
      rcases hjudge : judge (attempt lib asked io s₁).1 retry (attempt lib asked io s₁).2 with
        ⟨_ | _ | e, retry', s₃⟩ <;> rw [hjudge] at hkept hagain
      · exact ⟨rfl, hkept⟩
      · obtain ⟨hle, hlt⟩ := hagain rfl
        dsimp only at hkept hle hlt ⊢
        rw [List.length_cons] at hturns
        have hnext := ih retry' s₃ (hkept ▸ hle) (by rw [hkept]; omega) (by rwa [hkept]) hwaits
        rwa [hkept] at hnext
      · exact ⟨rfl, hkept⟩

theorem call_settles (request : Request) (s : Session σ) (h : Lasts s.retries turns) :
    ∃ result s', s.call lib request turns = (some result, s') ∧ s'.retries = s.retries := by
  obtain ⟨hsome, hkept⟩ : Settles s.retries (s.call lib request turns) :=
    callLoop_settles _ turns {} { s with calls := s.calls + 1 } (Nat.zero_le _) h.enough h.discovery
      h.waits
  obtain ⟨result, hresult⟩ := Option.isSome_iff_exists.mp hsome
  exact ⟨result, _, Prod.ext hresult rfl, hkept⟩

/-- The calls that a batch leaves over. -/
structure Left (calls rest : List (List (Turn Io))) (batch : List ObjectPoint) : Prop where
  mem : ∀ turns ∈ rest, turns ∈ calls
  length : calls.length ≤ rest.length + batch.length

/-- So does a v1 batch. -/
theorem readV1_ends (calls : List (List (Turn Io))) (pending : List ObjectPoint)
    (done : List (Sampled α)) (s : Session σ) (hlasts : ∀ turns ∈ calls, Lasts s.retries turns)
    (hcalls : pending.length ≤ calls.length) :
    ∃ result s' rest, readV1 lib model ts calls pending done s = (some result, s', rest) ∧
      s'.retries = s.retries ∧ Left calls rest pending := by
  induction calls generalizing pending done s with
  | nil =>
    obtain rfl : pending = [] := List.length_eq_zero_iff.mp (Nat.le_zero.mp hcalls)
    exact ⟨_, _, _, rfl, rfl, fun _ h => h, le_rfl⟩
  | cons turns calls ih =>
    cases pending with
    | nil => exact ⟨_, _, _, rfl, rfl, fun _ h => h, le_rfl⟩
    | cons p others =>
      have hone : ∀ pending : List ObjectPoint, pending ≠ [] →
          Left (turns :: calls) calls pending := fun pending hne =>
        ⟨fun _ h => List.mem_cons_of_mem _ h,
          Nat.add_le_add_left (List.length_pos_iff.mpr hne) calls.length⟩
      have hpending : p :: others ≠ [] := List.cons_ne_nil p others
      simp only [readV1]
      generalize p :: others = pending at hcalls hpending
      obtain ⟨result, s₁, hcall, hkept⟩ :=
        call_settles (.get (pending.filterMap (·.oid))) s (hlasts turns List.mem_cons_self)
      rw [hcall]
      cases result with
      | error e => exact ⟨_, _, _, rfl, hkept, hone pending hpending⟩
      | ok reply =>
        dsimp only
        split
        · exact ⟨_, _, _, rfl, hkept, hone pending hpending⟩
        · split
          · next q hq =>
            have hlt : reply.errorIndex.toNat - 1 < pending.length := by
              split at hq
              · cases hq
              · exact (List.getElem?_eq_some_iff.mp hq).1
            have hlength := List.length_eraseIdx_of_lt hlt
            rw [List.length_cons] at hcalls
            obtain ⟨result, s', rest, hread, hretries, hleft⟩ := ih _ _ s₁
              (fun turns h => hkept ▸ hlasts turns (List.mem_cons_of_mem _ h))
              (show (pending.eraseIdx (reply.errorIndex.toNat - 1)).length ≤ _ by omega)
            refine ⟨result, s', rest, hread, hretries.trans hkept,
              fun _ h => List.mem_cons_of_mem _ (hleft.mem _ h), ?_⟩
            have hrest := hleft.length
            rw [List.length_cons]
            omega
          · exact ⟨_, _, _, rfl, hkept, hone pending hpending⟩

theorem readOnce_ends (request : Request) (batch : List ObjectPoint) (s : Session σ)
    (hlasts : Lasts s.retries turns) :
    ∃ result s', readOnce lib model ts request batch turns s = (some result, s') ∧
      s'.retries = s.retries := by
  obtain ⟨result, s', hcall, hkept⟩ := call_settles request s hlasts
  unfold readOnce
  rw [hcall]
  cases result with
  | error e => exact ⟨_, _, rfl, hkept⟩
  | ok reply => exact ⟨_, _, rfl, hkept⟩

/-- And any batch. -/
theorem readBatch_ends (bulky : Bool) (hbatch : batch ≠ []) (s : Session σ)
    (hlasts : ∀ turns ∈ calls, Lasts s.retries turns) (hcalls : batch.length ≤ calls.length) :
    ∃ result s' rest, readBatch lib model ts bulky batch calls s = (some result, s', rest) ∧
      s'.retries = s.retries ∧ Left calls rest batch := by
  have hone : calls ≠ [] := by
    rintro rfl
    exact absurd (List.length_pos_iff.mpr hbatch) (Nat.not_lt.mpr hcalls)
  obtain ⟨turns, rest, rfl⟩ := List.exists_cons_of_ne_nil hone
  have hleft : Left (turns :: rest) rest batch :=
    ⟨fun _ h => List.mem_cons_of_mem _ h,
      Nat.add_le_add_left (List.length_pos_iff.mpr hbatch) rest.length⟩
  have honce : ∀ request, ∃ result s', readOnce lib model ts request batch turns s =
      (some result, s') ∧ s'.retries = s.retries := fun request =>
    readOnce_ends model ts request batch s (hlasts turns List.mem_cons_self)
  unfold readBatch
  split
  · obtain ⟨result, s', h, hkept⟩ := honce (.getBulk (batch.filterMap scalarParent))
    exact ⟨result, s', rest, by rw [List.headD_cons, h]; rfl, hkept, hleft⟩
  · split
    · obtain ⟨result, s', h, hkept⟩ := honce (.get (batch.filterMap (·.oid)))
      exact ⟨result, s', rest, by rw [List.headD_cons, h]; rfl, hkept, hleft⟩
    · exact readV1_ends model ts (turns :: rest) batch [] s hlasts hcalls

/-- And the poll. -/
theorem readBatches_ends (batches : List (Bool × List ObjectPoint))
    (hbatches : ∀ b ∈ batches, b.2 ≠ []) (dead : Option String) (out : List (Sampled α))
    (s : Session σ) (hlasts : ∀ turns ∈ calls, Lasts s.retries turns)
    (hcalls : (batches.flatMap Prod.snd).length ≤ calls.length) :
    ∃ samples s', readBatches lib model ts batches dead calls out s = (some samples, s') := by
  induction batches generalizing dead calls out s with
  | nil => cases dead <;> exact ⟨out, s, rfl⟩
  | cons b batches ih =>
    obtain ⟨bulky, batch⟩ := b
    obtain ⟨hbatch, hbatches⟩ := List.forall_mem_cons.mp hbatches
    rw [List.flatMap_cons, List.length_append] at hcalls
    cases dead with
    | some reason =>
      exact ih hbatches (some reason) _ s hlasts (le_trans (Nat.le_add_left _ _) hcalls)
    | none =>
      obtain ⟨⟨first, failure⟩, s₁, rest, hread, hkept, hleft⟩ := readBatch_ends model ts bulky hbatch
        s hlasts (le_trans (Nat.le_add_right _ _) hcalls)
      simp only [readBatches]
      rw [hread]
      refine ih hbatches _ _ s₁ (fun turns h => hkept ▸ hlasts turns (hleft.mem turns h)) ?_
      have hlength := hleft.length
      dsimp only at hcalls hlength
      omega

theorem readObjects_ends (s : Session σ) (hlasts : ∀ turns ∈ calls, Lasts s.retries turns)
    (hcalls : points.length ≤ calls.length) :
    ∃ samples s', readObjects lib model ts points calls s = (some samples, s') :=
  readBatches_ends model ts _ (fun _ hb => batch_ne_nil model hb) none [] s hlasts
    ((flatten_batchesOf model points).length_eq ▸ hcalls)

end

end TedgeDot.Snmp
