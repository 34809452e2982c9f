import TedgeDot.Lib.Machine
import TedgeDot.Snmp.Poll

/-!
# Which request a response answers

The session of `snmp2` with the socket under it: a request is sent under the current request-id, and
the first response that carries the id is taken for its answer. A request that nobody answered in
time leaves the id to the next one.

The agent's responses come with the request that they answer, and every request that was sent stays
on record, with what was heard while it waited.

- `Wire.late_of_idOf`: a response that carries the current request-id answers the request that waits,
  or one that was given up, or one that is `2^32` request-ids old.
- `answers_belong`: where no such response comes, a write succeeds by the answer to that very write,
  and what is read is read from answers to the same question.
- `late_answer`: a write that succeeds by the late answer to another.
-/

namespace TedgeDot.Snmp

open Machine

/-! ## The session -/

/-- A response of the agent, with the position of the request that it answers in those sent; the
request-id that it carries is that of this request. -/
structure Response where
  answers : Nat
  pdu : Pdu

/-- What the socket of a session receives. -/
inductive Datagram where
  | response (r : Response)
  /-- Anything else is an error; where it can be parsed it is one of `validate`. -/
  | other (e : SnmpError) (parses : Bool)

/-- What the network does while the session waits. -/
structure WireIo where
  /-- What comes of the probe of `init`: an error, or the engine; nothing in time otherwise. -/
  probe : Option (Except SnmpError (List UInt8)) := none
  sendError : Option SnmpError := none
  datagrams : List Datagram := []
  /-- The error that receiving ends with, after the datagrams. -/
  readError : Option SnmpError := none

/-- A request that was sent: the bits of the request-id and how often that had been advanced, the
responses that were heard, and the one that was taken. -/
structure Sent where
  asked : Asked
  reqId : UInt32
  ids : Nat
  heard : List Response
  taken : Option Response

/-- `AsyncSession`, with what it has sent. -/
structure Wire where
  reqId : UInt32
  /-- How often `reqId` has been advanced. -/
  ids : Nat := 0
  engine : List UInt8 := []
  sent : List Sent := []

/-- `self.req_id += Wrapping(1)`. -/
def Wire.advance (w : Wire) : Wire := { w with reqId := w.reqId + 1, ids := w.ids + 1 }

/-- The request-id that a response to the `k`th request carries, while the next one waits. -/
def Wire.idOf (w : Wire) (k : Nat) : Option UInt32 :=
  if k = w.sent.length then some w.reqId else w.sent[k]?.map (·.reqId)

/-- The loop of `exchange`: what it ends with, and the responses that it hears. -/
def exchange (idOf : Nat → Option UInt32) (reqId : UInt32) (readError : Option SnmpError) :
    List Datagram → Option (Except (SnmpError × Bool) Response) × List Response
  | [] => (readError.map fun e => .error (e, false), [])
  | .other e parses :: _ => (some (.error (e, parses)), [])
  | .response r :: rest =>
    if idOf r.answers = some reqId then (some (.ok r), [r])
    else
      let (ended, heard) := exchange idOf reqId readError rest
      (ended, r :: heard)

/-- `get_many`, `getbulk` and `set`. -/
def Wire.request (w : Wire) (asked : Asked) (io : WireIo) :
    Option (Except SnmpError Response) × Wire :=
  match io.sendError with
  | some e => (some (.error e), w)
  | none =>
    let (ended, heard) := exchange w.idOf w.reqId io.readError io.datagrams
    let waited (taken : Option Response) : Wire := { w with
      sent := w.sent ++ [{ asked, reqId := w.reqId, ids := w.ids, heard, taken }] }
    match ended with
    | none => (none, waited none)
    | some (.error (e, parses)) =>
      (some (.error e), if parses then (waited none).advance else waited none)
    | some (.ok r) => (some (.ok r), (waited (some r)).advance)

def Wire.init (w : Wire) (io : WireIo) : Option (Except SnmpError Unit) × Wire :=
  let w := { w.advance with engine := [] }
  match io.sendError, io.probe with
  | some e, _ | none, some (.error e) => (some (.error e), w)
  | none, none => (none, w)
  | none, some (.ok engine) => (some (.ok ()), { w with engine })

/-- `AsyncSession`. -/
def wire : Library Wire WireIo Response where
  init := Wire.init
  request := Wire.request
  pdu := Response.pdu
  engineId := Wire.engine

@[simp] theorem wire_init : wire.init = Wire.init := rfl

@[simp] theorem wire_request : wire.request = Wire.request := rfl

/-! ## The sessions of a device -/

/-- `sessions` and `write_sessions` of a device, by their number among the sessions that were ever
opened for it: a reader may still hold one that has been dropped. -/
structure Sessions where
  opened : List (Session Wire) := []
  read : Option Nat := none
  write : Option Nat := none

inductive Event where
  /-- A poll; `held` is the session that its reader already holds, and `start` what opening one
  gives, an error or the request-id that it starts with. -/
  | read (held : Option Nat) (start : Except String UInt32) (ts : Nat) (points : List String)
      (calls : List (List (Turn WireIo)))
  | write (start : Except String UInt32) (point : String)
      (encoded : Option (Except String Encoded)) (turns : List (Turn WireIo))
  | reconnect

inductive Output where
  | nothing
  | refused (e : String)
  /-- The call was given up by its caller. -/
  | cancelled
  | sampled (session : Nat) (samples : List (Sampled Response))
  | written (session : Nat) (result : Except String Unit) (source : Option (Evidence Response))

/-- The requests that were sent on a session. -/
def Sessions.sentOn (st : Sessions) (i : Nat) : List Sent :=
  (st.opened[i]?.map (·.session.sent)).getD []

section

variable (model : DeviceModel)

/-- `Session::open`. -/
def openSession (start : UInt32) : Session Wire :=
  { session := { reqId := start }, version := model.version, retries := model.retries
    pinnedEngineId := model.pinnedEngineId, discoveredEngineId := none
    ready := model.version ≠ .v3, calls := 0 }

/-- `session`. -/
def readSession (start : Except String UInt32) (st : Sessions) : Except String Nat × Sessions :=
  match st.read, start with
  | some i, _ => (.ok i, st)
  | none, .error e => (.error e, st)
  | none, .ok start =>
    (.ok st.opened.length, { st with
      opened := st.opened ++ [openSession model start], read := some st.opened.length })

def writeSession (start : Except String UInt32) (st : Sessions) : Except String Nat × Sessions :=
  if ¬ (model.version ≠ .v3 ∧ model.writeCommunity ≠ model.community) then
    readSession model start st
  else
    match st.write, start with
    | some i, _ => (.ok i, st)
    | none, .error e => (.error e, st)
    | none, .ok start =>
      (.ok st.opened.length, { st with
        opened := st.opened ++ [openSession model start], write := some st.opened.length })

def pollOn (ts : Nat) (points : List String) (calls : List (List (Turn WireIo))) (st : Sessions)
    (i : Nat) : Sessions × Output :=
  match st.opened[i]? with
  | none => (st, .nothing)
  | some s =>
    let (samples, s) := readObjects wire model ts (wantedPoints model points) calls s
    ({ st with opened := st.opened.set i s },
      match samples with
      | none => .cancelled
      | some samples => .sampled i samples)

def writeOn (oid : Oid) (value : Encoded) (turns : List (Turn WireIo)) (st : Sessions) (i : Nat) :
    Sessions × Output :=
  match st.opened[i]? with
  | none => (st, .nothing)
  | some s =>
    let (result, s) := writeObject wire model oid value turns s
    ({ st with opened := st.opened.set i s },
      match result with
      | none => .cancelled
      | some (result, source) => .written i result source)

def step (st : Sessions) : Event → Sessions × Output
  | .read (some i) _ ts points calls => pollOn model ts points calls st i
  | .read none start ts points calls =>
    if (wantedPoints model points).isEmpty then (st, .nothing)
    else
      match readSession model start st with
      | (.error e, st) => (st, .refused e)
      | (.ok i, st) => pollOn model ts points calls st i
  | .write start point encoded turns =>
    match checkWrite model point encoded with
    | .error e => (st, .refused e)
    | .ok (oid, value) =>
      match writeSession model start st with
      | (.error e, st) => (st, .refused e)
      | (.ok i, st) => writeOn model oid value turns st i
  | .reconnect => ({ st with read := none, write := none }, .nothing)

end

/-! ## The law -/

/-- The answer to `other` is one to `asked`: the same call sent it, or both read the same. -/
def Asked.Fits (asked other : Asked) : Prop :=
  other = asked ∨ other.request = asked.request ∧ asked.request.isRead

/-- No request of the call took a response, of the first `n` that were sent. -/
def GivenUp (sent : List Sent) (n : Nat) (call : Nat) : Prop :=
  ∀ e ∈ sent.take n, e.asked.call = call → e.taken = none

/-- While the `n`th request `w` waits, a response to `e` is late: `e` was sent under the same
request-id, and was given up, or `2^32` request-ids ago. -/
def Late (sent : List Sent) (n : Nat) (w e : Sent) : Prop :=
  e.reqId = w.reqId ∧ (GivenUp sent n e.asked.call ∨ e.ids + 2 ^ 32 ≤ w.ids)

/-- No late response is heard while a request waits that it does not fit. -/
def Prompt (sent : List Sent) : Prop :=
  ∀ n w, sent[n]? = some w → ∀ r ∈ w.heard, ∀ e, (sent.take (n + 1))[r.answers]? = some e →
    Late sent n w e → w.asked.Fits e.asked

/-- On no session has a late response been heard by a request that it does not fit. -/
def PromptAll (st : Sessions) : Prop := ∀ s ∈ st.opened, Prompt s.session.sent

/-- A response answers one of the requests that were sent, and it meets `P`. -/
def Response.Answers (r : Response) (sent : List Sent) (P : Sent → Prop) : Prop :=
  ∃ e, sent[r.answers]? = some e ∧ P e

/-- A write that succeeds has the response to a SET that this write sent, of the value to the
point's object. A sample that was made of a response has one to a request for the same objects, and
one that was made of none is bad. -/
def Belongs (model : DeviceModel) (st : Sessions) (event : Event) : Prop :=
  let (st', output) := step model st event
  match event, output with
  | .write _ point encoded _, .written i result source =>
    result = .ok () → ∃ oid value evidence, checkWrite model point encoded = .ok (oid, value) ∧
      source = some evidence ∧ (st.sentOn i).length ≤ evidence.response.answers ∧
      evidence.response.Answers (st'.sentOn i) (·.asked.request = .set oid value)
  | _, .sampled i samples => ∀ x ∈ samples,
    (∀ evidence, x.source = some evidence → evidence.asked.isRead ∧
      evidence.response.Answers (st'.sentOn i) (·.asked.request = evidence.asked)) ∧
    (x.source = none → x.sample.quality = .bad)
  | _, _ => True

/-! ## A wait -/

theorem exchange_ok {idOf : Nat → Option UInt32} {reqId : UInt32} {readError : Option SnmpError}
    {datagrams : List Datagram} {r : Response}
    (h : (exchange idOf reqId readError datagrams).1 = some (.ok r)) :
    idOf r.answers = some reqId ∧ r ∈ (exchange idOf reqId readError datagrams).2 := by
  induction datagrams with
  | nil => cases readError <;> simp [exchange] at h
  | cons d rest ih =>
    cases d with
    | other e parses => simp [exchange] at h
    | response r' =>
      by_cases hid : idOf r'.answers = some reqId
      · simp only [exchange, if_pos hid, Option.some.injEq, Except.ok.injEq] at h ⊢
        subst h
        exact ⟨hid, List.mem_singleton_self _⟩
      · simp only [exchange, if_neg hid] at h ⊢
        exact ⟨(ih h).1, List.mem_cons_of_mem _ (ih h).2⟩

theorem apart_of_ofNat_eq_zero {d : Nat} (h : UInt32.ofNat d = 0) : d = 0 ∨ 2 ^ 32 ≤ d := by
  have hmod : d % 2 ^ 32 = 0 := by simpa using congrArg UInt32.toNat h
  omega

/-! ## The record of a session -/

theorem prompt_of_ids {sent : List Sent}
    (h : ∀ w ∈ sent, ∀ e ∈ sent, e.reqId = w.reqId → e.asked = w.asked) : Prompt sent := by
  intro n w hw r _ e he hlate
  have hmem : e ∈ sent := List.mem_of_mem_take (List.mem_of_getElem? he)
  exact .inl (h w (List.mem_of_getElem? hw) e hmem hlate.1)

/-- What was taken was heard, and answers the request that took it or was late. -/
def TakenLate (sent : List Sent) : Prop :=
  ∀ n w r, sent[n]? = some w → w.taken = some r →
    r ∈ w.heard ∧ ∃ e, (sent.take (n + 1))[r.answers]? = some e ∧
      (e.asked = w.asked ∨ Late sent n w e)

/-- The invariant of a session. -/
structure Wire.Recorded (w : Wire) : Prop where
  /-- A request-id is known by how often it had been advanced. -/
  numbered : ∀ e ∈ w.sent, e.ids ≤ w.ids ∧ w.reqId = e.reqId + UInt32.ofNat (w.ids - e.ids)
  /-- Once a call has taken a response, its request-ids are used up. -/
  usedUp : ∀ e ∈ w.sent, ∀ e' ∈ w.sent, e'.asked.call = e.asked.call → e'.taken ≠ none →
    e.ids < w.ids
  late : TakenLate w.sent

theorem late_append {sent more : List Sent} {n : Nat} {w e : Sent} (hn : n ≤ sent.length) :
    Late (sent ++ more) n w e ↔ Late sent n w e := by
  simp [Late, GivenUp, List.take_append_of_le_length hn]

theorem takenLate_append {sent : List Sent} {last : Sent} (h : TakenLate sent)
    (hlast : ∀ r, last.taken = some r → r ∈ last.heard ∧ ∃ e,
      (sent ++ [last])[r.answers]? = some e ∧
        (e.asked = last.asked ∨ Late sent sent.length last e)) :
    TakenLate (sent ++ [last]) := by
  intro n w r hw hr
  rcases Nat.lt_trichotomy n sent.length with hn | rfl | hn
  · -- an earlier request: its prefix of the record is as it was
    rw [List.getElem?_append_left hn] at hw
    obtain ⟨hheard, e, he, hfit⟩ := h n w r hw hr
    refine ⟨hheard, e, ?_, hfit.imp_right (late_append hn.le).2⟩
    rwa [List.take_append_of_le_length hn]
  · have hlastw : w = last := by simpa using hw.symm
    subst hlastw
    obtain ⟨hheard, e, he, hfit⟩ := hlast r hr
    refine ⟨hheard, e, ?_, hfit.imp_right (late_append le_rfl).2⟩
    rwa [List.take_of_length_le (by simp)]
  · rw [List.getElem?_eq_none (by simpa using hn)] at hw
    cases hw

namespace Wire

variable {w : Wire}

/-- A response with the identifier of the request under way is its own, or late. -/
theorem late_of_idOf (h : w.Recorded) {asked : Asked} {heard : List Response}
    {taken : Option Response} {k : Nat} (hid : w.idOf k = some w.reqId) :
    let last : Sent := { asked, reqId := w.reqId, ids := w.ids, heard, taken }
    ∃ e, (w.sent ++ [last])[k]? = some e ∧
      (e.asked = asked ∨ Late w.sent w.sent.length last e) := by
  intro last
  by_cases hk : k = w.sent.length
  · exact ⟨last, by simp [hk], .inl rfl⟩
  · obtain ⟨e, he, hreq⟩ : ∃ e, w.sent[k]? = some e ∧ e.reqId = w.reqId := by
      simpa [idOf, hk] using hid
    obtain ⟨hlt, -⟩ := List.getElem?_eq_some_iff.1 he
    refine ⟨e, by rwa [List.getElem?_append_left hlt], .inr ⟨hreq, ?_⟩⟩
    have hmem := List.mem_of_getElem? he
    obtain ⟨hle, hcount⟩ := h.numbered e hmem
    by_cases hup : GivenUp w.sent w.sent.length e.asked.call
    · exact .inl hup
    · -- its call took a response, so that the id has been advanced since: by `2^32` times
      right
      simp only [GivenUp, List.take_length, not_forall] at hup
      obtain ⟨e', he', hcall, htaken⟩ := hup
      have hlt := h.usedUp e hmem e' he' hcall htaken
      rw [← hreq, left_eq_add] at hcount
      rcases apart_of_ofNat_eq_zero hcount with h0 | h32 <;> simp only [last] <;> omega

theorem numbered_append (h : w.Recorded) (last : Sent) (hid : last.reqId = w.reqId)
    (hids : last.ids = w.ids) :
    ∀ e ∈ w.sent ++ [last], e.ids ≤ w.ids ∧ w.reqId = e.reqId + UInt32.ofNat (w.ids - e.ids) := by
  intro e he
  rcases List.mem_append.1 he with he | he
  · exact h.numbered e he
  · rw [List.mem_singleton.1 he, hid, hids]
    simp

theorem recorded_unanswered (h : w.Recorded) (last : Sent)
    (hfresh : ∀ e ∈ w.sent, e.asked.call = last.asked.call → e.taken = none)
    (hid : last.reqId = w.reqId) (hids : last.ids = w.ids) (htaken : last.taken = none) :
    ({ w with sent := w.sent ++ [last] } : Wire).Recorded where
  numbered := numbered_append h last hid hids
  usedUp := by
    intro e he e' he' hcall ht
    rcases List.mem_append.1 he' with he' | he'
    · rcases List.mem_append.1 he with he | he
      · exact h.usedUp e he e' he' hcall ht
      · rw [List.mem_singleton.1 he] at hcall
        exact absurd (hfresh e' he' hcall) ht
    · rw [List.mem_singleton.1 he'] at ht
      exact absurd htaken ht
  late := takenLate_append h.late fun r hr => by simp [htaken] at hr

theorem recorded_advance (h : ∀ e ∈ w.sent, e.ids ≤ w.ids ∧
    w.reqId = e.reqId + UInt32.ofNat (w.ids - e.ids)) (hlate : TakenLate w.sent) :
    w.advance.Recorded where
  numbered := by
    intro e he
    obtain ⟨hle, hcount⟩ := h e he
    refine ⟨Nat.le_succ_of_le hle, ?_⟩
    have hsucc : w.ids + 1 - e.ids = (w.ids - e.ids) + 1 := by omega
    simp only [advance, hsucc, hcount, UInt32.ofNat_add, UInt32.add_assoc]
    rfl
  usedUp := fun e he _ _ _ _ => Nat.lt_succ_of_le (h e he).1
  late := hlate

/-- A request records what it heard, and takes one response at most. -/
theorem request_spec (h : w.Recorded) {asked : Asked} (io : WireIo)
    (hfresh : ∀ e ∈ w.sent, e.asked.call = asked.call → e.taken = none) :
    (w.request asked io).2.Recorded ∧ ∃ more, (w.request asked io).2.sent = w.sent ++ more ∧
      (∀ e ∈ more, e.asked = asked) ∧
      match (w.request asked io).1 with
      | some (.ok r) => ∃ e ∈ more, e.taken = some r
      | _ => ∀ e ∈ more, e.taken = none := by
  unfold request
  cases io.sendError with
  | some e => exact ⟨h, [], by simp, by simp, by simp⟩
  | none =>
    rcases hx : exchange w.idOf w.reqId io.readError io.datagrams with ⟨ended, heard⟩
    dsimp only
    have hquiet := recorded_unanswered h ⟨asked, w.reqId, w.ids, heard, none⟩ hfresh
      rfl rfl rfl
    match ended with
    | none => exact ⟨hquiet, _, rfl, by simp, by simp⟩
    | some (.error (e, parses)) =>
      cases parses with
      | false => exact ⟨hquiet, _, rfl, by simp, by simp⟩
      | true => exact ⟨recorded_advance hquiet.numbered hquiet.late, _, rfl, by simp, by simp⟩
    | some (.ok r) =>
      have hok := exchange_ok (r := r) (congrArg Prod.fst hx)
      refine ⟨recorded_advance (numbered_append h _ rfl rfl) ?_, _, rfl, by simp, by simp⟩
      refine takenLate_append h.late fun r' hr' => ?_
      obtain rfl : r = r' := by simpa using hr'
      exact ⟨by simpa [hx] using hok.2, late_of_idOf h hok.1⟩

theorem init_recorded (h : w.Recorded) (io : WireIo) :
    (w.init io).2.Recorded ∧ (w.init io).2.sent = w.sent := by
  have hadv := recorded_advance h.numbered h.late
  unfold init
  split <;> exact ⟨⟨hadv.numbered, hadv.usedUp, hadv.late⟩, rfl⟩

end Wire

/-! ## A call -/

theorem replyOf_done {response : Response} {reply : Reply Response}
    (h : replyOf wire response = .done reply) : reply.source = response := by
  unfold replyOf at h
  dsimp only at h
  split at h
  · cases h
  · cases h
    rfl

theorem discovered_session (s : Session Wire) :
    (discovered wire s).2.session = s.session ∧ (discovered wire s).2.calls = s.calls := by
  unfold discovered
  dsimp only
  split
  · split <;> exact ⟨rfl, rfl⟩
  · exact ⟨rfl, rfl⟩

/-- What a part of a call does to the record: it adds requests that meet `P`. -/
structure Grows (P : Sent → Prop) (s s' : Session Wire) : Prop where
  recorded : s'.session.Recorded
  calls : s'.calls = s.calls
  sent : ∃ more, s'.session.sent = s.session.sent ++ more ∧ ∀ e ∈ more, P e

theorem Grows.trans {P : Sent → Prop} {s t u : Session Wire} (hst : Grows P s t)
    (htu : Grows P t u) : Grows P s u := by
  obtain ⟨more, hmore, hP⟩ := hst.sent
  obtain ⟨more', hmore', hP'⟩ := htu.sent
  refine ⟨htu.recorded, htu.calls.trans hst.calls, more ++ more', ?_, ?_⟩
  · rw [hmore', hmore, List.append_assoc]
  · exact fun e he => (List.mem_append.1 he).elim (hP e) (hP' e)

theorem Grows.mono {P Q : Sent → Prop} {s t : Session Wire} (h : Grows P s t)
    (hPQ : ∀ e, P e → Q e) : Grows Q s t :=
  ⟨h.recorded, h.calls, h.sent.imp fun _ hm => ⟨hm.1, fun e he => hPQ e (hm.2 e he)⟩⟩

theorem Grows.same {P : Sent → Prop} {s s' : Session Wire} (h : s'.session.Recorded)
    (hsent : s'.session.sent = s.session.sent) (hcalls : s'.calls = s.calls) : Grows P s s' :=
  ⟨h, hcalls, [], by simp [hsent], by simp⟩

theorem discoverLoop_spec (ios : List WireIo) (attempts : Nat) {s : Session Wire}
    (h : s.session.Recorded) :
    Grows (fun _ => False) s (discoverLoop wire ios attempts s).2 := by
  induction ios generalizing attempts s with
  | nil => exact .same h rfl rfl
  | cons io rest ih =>
    have hinit := Wire.init_recorded h io
    simp only [discoverLoop, wire_init]
    rcases hx : s.session.init io with ⟨_ | _ | _, session⟩ <;> rw [hx] at hinit
    · -- no answer to the probe in time
      dsimp only
      split
      · exact .same hinit.1 hinit.2 rfl
      · have hstep : Grows (fun _ => False) s { s with session } := .same hinit.1 hinit.2 rfl
        exact hstep.trans (ih (attempts + 1) hstep.recorded)
    · exact .same hinit.1 hinit.2 rfl
    · obtain ⟨hsession, hcalls⟩ := discovered_session { s with session }
      exact .same (hsession ▸ hinit.1) (hsession ▸ hinit.2) hcalls

theorem discover_spec (ios : List WireIo) {s : Session Wire} (h : s.session.Recorded) :
    Grows (fun _ => False) s (discover wire ios s).2 := by
  unfold discover
  split
  · exact .same h rfl rfl
  · exact discoverLoop_spec ios 0 h

/-- So does an attempt. -/
theorem attempt_spec (asked : Asked) (io : WireIo) {s : Session Wire} (h : s.session.Recorded)
    (hfresh : ∀ e ∈ s.session.sent, e.asked.call = asked.call → e.taken = none) :
    Grows (·.asked = asked) s (attempt wire asked io s).2 ∧
      match (attempt wire asked io s).1 with
      | .done reply => ∃ e ∈ (attempt wire asked io s).2.session.sent,
          e.asked = asked ∧ e.taken = some reply.source
      | .undecodable _ => True
      | _ => ∀ e ∈ (attempt wire asked io s).2.session.sent,
          e.asked.call = asked.call → e.taken = none := by
  obtain ⟨hrec, more, hsent, hasked, htaken⟩ := Wire.request_spec h io hfresh
  have hquiet (hnone : ∀ e ∈ more, e.taken = none) :
      ∀ e ∈ s.session.sent ++ more, e.asked.call = asked.call → e.taken = none := fun e he hcall =>
    (List.mem_append.1 he).elim (hfresh e · hcall) (hnone e)
  unfold attempt
  simp only [wire_request]
  rcases hx : s.session.request asked io with ⟨_ | e | response, session⟩ <;>
    rw [hx] at hrec hsent htaken <;> dsimp only at hrec hsent htaken ⊢
  · exact ⟨⟨hrec, rfl, more, hsent, hasked⟩, hsent ▸ hquiet htaken⟩
  · exact ⟨⟨hrec, rfl, more, hsent, hasked⟩, hsent ▸ hquiet htaken⟩
  · refine ⟨⟨hrec, rfl, more, hsent, hasked⟩, ?_⟩
    obtain ⟨e, he, htook⟩ := htaken
    cases hreply : replyOf wire response with
    | done reply =>
      refine ⟨e, by simp [hsent, he], hasked e he, ?_⟩
      rw [replyOf_done hreply, htook]
    | undecodable => trivial
    | failed | timedOut => simp only [replyOf] at hreply; split at hreply <;> cases hreply

/-- A call returns a response that was taken for one of its own requests. -/
theorem callLoop_spec (asked : Asked) (turns : List (Turn WireIo)) (retry : Retry)
    {s : Session Wire} (h : s.session.Recorded)
    (hfresh : ∀ e ∈ s.session.sent, e.asked.call = asked.call → e.taken = none) :
    Grows (·.asked = asked) s (callLoop wire asked turns retry s).2 ∧
      ∀ reply, (callLoop wire asked turns retry s).1 = some (.ok reply) →
        ∃ e ∈ (callLoop wire asked turns retry s).2.session.sent,
          e.asked = asked ∧ e.taken = some reply.source := by
  induction turns generalizing retry s with
  | nil => exact ⟨.same h rfl rfl, by simp [callLoop]⟩
  | cons turn rest ih =>
    have hdisc := discover_spec turn.discovery h
    have hdiscovered : Grows (·.asked = asked) s (discover wire turn.discovery s).2 :=
      hdisc.mono fun _ => False.elim
    have hsent : (discover wire turn.discovery s).2.session.sent = s.session.sent := by
      obtain ⟨more, hmore, hnone⟩ := hdisc.sent
      rw [hmore, List.eq_nil_iff_forall_not_mem.2 hnone, List.append_nil]
    simp only [callLoop]
    rcases hx : discover wire turn.discovery s with ⟨_ | _ | _, s₁⟩ <;>
      rw [hx] at hdiscovered hsent <;> dsimp only at hdiscovered hsent ⊢
    · exact ⟨hdiscovered, by simp⟩
    · exact ⟨hdiscovered, by simp⟩
    · cases turn.wait with
      | none => exact ⟨hdiscovered, by simp⟩
      | some io =>
        obtain ⟨hgrows, htried⟩ := attempt_spec asked io hdiscovered.recorded (hsent ▸ hfresh)
        dsimp only
        rcases hy : attempt wire asked io s₁ with ⟨tried, s₂⟩
        rw [hy] at hgrows htried
        have hjudged := judge_same tried retry s₂
        dsimp only at hgrows htried ⊢
        rcases hz : judge tried retry s₂ with ⟨verdict, retry', s₃⟩
        rw [hz] at hjudged
        dsimp only at hjudged
        have hsession : s₃.session = s₂.session := by rw [hjudged]
        have htotal : Grows (·.asked = asked) s s₃ := hdiscovered.trans <| hgrows.trans <|
          .same (hsession ▸ hgrows.recorded) (by rw [hsession]) (by rw [hjudged])
        cases verdict with
        | fail e => exact ⟨htotal, by simp⟩
        | done reply =>
          obtain rfl := judge_done (congrArg Prod.fst hz)
          refine ⟨htotal, ?_⟩
          rintro _ ⟨⟩
          rwa [hsession]
        | again =>
          -- nothing has been taken, so that the next attempt may take a response
          have hagain : ∀ e ∈ s₃.session.sent, e.asked.call = asked.call → e.taken = none := by
            rw [hsession]
            cases tried with
            | done reply | undecodable e => simp [judge] at hz
            | failed e | timedOut => exact htried
          have hnext := ih retry' htotal.recorded hagain
          exact ⟨htotal.trans hnext.1, hnext.2⟩

/-! ## A poll, and a write -/

/-- The invariant of a session between two calls. -/
structure Session.Recorded (s : Session Wire) : Prop where
  wire : s.session.Recorded
  numbered : ∀ e ∈ s.session.sent, e.asked.call < s.calls

/-- What calls do to a session. -/
structure Later (s s' : Session Wire) : Prop where
  recorded : s'.Recorded
  sent : s.session.sent <+: s'.session.sent

theorem Later.refl {s : Session Wire} (h : s.Recorded) : Later s s := ⟨h, List.prefix_rfl⟩

theorem Later.trans {s t u : Session Wire} (hst : Later s t) (htu : Later t u) : Later s u :=
  ⟨htu.recorded, hst.sent.trans htu.sent⟩

/-- The response was taken by a request of the record, one that meets `P`. -/
def Taken (sent : List Sent) (r : Response) (P : Asked → Prop) : Prop :=
  ∃ e ∈ sent, P e.asked ∧ e.taken = some r

theorem Taken.mono {sent sent' : List Sent} (h : sent <+: sent') {r : Response}
    {P : Asked → Prop} : Taken sent r P → Taken sent' r P :=
  fun ⟨e, he, hP⟩ => ⟨e, h.subset he, hP⟩

theorem call_spec (request : Request) (turns : List (Turn WireIo)) {s : Session Wire}
    (h : s.Recorded) :
    Later s (s.call wire request turns).2 ∧ ∀ reply,
      (s.call wire request turns).1 = some (.ok reply) →
        Taken (s.call wire request turns).2.session.sent reply.source
          (· = { call := s.calls, request }) := by
  have hfresh : ∀ e ∈ s.session.sent, e.asked.call = s.calls → e.taken = none :=
    fun e he hcall => absurd hcall (h.numbered e he).ne
  obtain ⟨⟨hrec, hcalls, more, hsent, hmore⟩, hreply⟩ :=
    callLoop_spec { call := s.calls, request } turns {} (s := { s with calls := s.calls + 1 })
      h.wire hfresh
  refine ⟨⟨⟨hrec, ?_⟩, more, hsent.symm⟩, hreply⟩
  intro e he
  simp only [Session.call] at he ⊢
  rw [hsent] at he
  rw [hcalls]
  rcases List.mem_append.1 he with he | he
  · exact Nat.lt_succ_of_lt (h.numbered e he)
  · simp [hmore e he]

/-- A sample was made of a response to a read that took it, or it is bad. -/
def Sourced (sent : List Sent) (x : Sampled Response) : Prop :=
  (∀ evidence, x.source = some evidence → evidence.asked.isRead ∧
    Taken sent evidence.response (·.request = evidence.asked)) ∧
  (x.source = none → x.sample.quality = .bad)

theorem Sourced.mono {sent sent' : List Sent} (h : sent <+: sent') {x : Sampled Response}
    (hx : Sourced sent x) : Sourced sent' x :=
  ⟨fun evidence he => (hx.1 evidence he).imp_right (Taken.mono h), hx.2⟩

theorem sourced_ofReply {sent : List Sent} {request : Request} {reply : Reply Response}
    (hread : request.isRead) (h : Taken sent reply.source (·.request = request))
    (samples : List ObjectSample) : ∀ x ∈ ofReply request reply samples, Sourced sent x := by
  intro x hx
  obtain ⟨sample, -, rfl⟩ := List.mem_map.1 hx
  exact ⟨by rintro _ ⟨⟩; exact ⟨hread, h⟩, by simp⟩

/-- The samples of a cycle come from responses its requests took. -/
theorem cycle_sourced {s : Session Wire} :
    let Fine (out : List (Sampled Response)) (s' : Session Wire) :=
      Later s s' ∧ ∀ x ∈ out, Sourced s'.session.sent x
    Cycle wire (fun _ => True) Fine Fine (Later s) := by
  intro Fine
  have hjoin {out more : List (Sampled Response)} {t t' : Session Wire} (hfine : Fine out t)
      (hlater : Later t t') (hmore : ∀ x ∈ more, Sourced t'.session.sent x) :
      Fine (out ++ more) t' :=
    ⟨hfine.1.trans hlater,
      List.forall_mem_append.2 ⟨fun x hx => (hfine.2 x hx).mono hlater.sent, hmore⟩⟩
  have hfailed {x : Sampled Response} (sent : List Sent) (hx : x.Failed) : Sourced sent x :=
    ⟨by simp [hx.1], fun _ => hx.2⟩
  refine ⟨trivial, ?_, fun hfine => hfine.1, fun hfine more hmore =>
    hjoin hfine (.refl hfine.1.recorded) fun x hx => hfailed _ (hmore x hx)⟩
  rintro out t request turns - hfine hread
  obtain ⟨hlater, hreply⟩ := call_spec request turns hfine.1.recorded
  rcases hx : t.call wire request turns with ⟨_ | e | reply, t'⟩ <;> rw [hx] at hlater hreply <;>
    dsimp only at hlater hreply ⊢
  · exact hfine.1.trans hlater
  · intro more hmore
    rw [ite_self]
    exact hjoin hfine hlater fun x hx => hfailed _ (hmore x hx)
  · intro samples
    refine hjoin hfine hlater (sourced_ofReply hread ?_ samples)
    exact (hreply reply rfl).imp fun e he => ⟨he.1, by simp [he.2.1], he.2.2⟩

section

variable (model : DeviceModel)

theorem writeObject_spec (oid : Oid) (value : Encoded) (turns : List (Turn WireIo))
    {s : Session Wire} (h : s.Recorded) :
    Later s (writeObject wire model oid value turns s).2 ∧ ∀ source,
      (writeObject wire model oid value turns s).1 = some (.ok (), source) →
        ∃ evidence, source = some evidence ∧
          Taken (writeObject wire model oid value turns s).2.session.sent evidence.response
            (· = { call := s.calls, request := .set oid value }) := by
  obtain ⟨hlater, hreply⟩ := call_spec (.set oid value) turns h
  simp only [writeObject]
  rcases hx : s.call wire (.set oid value) turns with ⟨_ | e | reply, s'⟩ <;>
    rw [hx] at hlater hreply <;> dsimp only at hlater hreply ⊢
  · exact ⟨hlater, by simp⟩
  · exact ⟨hlater, by simp⟩
  · split
    · exact ⟨hlater, by simp⟩
    · exact ⟨hlater, by rintro _ ⟨⟩; exact ⟨_, rfl, hreply reply rfl⟩⟩

end

/-! ## The device -/

/-- Every session that was opened keeps its record. -/
def Sessions.Recorded (st : Sessions) : Prop := ∀ s ∈ st.opened, s.Recorded

theorem openSession_recorded (model : DeviceModel) (start : UInt32) :
    (openSession model start).Recorded :=
  ⟨⟨by simp [openSession], by simp [openSession], by simp [openSession, TakenLate]⟩,
    by simp [openSession]⟩

theorem sentOn_set {st : Sessions} {i : Nat} {s s' : Session Wire} (hs : st.opened[i]? = some s) :
    ({ st with opened := st.opened.set i s' } : Sessions).sentOn i = s'.session.sent := by
  obtain ⟨hlt, -⟩ := List.getElem?_eq_some_iff.1 hs
  simp [Sessions.sentOn, hlt]

theorem recorded_set {st : Sessions} {i : Nat} {s' : Session Wire} (h : st.Recorded)
    (hs' : s'.Recorded) : ({ st with opened := st.opened.set i s' } : Sessions).Recorded := by
  intro t ht
  rcases List.mem_or_eq_of_mem_set ht with ht | rfl
  · exact h t ht
  · exact hs'

theorem answers_of_taken {sent : List Sent} (hlate : TakenLate sent) (hprompt : Prompt sent)
    {r : Response} {P : Asked → Prop} (htaken : Taken sent r P) :
    ∃ asked, P asked ∧ r.Answers sent fun e => asked.Fits e.asked := by
  obtain ⟨w, hw, hP, htook⟩ := htaken
  obtain ⟨n, hn⟩ := List.mem_iff_getElem?.1 hw
  obtain ⟨hheard, e, he, hfit⟩ := hlate n w r hn htook
  have hanswers : sent[r.answers]? = some e := by
    rw [List.getElem?_take] at he
    split at he
    · exact he
    · cases he
  refine ⟨w.asked, hP, e, hanswers, ?_⟩
  rcases hfit with hfit | hfit
  · exact .inl hfit
  · exact hprompt n w hn r hheard e he hfit

section

variable {model : DeviceModel}

variable {st : Sessions}

theorem pollOn_spec (ts : Nat) (points : List String) (calls : List (List (Turn WireIo)))
    (h : st.Recorded) (i : Nat) :
    (pollOn model ts points calls st i).1.Recorded ∧
      ∀ j samples, (pollOn model ts points calls st i).2 = .sampled j samples →
        ∀ x ∈ samples, Sourced ((pollOn model ts points calls st i).1.sentOn j) x := by
  unfold pollOn
  cases hs : st.opened[i]? with
  | none => exact ⟨h, by simp⟩
  | some s =>
    have hpoll := (cycle_sourced (s := s)).readObjects model ts (wantedPoints model points)
      (fun turns (_ : turns ∈ calls) => trivial) ⟨.refl (h s (List.mem_of_getElem? hs)), by simp⟩
    dsimp only
    rcases hx : readObjects wire model ts (wantedPoints model points) calls s with
      ⟨_ | samples, s'⟩ <;> simp only [hx, or_self] at hpoll ⊢
    · exact ⟨recorded_set h hpoll.recorded, by simp⟩
    · refine ⟨recorded_set h hpoll.1.recorded, ?_⟩
      rintro _ _ ⟨⟩
      rw [sentOn_set hs]
      exact hpoll.2

/-- A write that succeeds took a response to its own set request. -/
theorem writeOn_spec (oid : Oid) (value : Encoded) (turns : List (Turn WireIo)) (h : st.Recorded)
    (i : Nat) :
    (writeOn model oid value turns st i).1.Recorded ∧
      ∀ j source, (writeOn model oid value turns st i).2 = .written j (.ok ()) source →
        st.sentOn j <+: (writeOn model oid value turns st i).1.sentOn j ∧
        ∃ evidence, source = some evidence ∧
          Taken ((writeOn model oid value turns st i).1.sentOn j) evidence.response fun asked =>
            asked.request = .set oid value ∧ ∀ e ∈ st.sentOn j, e.asked.call < asked.call := by
  unfold writeOn
  cases hs : st.opened[i]? with
  | none => exact ⟨h, by simp⟩
  | some s =>
    have hrec := h s (List.mem_of_getElem? hs)
    have hsent : st.sentOn i = s.session.sent := by simp [Sessions.sentOn, hs]
    obtain ⟨hlater, hsource⟩ := writeObject_spec model oid value turns hrec
    dsimp only
    refine ⟨recorded_set h hlater.recorded, ?_⟩
    intro j source hout
    split at hout
    · cases hout
    · rename_i heq
      cases hout
      rw [sentOn_set hs, hsent]
      obtain ⟨evidence, hev, e, he, hasked, htook⟩ := hsource source heq
      exact ⟨hlater.sent, evidence, hev, e, he,
        ⟨by simp [hasked], by simpa [hasked] using hrec.numbered⟩, htook⟩

theorem sentOn_open (st : Sessions) (start : UInt32) (read write : Option Nat) (j : Nat) :
    ({ opened := st.opened ++ [openSession model start], read, write } : Sessions).sentOn j =
      st.sentOn j := by
  simp only [Sessions.sentOn]
  rcases Nat.lt_trichotomy j st.opened.length with hj | rfl | hj
  · rw [List.getElem?_append_left hj]
  · simp [openSession]
  · simp [hj, hj.le]

theorem recorded_open (h : st.Recorded) (start : UInt32) (read write : Option Nat) :
    ({ opened := st.opened ++ [openSession model start], read, write } : Sessions).Recorded :=
  List.forall_mem_append.2 ⟨h, by simpa using openSession_recorded model start⟩

theorem readSession_spec (model : DeviceModel) (start : Except String UInt32) (h : st.Recorded) :
    (readSession model start st).2.Recorded ∧
      ∀ j, (readSession model start st).2.sentOn j = st.sentOn j := by
  unfold readSession
  split
  · exact ⟨h, fun _ => rfl⟩
  · exact ⟨h, fun _ => rfl⟩
  · exact ⟨recorded_open h _ _ _, sentOn_open st _ _ _⟩

theorem writeSession_spec (model : DeviceModel) (start : Except String UInt32) (h : st.Recorded) :
    (writeSession model start st).2.Recorded ∧
      ∀ j, (writeSession model start st).2.sentOn j = st.sentOn j := by
  unfold writeSession
  split
  · exact readSession_spec model start h
  · split
    · exact ⟨h, fun _ => rfl⟩
    · exact ⟨h, fun _ => rfl⟩
    · exact ⟨recorded_open h _ _ _, sentOn_open st _ _ _⟩

/-- Every event keeps the record. -/
theorem step_recorded (model : DeviceModel) (h : st.Recorded) (event : Event) :
    (step model st event).1.Recorded := by
  cases event with
  | read held start ts points calls =>
    cases held with
    | some i => exact (pollOn_spec ts points calls h i).1
    | none =>
      have hopen := (readSession_spec model start h).1
      simp only [step]
      split
      · exact h
      · split <;> rename_i heq <;> rw [heq] at hopen
        · exact hopen
        · exact (pollOn_spec ts points calls hopen _).1
  | write start point encoded turns =>
    have hopen := (writeSession_spec model start h).1
    simp only [step]
    split
    · exact h
    · split <;> rename_i heq <;> rw [heq] at hopen
      · exact hopen
      · exact (writeOn_spec _ _ turns hopen _).1
  | reconnect => exact h

theorem sentOn_late (h : st.Recorded) (i : Nat) : TakenLate (st.sentOn i) := by
  unfold Sessions.sentOn
  cases hs : st.opened[i]? with
  | none => simp [TakenLate]
  | some s => exact (h s (List.mem_of_getElem? hs)).wire.late

theorem sentOn_prompt (h : PromptAll st) (i : Nat) : Prompt (st.sentOn i) := by
  unfold Sessions.sentOn
  cases hs : st.opened[i]? with
  | none => simp [Prompt]
  | some s => exact h s (List.mem_of_getElem? hs)

theorem answers_of_sourced {sent : List Sent} (hlate : TakenLate sent) (hprompt : Prompt sent)
    {x : Sampled Response} (hx : Sourced sent x) :
    (∀ evidence, x.source = some evidence → evidence.asked.isRead ∧
      evidence.response.Answers sent (·.asked.request = evidence.asked)) ∧
    (x.source = none → x.sample.quality = .bad) := by
  refine ⟨fun evidence hev => ?_, hx.2⟩
  obtain ⟨hread, htaken⟩ := hx.1 evidence hev
  obtain ⟨asked, hasked, e, he, hfit⟩ := answers_of_taken hlate hprompt htaken
  refine ⟨hread, e, he, ?_⟩
  rcases hfit with hfit | hfit
  · rw [hfit, hasked]
  · rw [hfit.1, hasked]

/-- The samples of a read come from responses its own session took. -/
theorem step_sampled (model : DeviceModel) (h : st.Recorded) (event : Event) (i : Nat)
    (samples : List (Sampled Response)) (hout : (step model st event).2 = .sampled i samples) :
    ∀ x ∈ samples, Sourced ((step model st event).1.sentOn i) x := by
  cases event with
  | read held start ts points calls =>
    cases held with
    | some k => exact (pollOn_spec ts points calls h k).2 i samples hout
    | none =>
      have hopen := (readSession_spec model start h).1
      simp only [step] at hout ⊢
      split at hout
      · cases hout
      · rename_i hwanted
        rw [if_neg hwanted]
        split at hout <;> rename_i heq <;> rw [heq] at hopen
        · cases hout
        · exact (pollOn_spec ts points calls hopen _).2 i samples hout
  | write start point encoded turns =>
    simp only [step] at hout
    split at hout
    · cases hout
    · split at hout
      · cases hout
      · -- a write gives back no samples
        unfold writeOn at hout
        split at hout
        · cases hout
        · dsimp only at hout
          split at hout <;> cases hout
  | reconnect => cases hout

theorem step_written (h : st.Recorded) {start : Except String UInt32} {point : String}
    {encoded : Option (Except String Encoded)} {turns : List (Turn WireIo)} {st' : Sessions}
    {i : Nat} {source : Option (Evidence Response)}
    (hstep : step model st (.write start point encoded turns) = (st', .written i (.ok ()) source)) :
    ∃ oid value, checkWrite model point encoded = .ok (oid, value) ∧
      st.sentOn i <+: st'.sentOn i ∧ ∃ evidence, source = some evidence ∧
        Taken (st'.sentOn i) evidence.response fun asked =>
          asked.request = .set oid value ∧ ∀ e ∈ st.sentOn i, e.asked.call < asked.call := by
  obtain ⟨hopen, hsame⟩ := writeSession_spec model start h
  simp only [step] at hstep
  split at hstep
  · cases hstep
  · rename_i oid value hcheck
    split at hstep <;> rename_i heq <;> rw [heq] at hopen hsame
    · cases hstep
    · have hwrite := (writeOn_spec oid value turns hopen _).2 i source (congrArg Prod.snd hstep)
      rw [hstep, hsame] at hwrite
      exact ⟨oid, value, hcheck, hwrite⟩

/-- Where every response is prompt, an answer belongs to what it answers. -/
theorem step_belongs (h : st.Recorded) (event : Event) (hprompt : PromptAll (step model st event).1) :
    Belongs model st event := by
  have hrec := step_recorded model h event
  have hsampled := step_sampled model h event
  unfold Belongs
  rcases hx : step model st event with ⟨st', output⟩
  rw [hx] at hrec hsampled hprompt
  dsimp only at hrec hsampled hprompt ⊢
  split
  · rename_i start point encoded turns i result source
    rintro rfl
    obtain ⟨oid, value, hcheck, hprefix, evidence, hev, htaken⟩ := step_written h hx
    obtain ⟨asked, ⟨hset, hnew⟩, e, he, hfit⟩ :=
      answers_of_taken (sentOn_late hrec i) (sentOn_prompt hprompt i) htaken
    -- a SET only takes the answer to its own call, and that call is new on the session
    obtain rfl : e.asked = asked := by
      rcases hfit with hfit | ⟨-, hread⟩
      · exact hfit
      · simp [hset, Request.isRead] at hread
    refine ⟨oid, value, evidence, hcheck, hev, ?_, e, he, hset⟩
    by_contra hlt
    have hold := List.prefix_iff_getElem?.1 hprefix _ (Nat.lt_of_not_le hlt)
    obtain rfl : (st.sentOn i)[evidence.response.answers] = e := Option.some.inj (hold.symm.trans he)
    exact absurd (hnew _ (List.getElem_mem _)) (Nat.lt_irrefl _)
  · intro x hx
    exact answers_of_sourced (sentOn_late hrec _) (sentOn_prompt hprompt _) (hsampled _ _ rfl x hx)
  · trivial

end

/-! ## Every run -/

/-- Where no late response is heard by a request that it does not fit, every answer belongs to its
request: in every run of the device. -/
theorem answers_belong (model : DeviceModel) (events : List Event)
    (h : AllSteps (step model) (fun st event => PromptAll (step model st event).1) {} events) :
    AllSteps (step model) (Belongs model) {} events := by
  exact allSteps_of_allSteps (P := Sessions.Recorded)
    (fun st event _ hrec => step_recorded _ hrec event)
    (fun st event hprompt hrec => step_belongs hrec event hprompt) h (by simp [Sessions.Recorded])

def heater : DeviceModel :=
  { name := "heater", version := .v2c, community := [], writeCommunity := [], retries := 0
    after := "2.000", maxVarbinds := 10, bulk := false, pinnedEngineId := none
    points := [{
      id := "setpoint", oid := some [1, 3, 6, 1, 4, 1], access := .readWrite, mode := .typed
      datatype := none, unit := none, transform := id }] }

/-- The agent's response, without an error, to the request of this number. -/
def grants (answers : Nat) : Datagram :=
  .response { answers, pdu := {
    version := some .v2c, community := [], messageType := .response, reqId := 0, errorStatus := 0
    errorIndex := 0, v1TrapInfo := none, varbinds := [] } }

/-- A write of the setpoint, and what arrives while it waits. -/
def setTo (value : Int) (datagrams : List Datagram) : Event :=
  .write (.ok 7) "setpoint" (some (.ok (.int value)))
    [{ discovery := [], wait := some { datagrams } }]

/-- Two writes, each of them answered; the first answer comes twice. -/
theorem answers_belong_setTo :
    AllSteps (step heater) (Belongs heater) {}
      [setTo 5 [grants 0], setTo 7 [grants 0, grants 1]] := by
  refine answers_belong heater _ ⟨fun s hs => prompt_of_ids ?_, fun s hs => prompt_of_ids ?_, trivial⟩
  all_goals
    revert s
    decide

/-- A write that nobody answers in time, and one that succeeds by the late answer to it. -/
theorem late_answer :
    ¬ AllSteps (step heater) (Belongs heater) {} [setTo 5 [], setTo 7 [grants 0]] := by
  intro h
  obtain ⟨oid, value, evidence, -, hev, hle, -⟩ := h.2.1 rfl
  cases hev
  exact absurd hle (by decide)

end TedgeDot.Snmp
