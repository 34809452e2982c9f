import TedgeDot.Lib.Machine
import TedgeDot.Snmp.Listener
import TedgeDot.Snmp.Poll

/-!
# The engine that traps are checked against

The engine of a device is learned in two places: a poll pins the one that discovery found
(`after_read` of `lib.rs`), and the first trap that passes the checks brings its own (`receive_v3`
of `listener.rs`, through `handle`).

The library is a parameter, and so is what counts as verified (`Verification`); that the library
verifies what names an engine is the hypothesis `Verifies`. A Response of SNMPv1 or SNMPv2c names
none, and the library takes it on a v3 session too, where the community is the name of the user: the
law holds of the runs whose polls meet no such Response (`NoPlain`).

## Layers

- **The connector**: sessions, `after_read`, reads, writes, reconnects, and datagrams.
- **A call**: the engine of a session that is ready is the one that was discovered.
- **A poll**: by the rule `Cycle`, what made a sample was verified under that engine.
- **A datagram**: what `handle` leaves of a device's v3 state.
- **Every run**: `only_verified_moves`.
-/

namespace TedgeDot.Snmp.TrapEngine

open Machine

/-! ## The connector -/

/-- The security state of a user, as far as its engine goes. -/
structure Usm (Security : Type) where
  /-- `engine_id`. -/
  engineId : Security → List UInt8
  /-- `with_engine_id`. -/
  withEngineId : Security → List UInt8 → Except String Security
  /-- `reset_engine_counters`. -/
  resetEngineCounters : Security → Security

/-- `SnmpConnector`, for `n` devices. -/
structure Connector (σ Security Engine : Type) (n : Nat) where
  routes : Routes Security Engine n
  /-- Every request session that was opened, with its device: a reader may hold a dropped one. -/
  opened : List (Fin n × Session σ)
  sessions : Fin n → Option Nat
  writeSessions : Fin n → Option Nat
  resolved : Fin n → Bool

inductive Event (Io : Type) (n : Nat) where
  /-- `read_points` of the connector. -/
  | read (i : Fin n) (opening : Io) (ts : Nat) (points : List String)
      (calls : List (List (Turn Io)))
  /-- `read_points` of a reader, of the session that it holds. -/
  | reader (held : Nat) (ts : Nat) (points : List String) (calls : List (List (Turn Io)))
  | write (i : Fin n) (opening : Io) (point : String)
      (encoded : Option (Except String Encoded)) (turns : List (Turn Io))
  /-- `ip` is what the host of the device resolves to. -/
  | reconnect (i : Fin n) (ip : Except String IpAddr)
  | datagram (bytes : List UInt8) (peer : IpAddr) (ts : Nat)

inductive Output (α : Type) (n : Nat) where
  | nothing
  | refused (e : String)
  /-- The call was given up by its caller. -/
  | cancelled
  /-- What a poll read, and what it gives back of that. -/
  | sampled (i : Fin n) (samples : List (Sampled α)) (published : List ObjectSample)
  | written (i : Fin n) (result : Except String Unit)
  | received (delivery : Option (Delivery n))

section

variable {σ Io α Security Engine Message : Type} {n : Nat}

/-- What the connector runs on. -/
structure Setting (σ Io α Security Engine Message : Type) (n : Nat) where
  client : Library σ Io α
  lib : Snmp2 Security Engine Message
  usm : Usm Security
  /-- The constructors of `AsyncSession`, for a device and a community. -/
  openWire : Fin n → List UInt8 → Io → Except String σ
  models : Fin n → DeviceModel
  /-- The level of the v3 table of a device. -/
  levels : Fin n → Option SecurityLevel

variable (env : Setting σ Io α Security Engine Message n)

/-- `Session::open`. -/
def openSession (i : Fin n) (community : List UInt8) (opening : Io) : Except String (Session σ) :=
  let model := env.models i
  match env.openWire i community opening with
  | .error e => .error s!"cannot reach the device: {e}"
  | .ok session => .ok {
      session, version := model.version, retries := model.retries
      pinnedEngineId := model.pinnedEngineId, discoveredEngineId := none
      ready := model.version ≠ .v3, calls := 0 }

/-- `session`. -/
def readSession (st : Connector σ Security Engine n) (i : Fin n) (opening : Io) :
    Except String Nat × Connector σ Security Engine n :=
  if st.resolved i = false then (.error (env.models i).name, st)
  else
    match st.sessions i with
    | some k => (.ok k, st)
    | none =>
      match openSession env i (env.models i).community opening with
      | .error e => (.error e, st)
      | .ok s =>
        (.ok st.opened.length, { st with
          opened := st.opened ++ [(i, s)]
          sessions := Function.update st.sessions i (some st.opened.length) })

def writeSession (st : Connector σ Security Engine n) (i : Fin n) (opening : Io) :
    Except String Nat × Connector σ Security Engine n :=
  let model := env.models i
  if ¬ (model.version ≠ .v3 ∧ model.writeCommunity ≠ model.community) then
    readSession env st i opening
  else if st.resolved i = false then (.error model.name, st)
  else
    match st.writeSessions i with
    | some k => (.ok k, st)
    | none =>
      match openSession env i model.writeCommunity opening with
      | .error e => (.error e, st)
      | .ok s =>
        (.ok st.opened.length, { st with
          opened := st.opened ++ [(i, s)]
          writeSessions := Function.update st.writeSessions i (some st.opened.length) })

/-- The samples in the order in which the points were asked for. -/
def inOrder : List String → List ObjectSample → List ObjectSample
  | [], _ => []
  | id :: rest, samples =>
    match samples.reverse.find? (·.point == id) with
    | some sample => sample :: inOrder rest (samples.filter (·.point != id))
    | none => inOrder rest samples

/-- A request authenticated with the engine of the session, as far as the samples say. -/
def isVerified (level : Option SecurityLevel) (samples : List ObjectSample) : Bool :=
  (match level with
    | some level => !decide (level < .authNoPriv)
    | none => false) && samples.any (·.quality ≠ .bad)

/-- The part of `after_read` that pins the engine. -/
def pinEngine (routes : Routes Security Engine n) (i : Fin n) (engineId : List UInt8) :
    Routes Security Engine n :=
  match (routes.devices i).v3 with
  | none => routes
  | some v3 =>
    if env.usm.engineId v3.trap = engineId then routes
    else
      match env.usm.withEngineId v3.trap engineId with
      | .error _ => routes
      | .ok localized =>
        let trap := env.usm.resetEngineCounters localized
        let route := { routes.devices i with v3 := some { v3 with trap } }
        { routes with devices := Function.update routes.devices i route }

def afterRead (routes : Routes Security Engine n) (i : Fin n) (s : Session σ)
    (samples : List ObjectSample) (points : List String) :
    List ObjectSample × Routes Security Engine n :=
  (inOrder points samples,
    match isVerified (env.levels i) samples, s.discoveredEngineId with
    | true, some engineId => pinEngine env routes i engineId
    | _, _ => routes)

/-- A poll on a session: the lock of the session is held up to the end. -/
def pollOn (st : Connector σ Security Engine n) (k : Nat) (ts : Nat) (points : List String)
    (calls : List (List (Turn Io))) : Connector σ Security Engine n × Output α n :=
  match st.opened[k]? with
  | none => (st, .nothing)
  | some (i, s) =>
    let model := env.models i
    match readObjects env.client model ts (wantedPoints model points) calls s with
    | (none, s) => ({ st with opened := st.opened.set k (i, s) }, .cancelled)
    | (some samples, s) =>
      let (published, routes) := afterRead env st.routes i s (samples.map (·.sample)) points
      ({ st with opened := st.opened.set k (i, s), routes }, .sampled i samples published)

def writeOn (st : Connector σ Security Engine n) (k : Nat) (oid : Oid) (value : Encoded)
    (turns : List (Turn Io)) : Connector σ Security Engine n × Output α n :=
  match st.opened[k]? with
  | none => (st, .nothing)
  | some (i, s) =>
    match writeObject env.client (env.models i) oid value turns s with
    | (none, s) => ({ st with opened := st.opened.set k (i, s) }, .cancelled)
    | (some (result, _), s) =>
      ({ st with opened := st.opened.set k (i, s) }, .written i result)

def attach (st : Connector σ Security Engine n) (i : Fin n) (ip : Except String IpAddr) :
    Connector σ Security Engine n :=
  let byAddr := fun addr => (st.routes.byAddr addr).filter (· ≠ i)
  let kept := { st.routes with byAddr }
  match ip with
  | .error _ => { st with routes := kept, resolved := Function.update st.resolved i false }
  | .ok ip =>
    if (byAddr ip).isSome then
      { st with routes := kept, resolved := Function.update st.resolved i false }
    else { st with
      routes := { kept with byAddr := Function.update byAddr ip (some i) }
      resolved := Function.update st.resolved i true }

def step (st : Connector σ Security Engine n) :
    Event Io n → Connector σ Security Engine n × Output α n
  | .read i opening ts points calls =>
    if (wantedPoints (env.models i) points).isEmpty then (st, .nothing)
    else
      match readSession env st i opening with
      | (.error e, st) => (st, .refused e)
      | (.ok k, st) => pollOn env st k ts points calls
  | .reader held ts points calls => pollOn env st held ts points calls
  | .write i opening point encoded turns =>
    match checkWrite (env.models i) point encoded with
    | .error e => (st, .refused e)
    | .ok (oid, value) =>
      match writeSession env st i opening with
      | (.error e, st) => (st, .refused e)
      | (.ok k, st) => writeOn env st k oid value turns
  | .reconnect i ip =>
    (attach { st with
      sessions := Function.update st.sessions i none
      writeSessions := Function.update st.writeSessions i none } i ip, .nothing)
  | .datagram bytes peer ts =>
    let (delivery, routes) := handle env.lib st.routes bytes peer ts
    ({ st with routes }, .received delivery)

/-! ## The law -/

/-- What it is for a datagram, and for a response, to be verified under an engine at a level. -/
structure Verification (α : Type) where
  message : List UInt8 → List UInt8 → SecurityLevel → Prop
  response : α → List UInt8 → SecurityLevel → Prop

/-- The library verifies the v3 messages that it accepts, under the keys localized to the engine that
they name; a session has the level of its device, and its engine is changed by `init` only. -/
structure Verifies (ver : Verification α) (level : σ → Option SecurityLevel) : Prop where
  message : ∀ {datagram trap message trap'},
    env.lib.receiveNonAuthoritative datagram trap = (.ok message, trap') →
      ver.message datagram (env.usm.engineId trap') (env.lib.securityLevel message)
  response : ∀ {s asked io r s' l}, env.client.request s asked io = (some (.ok r), s') →
    level s = some l → .noAuthNoPriv < l → (env.client.pdu r).version = some .v3 →
      ver.response r (env.client.engineId s) l
  opened : ∀ {i community opening s}, env.openWire i community opening = .ok s →
    level s = env.levels i
  level_init : ∀ s io, level (env.client.init s io).2 = level s
  level_request : ∀ s asked io, level (env.client.request s asked io).2 = level s
  found : ∀ {s io s'}, env.client.init s io = (some (.ok ()), s') → level s ≠ none →
    env.client.engineId s' ≠ []
  kept : ∀ s asked io, env.client.engineId s ≠ [] →
    env.client.engineId (env.client.request s asked io).2 = env.client.engineId s
  localized : ∀ {s engineId s'}, env.usm.withEngineId s engineId = .ok s' →
    env.usm.engineId s' = engineId
  counters : ∀ s, env.usm.engineId (env.usm.resetEngineCounters s) = env.usm.engineId s

/-- The engine that the traps of a device are checked against. -/
def trapEngine (st : Connector σ Security Engine n) (i : Fin n) : Option (List UInt8) :=
  (st.routes.devices i).v3.map fun v3 => env.usm.engineId v3.trap

/-- The engine of a device is changed by a step only to one under which a message or a response was
verified at the level of the device, or above: by a datagram, that datagram, and by a poll of a
device from authNoPriv up, a response that a sample of this poll was made of. -/
def OnlyVerified (ver : Verification α) (st : Connector σ Security Engine n)
    (event : Event Io n) : Prop :=
  let (st', output) := step env st event
  ∀ i, trapEngine env st' i ≠ trapEngine env st i →
    ∃ engine level l, trapEngine env st' i = some engine ∧ env.levels i = some level ∧
      ¬ l < level ∧
      match event, output with
      | .datagram bytes _ _, _ => ver.message bytes engine l
      | _, .sampled j samples _ => j = i ∧ .noAuthNoPriv < level ∧
          ∃ x ∈ samples, ∃ evidence, x.source = some evidence ∧
            ver.response evidence.response engine l
      | _, _ => False

/-- In the time of a wait, no Response of another version reaches a session that authenticates. -/
def Genuine (level : σ → Option SecurityLevel) (io : Io) : Prop :=
  ∀ s asked r s' l, env.client.request s asked io = (some (.ok r), s') → level s = some l →
    .noAuthNoPriv < l → (env.client.pdu r).version = some .v3

def GenuineTurns (level : σ → Option SecurityLevel) (turns : List (Turn Io)) : Prop :=
  ∀ turn ∈ turns, ∀ io ∈ turn.wait, Genuine env level io

/-- A step whose poll, if it is one, meets no such Response. -/
def NoPlain (level : σ → Option SecurityLevel) (_ : Connector σ Security Engine n) :
    Event Io n → Prop
  | .read _ _ _ _ calls | .reader _ _ _ calls => ∀ turns ∈ calls, GenuineTurns env level turns
  | _ => True

/-- The table as `connect` builds it: no session is open, and a device has the level of its v3
table. -/
structure Connected (st : Connector σ Security Engine n) : Prop where
  closed : st.opened = []
  levels : ∀ i v3, (st.routes.devices i).v3 = some v3 → env.levels i = some v3.level

/-! ## A call -/

variable {env}

/-- The invariant of a session, of a device of a level: once it is ready, its engine is the one that
was discovered. -/
structure Pinned (env : Setting σ Io α Security Engine Message n) (level : σ → Option SecurityLevel)
    (lv : Option SecurityLevel) (s : Session σ) : Prop where
  level : level s.session = lv
  engine : lv ≠ none → s.ready = true → ∀ e, s.discoveredEngineId = some e →
    env.client.engineId s.session = e ∧ e ≠ []

/-- What a part of a call does: a session that is ready keeps what it discovered. -/
structure Keeps (env : Setting σ Io α Security Engine Message n) (level : σ → Option SecurityLevel)
    (lv : Option SecurityLevel) (s s' : Session σ) : Prop where
  pinned : Pinned env level lv s'
  discovered : s.ready = true → s'.discoveredEngineId = s.discoveredEngineId

theorem Keeps.trans {level : σ → Option SecurityLevel} {lv : Option SecurityLevel}
    {s t u : Session σ} (hst : Keeps env level lv s t) (hready : s.ready = true → t.ready = true)
    (htu : Keeps env level lv t u) : Keeps env level lv s u :=
  ⟨htu.pinned, fun hs => (htu.discovered (hready hs)).trans (hst.discovered hs)⟩

section

variable {ver : Verification α} {level : σ → Option SecurityLevel} (hver : Verifies env ver level)
  {lv : Option SecurityLevel}

include hver

variable {s : Session σ}

theorem discovered_spec {io : Io} {session : σ} (hs : Pinned env level lv s)
    (hinit : env.client.init s.session io = (some (.ok ()), session)) (hready : s.ready = false) :
    Pinned env level lv (discovered env.client { s with session }).2 ∧
      ∀ u, (discovered env.client { s with session }).1 = .ok u →
        (discovered env.client { s with session }).2.ready = true := by
  have hlevel : level session = lv := by
    have hl := hver.level_init s.session io
    rw [hinit] at hl
    exact hl.trans hs.level
  have hfound : lv ≠ none → env.client.engineId session ≠ [] := fun hlv =>
    hver.found hinit (hs.level ▸ hlv)
  have hok : Pinned env level lv { s with
      session, discoveredEngineId := some (env.client.engineId session), ready := true } :=
    ⟨hlevel, by rintro hlv - _ ⟨⟩; exact ⟨rfl, hfound hlv⟩⟩
  unfold discovered
  dsimp only
  split
  · split
    · exact ⟨⟨hlevel, by simp [hready]⟩, by simp⟩
    · exact ⟨hok, by simp⟩
  · exact ⟨hok, by simp⟩

theorem discoverLoop_spec (ios : List Io) (attempts : Nat) (hs : Pinned env level lv s)
    (hready : s.ready = false) :
    Pinned env level lv (discoverLoop env.client ios attempts s).2 ∧
      ∀ u, (discoverLoop env.client ios attempts s).1 = some (.ok u) →
        (discoverLoop env.client ios attempts s).2.ready = true := by
  induction ios generalizing attempts s with
  | nil => exact ⟨hs, by simp [discoverLoop]⟩
  | cons io rest ih =>
    simp only [discoverLoop]
    rcases hx : env.client.init s.session io with ⟨_ | _ | _, session⟩
    all_goals
      have hstep : Pinned env level lv { s with session } :=
        ⟨by have hl := hver.level_init s.session io; rw [hx] at hl; exact hl.trans hs.level,
          by simp [hready]⟩
      dsimp only
    · split
      · exact ⟨hstep, by simp⟩
      · exact ih (attempts + 1) hstep hready
    · exact ⟨hstep, by simp⟩
    · obtain ⟨hpinned, hok⟩ := discovered_spec hver hs hx hready
      exact ⟨hpinned, fun u hu => hok u (Option.some.inj hu)⟩

theorem discover_spec (ios : List Io) (hs : Pinned env level lv s) :
    Keeps env level lv s (discover env.client ios s).2 ∧
      (s.ready = true → discover env.client ios s = (some (.ok ()), s)) ∧
      ∀ u, (discover env.client ios s).1 = some (.ok u) →
        (discover env.client ios s).2.ready = true := by
  unfold discover
  cases hready : s.ready with
  | true => exact ⟨⟨hs, fun _ => rfl⟩, by simp, by simp [hready]⟩
  | false =>
    obtain ⟨hpinned, hok⟩ := discoverLoop_spec hver ios 0 hs hready
    exact ⟨⟨hpinned, by simp [hready]⟩, by simp, hok⟩

/-- An attempt on a pinned session stays under its engine. -/
theorem attempt_spec (asked : Asked) (io : Io) (hs : Pinned env level lv s)
    (hready : s.ready = true) :
    Pinned env level lv (attempt env.client asked io s).2 ∧
      (attempt env.client asked io s).2.ready = true ∧
      (attempt env.client asked io s).2.discoveredEngineId = s.discoveredEngineId ∧
      ∀ reply, (attempt env.client asked io s).1 = .done reply → Genuine env level io →
        ∀ l, lv = some l → .noAuthNoPriv < l → ∀ e, s.discoveredEngineId = some e →
          ver.response reply.source e l := by
  have hpinned : Pinned env level lv
      { s with session := (env.client.request s.session asked io).2 } := by
    refine ⟨(hver.level_request _ _ _).trans hs.level, fun hlv hr e he => ?_⟩
    obtain ⟨hengine, hne⟩ := hs.engine hlv hready e he
    exact ⟨(hver.kept _ asked io (hengine ▸ hne)).trans hengine, hne⟩
  unfold attempt
  rcases hx : env.client.request s.session asked io with ⟨_ | e | response, session⟩ <;>
    rw [hx] at hpinned <;> refine ⟨hpinned, hready, rfl, ?_⟩
  · simp
  · simp
  · rintro reply hreply hgenuine l rfl hl e he
    obtain ⟨hengine, -⟩ := hs.engine (by simp) hready e he
    have hsource : reply.source = response := by
      simp only [replyOf] at hreply
      split at hreply <;> cases hreply
      rfl
    rw [hsource, ← hengine]
    exact hver.response hx hs.level hl (hgenuine _ _ _ _ _ hx hs.level hl)

/-- So does a call, and a reply to it was verified under that engine. -/
theorem callLoop_spec (asked : Asked) (turns : List (Turn Io)) (retry : Retry)
    (hs : Pinned env level lv s) :
    Keeps env level lv s (callLoop env.client asked turns retry s).2 ∧
      match (callLoop env.client asked turns retry s).1 with
      | none => True
      | some (.error e) => s.ready = true → e.stopsTheCycle = true ∨
          (callLoop env.client asked turns retry s).2.ready = true
      | some (.ok reply) => (callLoop env.client asked turns retry s).2.ready = true ∧
          (GenuineTurns env level turns → ∀ l, lv = some l → .noAuthNoPriv < l →
            ∀ e, (callLoop env.client asked turns retry s).2.discoveredEngineId = some e →
              ver.response reply.source e l) := by
  induction turns generalizing retry s with
  | nil => exact ⟨⟨hs, fun _ => rfl⟩, trivial⟩
  | cons turn rest ih =>
    obtain ⟨hkeeps, hsame, hok⟩ := discover_spec hver turn.discovery hs
    simp only [callLoop]
    rcases hx : discover env.client turn.discovery s with ⟨_ | e | u, s₁⟩ <;>
      rw [hx] at hkeeps hok <;> dsimp only at hkeeps hok ⊢
    · exact ⟨hkeeps, trivial⟩
    · refine ⟨hkeeps, fun hready => ?_⟩
      rw [hsame hready] at hx
      cases hx
    · have hready := hok u rfl
      cases hwait : turn.wait with
      | none => exact ⟨hkeeps, trivial⟩
      | some io =>
        obtain ⟨hpinned, hready₂, hdisc, hverified⟩ := attempt_spec hver asked io hkeeps.pinned hready
        dsimp only
        rcases hy : attempt env.client asked io s₁ with ⟨tried, s₂⟩
        rw [hy] at hpinned hready₂ hdisc hverified
        have hjudged := judge_same tried retry s₂
        have hstays := judge_ready tried retry hready₂
        rcases hz : judge tried retry s₂ with ⟨verdict, retry', s₃⟩
        rw [hz] at hjudged hstays
        dsimp only at hpinned hready₂ hdisc hverified hjudged hstays ⊢
        -- the engine of the session is as it was, and so is what was discovered
        have hpinned₃ : Pinned env level lv s₃ := by
          rw [hjudged]
          exact ⟨hpinned.level, fun hlv _ => hpinned.engine hlv hready₂⟩
        have hdisc₃ : s₃.discoveredEngineId = s₁.discoveredEngineId := by rw [hjudged, ← hdisc]
        have htotal : Keeps env level lv s s₃ := hkeeps.trans (fun _ => hready)
          ⟨hpinned₃, fun _ => hdisc₃⟩
        cases verdict with
        | fail e =>
          refine ⟨htotal, fun _ => ?_⟩
          rcases hstays with hstays | ⟨e', he', hstops⟩
          · exact .inr hstays
          · cases he'
            exact .inl hstops
        | done reply =>
          have hready₃ : s₃.ready = true := hstays.resolve_right (by simp)
          refine ⟨htotal, hready₃, fun hgenuine l hl hauth e he => ?_⟩
          have hio : Genuine env level io := hgenuine turn List.mem_cons_self io hwait
          exact hverified reply (judge_done (congrArg Prod.fst hz)) hio l hl hauth e (hdisc₃ ▸ he)
        | again =>
          have hready₃ : s₃.ready = true := hstays.resolve_right (by simp)
          obtain ⟨hnext, hresult⟩ := ih retry' hpinned₃
          refine ⟨htotal.trans (fun _ => hready₃) hnext, ?_⟩
          split <;> rename_i heq <;> simp only [heq] at hresult
          · trivial
          · exact fun _ => hresult hready₃
          · exact ⟨hresult.1, fun hgenuine =>
              hresult.2 fun turn hturn => hgenuine turn (List.mem_cons_of_mem _ hturn)⟩

/-! ## A poll -/

/-- What the samples of a poll say: those made of a response were verified under the engine that
the session discovered. -/
def Backed (ver : Verification α) (lv : Option SecurityLevel) (out : List (Sampled α))
    (s : Session σ) : Prop :=
  ∀ x ∈ out, (x.source = none → x.sample.quality = .bad) ∧
    ∀ evidence, x.source = some evidence → ∀ l, lv = some l → .noAuthNoPriv < l →
      ∀ e, s.discoveredEngineId = some e → ver.response evidence.response e l

omit hver in
theorem Backed.append {out more : List (Sampled α)} (hout : Backed ver lv out s)
    (hmore : Backed ver lv more s) : Backed ver lv (out ++ more) s :=
  List.forall_mem_append.2 ⟨hout, hmore⟩

omit hver in
theorem backed_of_failed {more : List (Sampled α)} (h : ∀ x ∈ more, x.Failed) (s : Session σ) :
    Backed ver lv more s :=
  fun x hx => ⟨fun _ => (h x hx).2, by simp [(h x hx).1]⟩

/-- The samples of a read are backed by responses verified under the session's engine. -/
theorem cycle_backed :
    Cycle env.client (GenuineTurns env level)
      (fun out s => Pinned env level lv s ∧ Backed ver lv out s ∧
        ((∃ x ∈ out, x.source ≠ none) → s.ready = true))
      (fun out s => Pinned env level lv s ∧ Backed ver lv out s)
      (fun s => Pinned env level lv s) := by
  refine ⟨fun turn hturn => absurd hturn List.not_mem_nil, ?_, fun h => h.1,
    fun h more hmore => ⟨h.1, h.2.append (backed_of_failed hmore _)⟩⟩
  rintro out s request turns hgenuine ⟨hpinned, hbacked, hready⟩ -
  obtain ⟨hkeeps, hresult⟩ := callLoop_spec hver { call := s.calls, request } turns {}
    (s := { s with calls := s.calls + 1 }) ⟨hpinned.level, hpinned.engine⟩
  -- what was read before the call was read under the same engine
  have hbefore : Backed ver lv out (s.call env.client request turns).2 := by
    intro x hx
    refine ⟨(hbacked x hx).1, fun evidence hev l hl hauth e he => ?_⟩
    have hsame := hkeeps.discovered (hready ⟨x, hx, by simp [hev]⟩)
    exact (hbacked x hx).2 evidence hev l hl hauth e (hsame ▸ he)
  unfold Session.call at hbefore ⊢
  rcases hx : callLoop env.client { call := s.calls, request } turns {}
    { s with calls := s.calls + 1 } with ⟨_ | e | reply, s'⟩ <;>
    simp only [hx] at hkeeps hresult hbefore ⊢
  · exact hkeeps.pinned
  · intro more hmore
    have hall := hbefore.append (backed_of_failed hmore s')
    split
    · exact ⟨hkeeps.pinned, hall⟩
    · rename_i hstops
      refine ⟨hkeeps.pinned, hall, ?_⟩
      rintro ⟨x, hx', hsource⟩
      rcases List.mem_append.1 hx' with hx' | hx'
      · exact (hresult (hready ⟨x, hx', hsource⟩)).resolve_left hstops
      · exact absurd (hmore x hx').1 hsource
  · intro samples
    refine ⟨hkeeps.pinned, hbefore.append ?_, fun _ => hresult.1⟩
    intro x hx'
    obtain ⟨sample, -, rfl⟩ := List.mem_map.1 hx'
    exact ⟨by simp, by rintro _ ⟨⟩; exact hresult.2 hgenuine⟩

end

/-! ## A datagram -/

/-- What a datagram changes of a v3 state, if anything: its traps are checked against the same state
as before, or against what the library made of it by accepting the datagram at the level. -/
def Learned (lib : Snmp2 Security Engine Message) (datagram : List UInt8)
    (before after : Option (V3Receive Security)) : Prop :=
  after = before ∨ ∃ v3 v3', before = some v3 ∧ after = some v3' ∧ v3'.level = v3.level ∧
    (v3'.trap = v3.trap ∨ ∃ message,
      lib.receiveNonAuthoritative datagram v3.trap = (.ok message, v3'.trap) ∧
        ¬ lib.securityLevel message < v3.level)

section

variable {lib : Snmp2 Security Engine Message}

/-- A datagram that is delivered moves the engine only if it was verified. -/
theorem receiveV3_learned {route : Route Security} {engine : Option Engine}
    {datagram : List UInt8} {header : Header} {received : Received}
    (h : (receiveV3 lib route engine datagram header).1 = .deliver received) :
    Learned lib datagram route.v3 (receiveV3 lib route engine datagram header).2.1.v3 := by
  unfold receiveV3 at h ⊢
  cases hv3 : route.v3 with
  | none => exact .inl hv3
  | some v3 =>
    simp only [hv3] at h ⊢
    cases hreportable : header.isReportable with
    | true =>
      -- an inform is received with the state for our own engine
      simp only [if_true]
      cases engine with
      | none => exact .inl hv3
      | some engine =>
        dsimp only
        repeat' split
        all_goals exact .inr ⟨v3, _, rfl, rfl, rfl, .inl rfl⟩
    | false =>
      simp only [hreportable, Bool.false_eq_true, if_false] at h ⊢
      split at h
      · cases h
      · rename_i hknown
        rw [if_neg hknown]
        rcases hx : lib.receiveNonAuthoritative datagram v3.trap with ⟨e | message, trap⟩ <;>
          simp only [hx] at h ⊢
        · cases h
        · split at h
          · cases h
          · rename_i notification hcheck
            exact .inr ⟨v3, _, rfl, rfl, rfl, .inr ⟨message, hx, (checkMessage_ok hcheck).1⟩⟩

theorem receive_learned {route : Route Security} {engine : Option Engine} {datagram : List UInt8}
    {received : Received} (h : (receive lib route engine datagram).1 = .deliver received) :
    Learned lib datagram route.v3 (receive lib route engine datagram).2.1.v3 := by
  unfold receive at h ⊢
  cases hheader : lib.parseHeader datagram with
  | none => exact .inl rfl
  | some header =>
    simp only [hheader] at h
    exact receiveV3_learned h

/-- A device that the datagram is not delivered to is put back; the one that it is delivered to has
learned from it. -/
theorem tryCandidates_learned {original : Routes Security Engine n} {datagram : List UInt8}
    {forwarded : Bool} {peerIp : IpAddr} {ts : Nat} (candidates : List (Fin n))
    {routes : Routes Security Engine n} (hsame : original.Same routes)
    (refusal : Option (Fin n × Outcome)) (i : Fin n) :
    Learned lib datagram (original.devices i).v3
      ((tryCandidates lib datagram forwarded peerIp ts candidates routes refusal).2.devices i).v3 := by
  induction candidates generalizing routes refusal with
  | nil =>
    unfold tryCandidates
    split <;> exact .inl (by rw [hsame.devices])
  | cons index rest ih =>
    rcases hreceive : receive lib (routes.devices index) routes.engine datagram with
      ⟨outcome, route, engine⟩
    have hrestored := restored_same hsame index datagram hreceive
    unfold tryCandidates
    rw [hreceive]
    dsimp only
    split
    · rename_i received
      split
      · -- delivered
        have hlearned := receive_learned (congrArg Prod.fst hreceive)
        rw [hreceive, hsame.devices] at hlearned
        by_cases hi : i = index
        · subst hi
          simpa using hlearned
        · exact .inl (by simp [hi, hsame.devices])
      · exact ih hrestored refusal
    · exact ih hrestored _

theorem handle_learned (lib : Snmp2 Security Engine Message) (routes : Routes Security Engine n)
    (datagram : List UInt8) (peer : IpAddr) (ts : Nat) (i : Fin n) :
    Learned lib datagram (routes.devices i).v3
      ((handle lib routes datagram peer ts).2.devices i).v3 := by
  unfold handle
  dsimp only
  split
  · exact tryCandidates_learned _ ⟨rfl, rfl⟩ none i
  · exact tryCandidates_learned _ ⟨rfl, rfl⟩ none i
  · exact .inl rfl

end

/-! ## Every run -/

/-- The invariant of the connector. -/
structure Sound (env : Setting σ Io α Security Engine Message n) (level : σ → Option SecurityLevel)
    (st : Connector σ Security Engine n) : Prop where
  pinned : ∀ o ∈ st.opened, Pinned env level (env.levels o.1) o.2
  levels : ∀ i v3, (st.routes.devices i).v3 = some v3 → env.levels i = some v3.level

section

variable {ver : Verification α} {level : σ → Option SecurityLevel}

theorem pinEngine_spec (hver : Verifies env ver level) (routes : Routes Security Engine n)
    (i : Fin n) (engineId : List UInt8) (j : Fin n) :
    ((pinEngine env routes i engineId).devices j).v3 = (routes.devices j).v3 ∨
      j = i ∧ ∃ v3 v3', (routes.devices j).v3 = some v3 ∧
        ((pinEngine env routes i engineId).devices j).v3 = some v3' ∧ v3'.level = v3.level ∧
        env.usm.engineId v3'.trap = engineId := by
  unfold pinEngine
  cases hv3 : (routes.devices i).v3 with
  | none => exact .inl rfl
  | some v3 =>
    dsimp only
    split
    · exact .inl rfl
    · split
      · exact .inl rfl
      · rename_i localized hlocalized
        by_cases hj : j = i
        · subst hj
          refine .inr ⟨rfl, v3, { v3 with trap := env.usm.resetEngineCounters localized }, hv3,
            by simp, rfl, ?_⟩
          exact (hver.counters localized).trans (hver.localized hlocalized)
        · exact .inl (by simp [hj])

variable {st : Connector σ Security Engine n} {s : Session σ}

theorem sound_set (h : Sound env level st) {k : Nat} {i : Fin n}
    (hs : Pinned env level (env.levels i) s) :
    ∀ o ∈ st.opened.set k (i, s), Pinned env level (env.levels o.1) o.2 := by
  intro o ho
  rcases List.mem_or_eq_of_mem_set ho with ho | rfl
  · exact h.pinned o ho
  · exact hs

theorem openSession_pinned (hver : Verifies env ver level) {i : Fin n} {community : List UInt8}
    {opening : Io} (h : openSession env i community opening = .ok s) :
    Pinned env level (env.levels i) s := by
  unfold openSession at h
  dsimp only at h
  split at h
  · cases h
  · rename_i session hopen
    cases h
    exact ⟨hver.opened hopen, by simp⟩

theorem readSession_spec (hver : Verifies env ver level) (h : Sound env level st) (i : Fin n)
    (opening : Io) :
    Sound env level (readSession env st i opening).2 ∧
      (readSession env st i opening).2.routes = st.routes := by
  unfold readSession
  split
  · exact ⟨h, rfl⟩
  · split
    · exact ⟨h, rfl⟩
    · split
      · exact ⟨h, rfl⟩
      · rename_i s hopen
        exact ⟨⟨List.forall_mem_append.2 ⟨h.pinned, by simpa using openSession_pinned hver hopen⟩,
          h.levels⟩, rfl⟩

theorem writeSession_spec (hver : Verifies env ver level) (h : Sound env level st) (i : Fin n)
    (opening : Io) :
    Sound env level (writeSession env st i opening).2 ∧
      (writeSession env st i opening).2.routes = st.routes := by
  unfold writeSession
  dsimp only
  split
  · exact readSession_spec hver h i opening
  · split
    · exact ⟨h, rfl⟩
    · split
      · exact ⟨h, rfl⟩
      · split
        · exact ⟨h, rfl⟩
        · rename_i s hopen
          exact ⟨⟨List.forall_mem_append.2
            ⟨h.pinned, by simpa using openSession_pinned hver hopen⟩, h.levels⟩, rfl⟩

theorem isVerified_spec {lv : Option SecurityLevel} {samples : List (Sampled α)}
    (hbacked : Backed ver lv samples s) (h : isVerified lv (samples.map (·.sample)) = true) :
    ∃ l, lv = some l ∧ ¬ l < .authNoPriv ∧
      ∃ x ∈ samples, ∃ evidence, x.source = some evidence := by
  unfold isVerified at h
  rw [Bool.and_eq_true] at h
  obtain ⟨hlevel, hgood⟩ := h
  cases lv with
  | none => simp at hlevel
  | some l =>
    refine ⟨l, rfl, by simpa using hlevel, ?_⟩
    simp only [List.any_map, List.any_eq_true, Function.comp_apply, decide_eq_true_eq] at hgood
    obtain ⟨x, hx, hquality⟩ := hgood
    cases hsource : x.source with
    | none => exact absurd ((hbacked x hx).1 hsource) (by simpa using hquality)
    | some evidence => exact ⟨x, hx, evidence, hsource⟩

theorem authenticated_of_not_below {l : SecurityLevel} (h : ¬ l < .authNoPriv) :
    .noAuthNoPriv < l := by
  cases l with
  | noAuthNoPriv => exact absurd (by decide) h
  | authNoPriv | authPriv => decide

/-- A poll moves the engine only under what it read. -/
theorem pollOn_spec (hver : Verifies env ver level) (h : Sound env level st) (k ts : Nat)
    (points : List String) {calls : List (List (Turn Io))}
    (hcalls : ∀ turns ∈ calls, GenuineTurns env level turns) :
    Sound env level (pollOn env st k ts points calls).1 ∧
      ∀ j, ((pollOn env st k ts points calls).1.routes.devices j).v3 = (st.routes.devices j).v3 ∨
        ∃ samples published, (pollOn env st k ts points calls).2 = .sampled j samples published ∧
          ∃ v3 v3' l, (st.routes.devices j).v3 = some v3 ∧ env.levels j = some l ∧
            ((pollOn env st k ts points calls).1.routes.devices j).v3 = some v3' ∧
            v3'.level = v3.level ∧ .noAuthNoPriv < l ∧
            ∃ x ∈ samples, ∃ evidence, x.source = some evidence ∧
              ver.response evidence.response (env.usm.engineId v3'.trap) l := by
  unfold pollOn
  cases hk : st.opened[k]? with
  | none => exact ⟨h, fun j => .inl rfl⟩
  | some o =>
    obtain ⟨i, s⟩ := o
    have hpinned := h.pinned (i, s) (List.mem_of_getElem? hk)
    -- the cycle keeps the session under its engine, and each sample backed
    have hpoll := (cycle_backed hver).readObjects (env.models i) ts
      (wantedPoints (env.models i) points) hcalls
      (⟨hpinned, by simp [Backed], by simp⟩ :
        Pinned env level (env.levels i) s ∧ Backed ver (env.levels i) [] s ∧ _)
    dsimp only
    rcases hx : readObjects env.client (env.models i) ts (wantedPoints (env.models i) points) calls s
      with ⟨_ | samples, s'⟩ <;> simp only [hx] at hpoll ⊢
    · exact ⟨⟨sound_set h hpoll, h.levels⟩, by simp⟩
    · obtain ⟨hpinned', hbacked⟩ : Pinned env level (env.levels i) s' ∧
          Backed ver (env.levels i) samples s' := hpoll.elim (fun h => ⟨h.1, h.2.1⟩) id
      unfold afterRead
      dsimp only
      split
      · rename_i engineId hverified hengine
        obtain ⟨l, hl, hbelow, x, hx', evidence, hev⟩ := isVerified_spec hbacked hverified
        have hauth := authenticated_of_not_below hbelow
        have hresponse := (hbacked x hx').2 evidence hev l hl hauth engineId hengine
        have hpin := pinEngine_spec hver st.routes i engineId
        refine ⟨⟨sound_set h hpinned', fun j v3' hv3' => ?_⟩, fun j => ?_⟩
        · rcases hpin j with hsame | ⟨-, v3, v3'', hv3, hv3'', hlevel, -⟩
          · exact h.levels j v3' (hsame ▸ hv3')
          · obtain rfl : v3'' = v3' := Option.some.inj (hv3''.symm.trans hv3')
            exact hlevel ▸ h.levels j v3 hv3
        · rcases hpin j with hsame | ⟨rfl, v3, v3', hv3, hv3', hlevel, htrap⟩
          · exact .inl hsame
          · exact .inr ⟨samples, _, rfl, v3, v3', l, hv3, hl, hv3', hlevel, hauth, x, hx', evidence,
              hev, htrap ▸ hresponse⟩
      · exact ⟨⟨sound_set h hpinned', h.levels⟩, fun j => .inl rfl⟩

theorem writeObject_session (client : Library σ Io α) (model : DeviceModel) (oid : Oid)
    (value : Encoded) (turns : List (Turn Io)) (s : Session σ) :
    (writeObject client model oid value turns s).2 = (s.call client (.set oid value) turns).2 := by
  unfold writeObject
  dsimp only
  rcases s.call client (.set oid value) turns with ⟨_ | e | reply, s'⟩
  · rfl
  · rfl
  · dsimp only
    split <;> rfl

theorem writeOn_spec (hver : Verifies env ver level) (h : Sound env level st) (k : Nat) (oid : Oid)
    (value : Encoded) (turns : List (Turn Io)) :
    Sound env level (writeOn env st k oid value turns).1 ∧
      (writeOn env st k oid value turns).1.routes = st.routes := by
  unfold writeOn
  cases hk : st.opened[k]? with
  | none => exact ⟨h, rfl⟩
  | some o =>
    obtain ⟨i, s⟩ := o
    have hpinned := h.pinned (i, s) (List.mem_of_getElem? hk)
    have hcall := (callLoop_spec hver { call := s.calls, request := .set oid value } turns {}
      (s := { s with calls := s.calls + 1 }) ⟨hpinned.level, hpinned.engine⟩).1.pinned
    have hsession := writeObject_session env.client (env.models i) oid value turns s
    dsimp only
    rcases hx : writeObject env.client (env.models i) oid value turns s with
      ⟨_ | ⟨result, source⟩, s'⟩ <;> rw [hx] at hsession <;> dsimp only at hsession ⊢ <;>
      rw [hsession] <;> exact ⟨⟨sound_set h hcall, h.levels⟩, rfl⟩

theorem attach_devices (st : Connector σ Security Engine n) (i : Fin n)
    (ip : Except String IpAddr) :
    (attach st i ip).routes.devices = st.routes.devices ∧ (attach st i ip).opened = st.opened := by
  unfold attach
  dsimp only
  split
  · exact ⟨rfl, rfl⟩
  · split <;> exact ⟨rfl, rfl⟩

theorem learned_level {lib : Snmp2 Security Engine Message} {datagram : List UInt8}
    {before after : Option (V3Receive Security)} (h : Learned lib datagram before after)
    {lv : Option SecurityLevel} (hbefore : ∀ v3, before = some v3 → lv = some v3.level) :
    ∀ v3, after = some v3 → lv = some v3.level := by
  intro v3 hafter
  rcases h with h | ⟨v3₀, v3', hb, ha, hlevel, -⟩
  · exact hbefore v3 (h ▸ hafter)
  · obtain rfl : v3' = v3 := Option.some.inj (ha.symm.trans hafter)
    exact hlevel ▸ hbefore v3₀ hb

theorem trapEngine_congr {st st' : Connector σ Security Engine n} {i : Fin n}
    (h : (st'.routes.devices i).v3 = (st.routes.devices i).v3) :
    trapEngine env st' i = trapEngine env st i := by
  simp only [trapEngine, h]

theorem onlyVerified_of_poll {event : Event Io n} (hver : Verifies env ver level)
    {st st₀ : Connector σ Security Engine n} (h : Sound env level st₀)
    (hroutes : st₀.routes = st.routes) {k ts : Nat} {points : List String}
    {calls : List (List (Turn Io))} (hcalls : ∀ turns ∈ calls, GenuineTurns env level turns)
    (hevent : ∀ bytes peer ts, event ≠ .datagram bytes peer ts)
    (hstep : step env st event = pollOn env st₀ k ts points calls) :
    OnlyVerified env ver st event := by
  obtain ⟨-, hpoll⟩ := pollOn_spec hver h k ts points hcalls
  unfold OnlyVerified
  rcases hout : pollOn env st₀ k ts points calls with ⟨st', output⟩
  rw [hstep, hout]
  rw [hout, hroutes] at hpoll
  dsimp only at hpoll ⊢
  intro i hne
  rcases hpoll i with hsame | ⟨samples, published, rfl, v3, v3', l, hv3, hl, hv3', -, hauth,
    x, hx, evidence, hev, hresponse⟩
  · exact absurd (trapEngine_congr hsame) hne
  · refine ⟨env.usm.engineId v3'.trap, l, l, by simp only [trapEngine, hv3', Option.map_some], hl,
      Nat.lt_irrefl _, ?_⟩
    cases event with
    | datagram bytes peer ts => exact absurd rfl (hevent bytes peer ts)
    | _ => exact ⟨rfl, hauth, x, hx, evidence, hev, hresponse⟩

theorem onlyVerified_of_same {event : Event Io n}
    (h : (step env st event).1.routes.devices = st.routes.devices) :
    OnlyVerified env ver st event := by
  unfold OnlyVerified
  rcases hx : step env st event with ⟨st', output⟩
  rw [hx] at h
  intro i hne
  exact absurd (trapEngine_congr (congrArg (fun devices => (devices i).v3) h)) hne

theorem onlyVerified_of_datagram (hver : Verifies env ver level) (h : Sound env level st)
    (bytes : List UInt8) (peer : IpAddr) (ts : Nat) :
    OnlyVerified env ver st (.datagram bytes peer ts) := by
  have hlearned := handle_learned env.lib st.routes bytes peer ts
  unfold OnlyVerified step
  dsimp only
  intro i hne
  rcases hlearned i with hsame | ⟨v3, v3', hv3, hv3', hlevel, htrap⟩
  · exact absurd (trapEngine_congr hsame) hne
  · rcases htrap with htrap | ⟨message, hmessage, hbelow⟩
    · exact absurd (by simp only [trapEngine, hv3, hv3', Option.map_some, htrap]) hne
    · exact ⟨env.usm.engineId v3'.trap, v3.level, _, by simp only [trapEngine, hv3', Option.map_some],
        h.levels i v3 hv3, hbelow, hver.message hmessage⟩

/-- Every event keeps the sessions sound, and moves an engine only if it was verified. -/
theorem step_spec (hver : Verifies env ver level) (h : Sound env level st) (event : Event Io n)
    (hplain : NoPlain env level st event) :
    Sound env level (step env st event).1 ∧ OnlyVerified env ver st event := by
  cases event with
  | read i opening ts points calls =>
    by_cases hwanted : (wantedPoints (env.models i) points).isEmpty
    · have hstep : step env st (.read i opening ts points calls) = (st, .nothing) := by
        simp [step, hwanted]
      exact ⟨by rw [hstep]; exact h, onlyVerified_of_same (by rw [hstep])⟩
    · obtain ⟨hopen, hroutes⟩ := readSession_spec hver h i opening
      rcases hx : readSession env st i opening with ⟨e | k, st'⟩ <;> rw [hx] at hopen hroutes
      · have hstep : step env st (.read i opening ts points calls) = (st', .refused e) := by
          simp [step, hwanted, hx]
        exact ⟨by rw [hstep]; exact hopen,
          onlyVerified_of_same (by rw [hstep]; exact congrArg _ hroutes)⟩
      · have hstep : step env st (.read i opening ts points calls) =
            pollOn env st' k ts points calls := by simp [step, hwanted, hx]
        exact ⟨by rw [hstep]; exact (pollOn_spec hver hopen k ts points hplain).1,
          onlyVerified_of_poll hver hopen hroutes hplain (by simp) hstep⟩
  | reader held ts points calls =>
    exact ⟨(pollOn_spec hver h held ts points hplain).1,
      onlyVerified_of_poll hver h rfl hplain (by simp) rfl⟩
  | write i opening point encoded turns =>
    have hwrite : Sound env level (step env st (.write i opening point encoded turns)).1 ∧
        (step env st (.write i opening point encoded turns)).1.routes = st.routes := by
      simp only [step]
      split
      · exact ⟨h, rfl⟩
      · obtain ⟨hopen, hroutes⟩ := writeSession_spec hver h i opening
        split <;> rename_i heq <;> rw [heq] at hopen hroutes
        · exact ⟨hopen, hroutes⟩
        · obtain ⟨hsound, hsame⟩ := writeOn_spec hver hopen _ _ _ turns
          exact ⟨hsound, hsame.trans hroutes⟩
    exact ⟨hwrite.1, onlyVerified_of_same (by rw [hwrite.2])⟩
  -- reconnecting drops the sessions and leaves the engines of the routes
  | reconnect i ip =>
    obtain ⟨hdevices, hopened⟩ := attach_devices { st with
      sessions := Function.update st.sessions i none
      writeSessions := Function.update st.writeSessions i none } i ip
    refine ⟨⟨?_, ?_⟩, onlyVerified_of_same hdevices⟩
    · simpa only [step, hopened] using h.pinned
    · simpa only [step, hdevices] using h.levels
  | datagram bytes peer ts =>
    have hlearned := handle_learned env.lib st.routes bytes peer ts
    exact ⟨⟨h.pinned, fun i => learned_level (hlearned i) (h.levels i)⟩,
      onlyVerified_of_datagram hver h bytes peer ts⟩

end

end

/-- In every run of the connector from the table that `connect` builds whose polls meet no SNMPv1 or
SNMPv2c Response on a session that authenticates, the engine that a device's traps are checked against
moves only to one that was verified at the device's level. -/
theorem only_verified_moves {σ Io α Security Engine Message : Type} {n : Nat}
    {env : Setting σ Io α Security Engine Message n} {ver : Verification α}
    {level : σ → Option SecurityLevel} (hver : Verifies env ver level)
    {st : Connector σ Security Engine n} (hst : Connected env st) {events : List (Event Io n)}
    (hplain : AllSteps (step env) (NoPlain env level) st events) :
    AllSteps (step env) (OnlyVerified env ver) st events := by
  apply allSteps_of_allSteps (P := Sound env level) _ _ hplain
  · exact ⟨by simp [hst.closed], hst.levels⟩
  · exact fun st event hevent h => (step_spec hver h event hevent).1
  · exact fun st event hevent h => (step_spec hver h event hevent).2

def agentEngine : List UInt8 := [0x80, 0, 0x1F, 0x88, 4, 0x61]

/-- A response to a read of one object, in a version. -/
def responseIn (version : Version) : Pdu :=
  { version := some version, community := "operator".toUTF8.toList, messageType := .response
    reqId := 1, errorStatus := 0, errorIndex := 0, v1TrapInfo := none
    varbinds := [.ok {
      name := [1, 3, 6, 1, 2, 1], value := { kind := .integer, raw := [21], decoded := .signed 21 }
        }] }

/-- A device that is read at authNoPriv, whose probe and request are answered at once: the engine is
what the probe was answered with, and the response comes in a version. A session is known by its
engine. -/
def agentSetting : Setting (List UInt8) Version Pdu (List UInt8) Unit Pdu 1 where
  client := {
    init := fun _ _ => (some (.ok ()), agentEngine)
    request := fun session _ version =>
      if session = agentEngine then (some (.ok (responseIn version)), session)
      else (some (.error { kind := .authFailure, text := "engine ID mismatch" }), session)
    pdu := id
    engineId := id }
  lib := {
    parseHeader := fun _ => none
    fromBytes := fun _ => .error "ASN.1 parse error"
    toBytes := fun _ => .error "ASN.1 parse error"
    receive := fun engine _ user =>
      (.error { report := none, error := "ASN.1 parse error" }, engine, user)
    receiveNonAuthoritative := fun _ user => (.error "ASN.1 parse error", user)
    acknowledge := fun _ _ => .error "ASN.1 parse error"
    securityLevel := fun _ => .noAuthNoPriv
    pdu := id }
  usm := { engineId := id, withEngineId := fun _ engineId => .ok engineId, resetEngineCounters := id }
  openWire _ _ _ := .ok []
  models _ :=
    { name := "meter", version := .v3, community := [], writeCommunity := [], retries := 0
      after := "2.000", maxVarbinds := 10, bulk := false, pinnedEngineId := none
      points := [{
        id := "power", oid := some [1, 3, 6, 1, 2, 1], access := .read, mode := .raw
        datatype := none, unit := none, transform := id }] }
  levels _ := some .authNoPriv

/-- The device before anything was learned. -/
def unlearned : Connector (List UInt8) (List UInt8) Unit 1 where
  routes :=
    { byAddr := fun _ => none, forwarders := fun _ => false, engine := none
      devices := fun _ =>
        { name := "meter", communities := none, points := [], sink := none
          v3 := some { user := "operator".toUTF8.toList, level := .authNoPriv, trap := []
                       inform := [] } } }
  opened := []
  sessions _ := none
  writeSessions _ := none
  resolved _ := true

/-- The first poll of the device: it discovers the engine, and one request is answered. -/
def firstPoll (version : Version) : Event Version 1 :=
  .read 0 .v3 5 ["power"] [[{ discovery := [.v3], wait := some version }]]

/-- A v3 response of the agent is verified under its engine. -/
def agentVerification : Verification Pdu where
  message _ _ _ := False
  response r engine level := r.version = some .v3 ∧ engine = agentEngine ∧ level = .authNoPriv

/-- The example's agent verifies at its level. -/
theorem agent_verifies : Verifies agentSetting agentVerification fun _ => some .authNoPriv where
  message := by rintro _ _ _ _ ⟨⟩
  response := by
    intro s asked io r s' l hrequest hlevel _ hversion
    cases hlevel
    simp only [agentSetting] at hrequest
    split at hrequest
    · rename_i hengine
      exact ⟨hversion, hengine, rfl⟩
    · cases hrequest
  opened := fun _ => rfl
  level_init := fun _ _ => rfl
  level_request := fun _ _ _ => rfl
  found := by
    rintro s io s' ⟨⟩ -
    decide
  kept := by
    intro s asked io _
    simp only [agentSetting]
    split <;> rfl
  localized := by
    rintro _ _ _ ⟨⟩
    rfl
  counters := fun _ => rfl

/-- One agent that is discovered, read and moved. -/
theorem only_verified_moves_agent :
    AllSteps (step agentSetting) (OnlyVerified agentSetting agentVerification) unlearned
      [firstPoll .v3] ∧
    trapEngine agentSetting unlearned 0 = some [] ∧
    trapEngine agentSetting (step agentSetting unlearned (firstPoll .v3)).1 0 =
      some agentEngine := by
  refine ⟨only_verified_moves agent_verifies ⟨rfl, ?_⟩ ⟨?_, trivial⟩, rfl, by decide⟩
  · rintro i v3 ⟨⟩
    rfl
  · intro turns hturns turn hturn io hio s asked r s' l hrequest _ _
    obtain rfl := List.mem_singleton.mp hturns
    obtain rfl := List.mem_singleton.mp hturn
    obtain rfl := Option.some.inj hio
    simp only [agentSetting] at hrequest
    split at hrequest
    · cases hrequest
      rfl
    · cases hrequest

/-- The engine is pinned by an SNMPv2c response, which nobody has to sign. -/
theorem plain_moves : Verifies agentSetting agentVerification (fun _ => some .authNoPriv) ∧
    ¬ AllSteps (step agentSetting) (OnlyVerified agentSetting agentVerification) unlearned
      [firstPoll .v2c] := by
  refine ⟨agent_verifies, ?_⟩
  rintro ⟨hmoved, -⟩
  have hne : trapEngine agentSetting (step agentSetting unlearned (firstPoll .v2c)).1 0 ≠
      trapEngine agentSetting unlearned 0 := by decide
  have houtput : ∃ sample evidence rest, (step agentSetting unlearned (firstPoll .v2c)).2 =
      .sampled 0 [sample] rest ∧ sample.source = some evidence ∧
        evidence.response.version = some .v2c := ⟨_, _, _, rfl, rfl, rfl⟩
  obtain ⟨sample, evidence, rest, houtput, hsource, hversion⟩ := houtput
  unfold OnlyVerified at hmoved
  rcases hstep : step agentSetting unlearned (firstPoll .v2c) with ⟨st', output⟩
  rw [hstep] at hne houtput hmoved
  obtain rfl : output = .sampled 0 [sample] rest := houtput
  obtain ⟨engine, level, l, -, -, -, hverified⟩ := hmoved 0 hne
  obtain ⟨-, -, x, hx, evidence', hevidence, hresponse, -⟩ := hverified
  obtain rfl := List.mem_singleton.mp hx
  obtain rfl := Option.some.inj (hsource.symm.trans hevidence)
  exact absurd (hversion.symm.trans hresponse) (by decide)

end TedgeDot.Snmp.TrapEngine
