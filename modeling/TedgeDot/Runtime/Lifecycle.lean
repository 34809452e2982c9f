import TedgeDot.Runtime.Atomic
import TedgeDot.Runtime.TdotManage
import TedgeDot.Sdk.Duration

/-!
# A connector and its configuration file

One connector as its supervisor keeps it, in both runtimes: it is started from the file, takes
management commands and reloads, and ends, by a reload that needs a restart or by a failure, to be
started from the file again. Somebody else writes the file at any moment.

What a connector takes from its configuration when it starts, and keeps until it ends, is
`Captured`: the broker its MQTT client is connected to, the client id, the names its topics and
subscriptions are made of, its protocol module and the limit of its stall watchdog.
-/

namespace TedgeDot

/-- What a running connector keeps from the configuration it was started with. -/
structure Captured where
  host : String
  port : Int
  clientId : String
  service : String
  protocol : String
  /-- The protocol the module was built for. -/
  built : String
  stallLimit : ℚ
deriving DecidableEq

namespace Management

/-! ## The settings of a configuration -/

/-- The settings that `needs_restart` compares. -/
structure Settings where
  protocol : String
  /-- `service_name()`. -/
  serviceName : String
  mqttHost : String
  mqttPort : Nat
  /-- `stall_limit()`. -/
  stallLimit : Nat
deriving DecidableEq

/-- A string of a section, or its default. -/
def stringIn (section? : Option Toml) (key default : String) : Except String String :=
  match section?.bind fun t => t.get key with
  | none => .ok default
  | some (.string s) => .ok s
  | some _ => .error s!"invalid type for '{key}', expected a string"

/-- `MqttSection::port`. -/
def portIn (section? : Option Toml) : Except String Nat :=
  match section?.bind fun t => t.get "port" with
  | none => .ok 1883
  | some (.integer n) =>
    if 0 ≤ n.toInt ∧ n.toInt < 65536 then .ok n.toInt.toNat else .error "invalid value, expected u16"
  | some _ => .error "invalid type for 'port', expected u16"

def stallLimit (stallTimeout operationTimeout : String) : Nat :=
  let configured := (parseDuration stallTimeout).getD (Duration.fromSecs 120)
  if configured = 0 then 0
  else max configured (2 * (parseDuration operationTimeout).getD (Duration.fromSecs 30))

/-- The settings as the typed configuration reads them from a document. -/
def readSettings (doc : Toml) : Except String Settings :=
  match (doc.get "connector").bind fun t => t.get "protocol" with
  | some (.string protocol) =>
    match stringIn (doc.get "connector") "service_name" s!"tedge-dot-{protocol}",
        stringIn (doc.get "connector") "operation_timeout" "30s",
        stringIn (doc.get "connector") "stall_timeout" "120s",
        stringIn (doc.get "mqtt") "host" "127.0.0.1", portIn (doc.get "mqtt") with
    | .ok serviceName, .ok operation, .ok stall, .ok mqttHost, .ok mqttPort =>
      .ok { protocol, serviceName, mqttHost, mqttPort, stallLimit := stallLimit stall operation }
    | _, _, _, _, _ => .error "invalid settings"
  | _ => .error "missing field 'protocol'"

def needsRestart (running new : Settings) : Bool :=
  running.protocol != new.protocol || running.serviceName != new.serviceName ||
    (running.mqttHost != new.mqttHost || running.mqttPort != new.mqttPort) ||
      running.stallLimit != new.stallLimit

/-- What `run_one` and `run_until_reloadable` take from the configuration they start with. -/
def capture (s : Settings) : Captured where
  host := s.mqttHost
  port := s.mqttPort
  clientId := s!"{s.serviceName}-{s.protocol}"
  service := s.serviceName
  protocol := s.protocol
  built := s.protocol
  stallLimit := s.stallLimit

theorem needsRestart_eq_false_iff {running new : Settings} :
    needsRestart running new = false ↔ running = new := by
  cases running
  cases new
  simp [needsRestart, and_assoc]

theorem capture_inj {s s' : Settings} : capture s = capture s' ↔ s = s' := by
  refine ⟨fun h => ?_, fun h => h ▸ rfl⟩
  cases s
  cases s'
  simp only [capture, Captured.mk.injEq, Nat.cast_inj] at h
  obtain ⟨rfl, rfl, -, rfl, rfl, -, rfl⟩ := h
  rfl

/-! ## The Rust runtime -/

structure Connector (M : Type) where
  config : ConnectorConfig
  /-- The settings of the running configuration. -/
  settings : Settings
  doc : Document
  /-- The protocol module. -/
  built : M
  captured : Captured

/-- A connector's file, and the connector while it runs. -/
structure Process (M : Type) where
  file : Except String Document
  running : Option (Connector M)

inductive Happening (M : Type) where
  | command (around : Surroundings) (verb : String) (json : Json)
  | reload (around : Surroundings)
  /-- Somebody else writes the file. -/
  | edited (file : Except String Document)
  /-- An attempt of the supervisor. The configuration and the document are two readings of the
  file, and it may be written in between; the broker may not be reached. -/
  | started (around : Surroundings) (built : M) (meanwhile : Option (Except String Document))
      (online : Bool)
  /-- The connector fails, stalls or is stopped. -/
  | ended

variable {M : Type}

/-- The state the entry points work on. -/
def Connector.state (c : Connector M) (file : Except String Document) : State M :=
  { config := c.config, doc := c.doc, file, connector := c.built }

/-- The resolver, whose typed configuration begins with the settings. -/
def withSettings (around : Surroundings) : Surroundings :=
  { around with
    resolve := fun doc =>
      match readSettings doc with
      | .error e => .error e
      | .ok _ => around.resolve doc }

def fileSettings (file : Except String Document) : Except String Settings :=
  match file with
  | .error e => .error e
  | .ok doc => readSettings doc.toToml

/-- `needs_restart` on the settings of the running configuration and of the file. -/
def Connector.host (c : Connector M) (h : Host M) (file : Except String Document) : Host M :=
  { h with
    needsRestart := fun _ _ =>
      match fileSettings file with
      | .error _ => false
      | .ok new => Management.needsRestart c.settings new }

/-- The settings of a document that resolved. -/
def settingsOf (doc : Document) (running : Settings) : Settings :=
  match readSettings doc.toToml with
  | .error _ => running
  | .ok settings => settings

/-- The connector with the state an entry point leaves, where `adopted` says whether it replaced
the running configuration. -/
def Connector.after (c : Connector M) (s : State M) (adopted : Bool) : Connector M :=
  { c with
    config := s.config, doc := s.doc, built := s.connector,
    settings := if adopted then settingsOf s.doc c.settings else c.settings }

/-- `run_one`, up to the main loop. -/
def start (h : Host M) (around : Surroundings) (built : M) (file file' : Except String Document)
    (online : Bool) : Option (Connector M) :=
  match file with
  | .error _ => none
  | .ok doc =>
    match readSettings doc.toToml, around.resolve doc.toToml with
    | .ok settings, .ok config =>
      match configure h built config with
      | (_, .error _) => none
      | (m, .ok ()) =>
        if online then
          some { config, settings, doc := file'.toOption.getD [], built := m,
                 captured := capture settings }
        else none
    | _, _ => none

def Connector.accepts (h : Host M) (c : Connector M) (file : Except String Document)
    (around : Surroundings) (verb : String) (json : Json) : Bool :=
  adopts h (c.state file) (.command (withSettings around) verb json)

/-- What one happening makes of them, and the document a command wrote into the file. -/
def Process.step (h : Host M) (p : Process M) : Happening M → Process M × Option Document
  | .command around verb json =>
    match p.running with
    | none => (p, none)
    | some c =>
      let accepted := c.accepts h p.file around verb json
      let handled := handleManagement h (withSettings around) (c.state p.file) verb json
      ({ file := handled.state.file, running := some (c.after handled.state accepted) },
        if accepted && around.persisted then some handled.state.doc else none)
  | .reload around =>
    match p.running with
    | none => (p, none)
    | some c =>
      match reloadFromFile (c.host h p.file) (withSettings around) (c.state p.file) with
      | (_, .restart) => ({ p with running := none }, none)
      | (s, did) => ({ p with running := some (c.after s (did == .applied)) }, none)
  | .edited file => ({ p with file }, none)
  | .started around built meanwhile online =>
    match p.running with
    | some _ => (p, none)
    | none =>
      let file' := meanwhile.getD p.file
      ({ file := file', running := start h around built p.file file' online }, none)
  | .ended => ({ p with running := none }, none)

/-! ### What a step does -/

section Steps

variable {h : Host M} {p : Process M} {c : Connector M}

/-- What an accepted command leads to. -/
structure Accepted (c : Connector M) (verb : String) (json : Json) (doc : Document)
    (settings : Settings) : Prop where
  applied : applyManagement verb json c.doc = .ok doc
  settings : readSettings doc.toToml = .ok settings

/-- An accepted command: the patched document runs, and is written if it can be. -/
theorem step_accepted (hc : p.running = some c) {around : Surroundings} {verb : String} {json : Json}
    (haccepts : c.accepts h p.file around verb json = true) :
    ∃ doc settings config m, Accepted c verb json doc settings ∧
      p.step h (.command around verb json) =
        ({ file := if around.persisted then .ok doc else p.file,
           running := some { c with config, doc, built := m, settings } },
          if around.persisted then some doc else none) := by
  have hadopts := haccepts
  unfold Connector.accepts at hadopts
  rw [adopts, Bool.and_eq_true, isOk_iff] at hadopts
  obtain ⟨hexecuting, ⟨doc, config⟩, hverdict⟩ := hadopts
  have hvetted := vetted_of_candidate (candidate_of_verdict hverdict).1
  have hstate := handleManagement_adopted hexecuting hverdict
  -- the document resolved, so its settings were read
  obtain ⟨settings, hsettings⟩ : ∃ settings, readSettings doc.toToml = .ok settings := by
    have hresolved := hvetted.resolved
    simp only [withSettings] at hresolved
    split at hresolved
    · cases hresolved
    · rename_i settings hsettings
      exact ⟨settings, hsettings⟩
  refine ⟨doc, settings, config, (configure h c.built config).1, ⟨hvetted.applied, hsettings⟩, ?_⟩
  simp only [Process.step, hc, hstate, haccepts, Bool.true_and]
  simp only [Connector.after, Connector.state, settingsOf, hsettings, if_true]
  rfl

/-- A refused one leaves the file and the configuration. -/
theorem step_refused (hc : p.running = some c) {around : Surroundings} {verb : String} {json : Json}
    (haccepts : c.accepts h p.file around verb json = false) :
    ∃ m, p.step h (.command around verb json) =
      ({ p with running := some { c with built := m } }, none) := by
  have hstate : ∃ m, (handleManagement h (withSettings around) (c.state p.file) verb json).state =
      { c.state p.file with connector := m } := by
    have hadopts := haccepts
    unfold Connector.accepts at hadopts
    cases hexecuting : (withSettings around).executing with
    | false =>
      refine ⟨c.built, ?_⟩
      unfold handleManagement
      rw [hexecuting]
      rfl
    | true =>
      rw [adopts, hexecuting, Bool.true_and] at hadopts
      cases hverdict : verdict h (c.state p.file)
          (candidate h (withSettings around) (c.state p.file).doc verb json) with
      | ok new =>
        rw [hverdict] at hadopts
        cases hadopts
      | error e =>
        obtain ⟨m, -, heq⟩ := handleManagement_refused hexecuting hverdict
        exact ⟨m, by rw [heq]; rfl⟩
  obtain ⟨m, hstate⟩ := hstate
  refine ⟨m, ?_⟩
  simp only [Process.step, hc, hstate, haccepts, Bool.false_and]
  simp [Connector.after, Connector.state]

/-- What a reload may do to a running connector. -/
inductive ReloadedTo (p : Process M) (c : Connector M) : Process M → Prop where
  /-- The file is kept away from the connector; the module may have been configured twice. -/
  | kept (m : M) : ReloadedTo p c { p with running := some { c with built := m } }
  /-- The document is taken, the configuration is the one running. -/
  | unchanged (doc : Document) (hfile : p.file = .ok doc) :
      ReloadedTo p c { p with running := some { c with doc } }
  /-- The file is the running configuration now. -/
  | applied (doc : Document) (settings : Settings) (config : ConnectorConfig) (m : M)
      (hfile : p.file = .ok doc) (hsettings : readSettings doc.toToml = .ok settings)
      (hsame : needsRestart c.settings settings = false) :
      ReloadedTo p c { p with running := some { c with config, doc, built := m, settings } }
  /-- The connector ends, to be started from the file. -/
  | restart : ReloadedTo p c { p with running := none }

theorem settings_of_loaded {around : Surroundings} {s : State M} {doc : Document}
    {config : ConnectorConfig} (hloaded : loaded (withSettings around) s = .ok (doc, config)) :
    s.file = .ok doc ∧ ∃ settings, readSettings doc.toToml = .ok settings := by
  unfold loaded withSettings at hloaded
  split at hloaded
  · cases hloaded
  · rename_i doc' hfile
    dsimp only at hloaded
    cases hread : readSettings doc'.toToml with
    | error e =>
      rw [hread] at hloaded
      cases hloaded
    | ok settings =>
      rw [hread] at hloaded
      dsimp only at hloaded
      split at hloaded
      · cases hloaded
      · obtain ⟨rfl, -⟩ := Prod.mk.inj (Except.ok.inj hloaded)
        exact ⟨hfile, settings, hread⟩

/-- A reload of the Rust build, by its outcome. -/
theorem step_reloaded (hc : p.running = some c) (around : Surroundings) :
    ∃ p', ReloadedTo p c p' ∧ p.step h (.reload around) = (p', none) := by
  simp only [Process.step, hc]
  rw [reloadFromFile_eq]
  cases hloaded : loaded (withSettings around) (c.state p.file) with
  | error e => exact ⟨_, .kept c.built, rfl⟩
  | ok new =>
    obtain ⟨doc, config⟩ := new
    obtain ⟨hfile, settings, hsettings⟩ := settings_of_loaded hloaded
    have hfile : p.file = .ok doc := hfile
    dsimp only
    by_cases hrestart : (c.host h p.file).needsRestart (c.state p.file).config config = true
    · rw [if_pos hrestart]
      exact ⟨_, .restart, rfl⟩
    · rw [if_neg hrestart]
      by_cases hunchanged : (c.host h p.file).same config (c.state p.file).config = true
      · rw [if_pos hunchanged]
        exact ⟨_, .unchanged doc hfile, rfl⟩
      · rw [if_neg hunchanged]
        have hsame : needsRestart c.settings settings = false := by
          simpa [Connector.host, fileSettings, hfile, hsettings] using hrestart
        rcases configure (c.host h p.file) (c.state p.file).connector config with ⟨m, verdict⟩
        cases verdict with
        | error e => exact ⟨_, .kept _, rfl⟩
        | ok u =>
          refine ⟨_, .applied doc settings config m hfile hsettings hsame, ?_⟩
          simp [Connector.after, settingsOf, hsettings]

end Steps

end Management

/-! ## The C runtime -/

namespace TdotManagement

variable {M : Type}

structure Connector (M : Type) where
  config : TdotConfig
  built : M
  captured : Captured

/-- A connector's file, and the connector while it runs. -/
structure Process (M : Type) where
  file : Option String
  running : Option (Connector M)

inductive Happening (M : Type) where
  | command (around : TdotAround) (verb : String) (req : CJson)
  | reload (around : TdotAround) (canRestart : Bool)
  | edited (file : Option String)
  /-- `worker_start`, and the connector up to its main loop. -/
  | started (around : TdotAround) (built : M) (online : Bool)
  | ended

/-- What `worker_start` and `run_connector` take from the configuration they start with. -/
def capture (config : TdotConfig) : Captured where
  host := config.mqttHost
  port := config.mqttPort
  clientId := s!"{config.serviceName}-{config.protocol}"
  service := config.serviceName
  protocol := config.protocol
  built := config.protocol
  stallLimit := config.stallTimeout

/-- The state the entry points work on. -/
def Connector.state (c : Connector M) (file : Option String) : TdotState M :=
  { config := c.config, file, connector := c.built }

def start (h : TdotHost M) (around : TdotAround) (built : M) (file : Option String)
    (online : Bool) : Option (Connector M) :=
  match load h around file with
  | .error _ => none
  | .ok config =>
    match h.configure built config with
    | (_, .error _) => none
    | (m, .ok ()) => if online then some { config, built := m, captured := capture config } else none

/-- The connector with the state an entry point leaves. -/
def Connector.after (c : Connector M) (s : TdotState M) : Connector M :=
  { c with config := s.config, built := s.connector }

/-- What one happening makes of them, and the text a command wrote into the file. -/
def Process.step (h : TdotHost M) (p : Process M) : Happening M → Process M × Option String
  | .command around verb req =>
    match p.running with
    | none => (p, none)
    | some c =>
      match handleManagement h around (c.state p.file) verb req with
      | (s, .error _) => ({ file := s.file, running := some (c.after s) }, none)
      | (s, .ok ()) =>
        ({ file := s.file, running := some (c.after s) }, if around.renamed then s.file else none)
  | .reload around canRestart =>
    match p.running with
    | none => (p, none)
    | some c =>
      match reloadFromFile h around canRestart (c.state p.file) with
      | (_, .restart) => ({ p with running := none }, none)
      | (s, _) => ({ p with running := some (c.after s) }, none)
  | .edited file => ({ p with file }, none)
  | .started around built online =>
    match p.running with
    | some _ => (p, none)
    | none => ({ p with running := start h around built p.file online }, none)
  | .ended => ({ p with running := none }, none)

def Connector.accepts (h : TdotHost M) (c : Connector M) (file : Option String)
    (around : TdotAround) (verb : String) (req : CJson) : Bool :=
  (handleManagement h around (c.state file) verb req).2.isOk

/-! ### What a step does -/

section Steps

variable {h : TdotHost M} {p : Process M} {c : Connector M}

/-- What an accepted command leads to: the patched document, and the configuration its text loads
as. -/
structure Accepted (h : TdotHost M) (around : TdotAround) (c : Connector M) (verb : String)
    (req : CJson) (doc : CMembers) (candidate : TdotConfig) : Prop where
  applied : applyManagement c.config.root verb req = .ok doc
  loaded : load h around (some (h.emit doc)) = .ok candidate

theorem applied_of_patched {root : CMembers} {verb : String} {req : CJson} {doc : CMembers}
    (hdoc : patched h root verb req = .ok doc) : applyManagement root verb req = .ok doc := by
  unfold patched at hdoc
  split at hdoc
  · cases hdoc
  · rename_i doc' happly
    split at hdoc
    · cases hdoc
    · split at hdoc
      · cases hdoc
      · rw [happly, Except.ok.inj hdoc]

/-- The two ways `handle_management` ends. -/
theorem handleManagement_cases (around : TdotAround) (verb : String) (req : CJson)
    (file : Option String) :
    (∃ doc candidate m, Accepted h around c verb req doc candidate ∧
      handleManagement h around (c.state file) verb req =
        ({ config := candidate, file := if around.renamed then some (h.emit doc) else file,
           connector := m }, .ok ())) ∨
      ∃ m e, handleManagement h around (c.state file) verb req =
        ({ c.state file with connector := m }, .error e) := by
  unfold handleManagement
  rw [show (c.state file).hasPath = true from rfl]
  simp only [Bool.not_true, Bool.false_eq_true, if_false]
  cases hdoc : patched h (c.state file).config.root verb req with
  | error e => exact .inr ⟨c.built, e, rfl⟩
  | ok doc =>
    dsimp only
    split
    · exact .inr ⟨c.built, _, rfl⟩
    · cases hload : load h around (some (h.emit doc)) with
      | error e => exact .inr ⟨c.built, _, rfl⟩
      | ok candidate =>
        dsimp only
        rcases tryConfigure h (c.state file) candidate with ⟨m, verdict⟩
        cases verdict with
        | error e => exact .inr ⟨m, e, rfl⟩
        | ok u => exact .inl ⟨doc, candidate, m, ⟨applied_of_patched hdoc, hload⟩, rfl⟩

theorem step_accepted (hc : p.running = some c) {around : TdotAround} {verb : String} {req : CJson}
    (haccepts : c.accepts h p.file around verb req = true) :
    ∃ doc candidate m, Accepted h around c verb req doc candidate ∧
      p.step h (.command around verb req) =
        ({ file := if around.renamed then some (h.emit doc) else p.file,
           running := some { c with config := candidate, built := m } },
          if around.renamed then some (h.emit doc) else none) := by
  rcases handleManagement_cases (h := h) (c := c) around verb req p.file with
    ⟨doc, candidate, m, hpatched, hhandled⟩ | ⟨m, e, hhandled⟩
  · refine ⟨doc, candidate, m, hpatched, ?_⟩
    simp only [Process.step, hc, hhandled, Connector.after]
    cases around.renamed <;> rfl
  · rw [Connector.accepts, hhandled] at haccepts
    cases haccepts

theorem step_refused (hc : p.running = some c) {around : TdotAround} {verb : String} {req : CJson}
    (haccepts : c.accepts h p.file around verb req = false) :
    ∃ m, p.step h (.command around verb req) =
      ({ p with running := some { c with built := m } }, none) := by
  rcases handleManagement_cases (h := h) (c := c) around verb req p.file with
    ⟨doc, candidate, m, -, hhandled⟩ | ⟨m, e, hhandled⟩
  · rw [Connector.accepts, hhandled] at haccepts
    cases haccepts
  · refine ⟨m, ?_⟩
    simp only [Process.step, hc, hhandled, Connector.after]
    rfl

/-- What a reload may do to a running connector. -/
inductive ReloadedTo (h : TdotHost M) (around : TdotAround) (p : Process M) (c : Connector M) :
    Process M → Prop where
  /-- The file is kept away from the connector, or found unchanged. -/
  | kept (m : M) : ReloadedTo h around p c { p with running := some { c with built := m } }
  /-- The file is the running configuration now. -/
  | applied (candidate : TdotConfig) (m : M) (hloaded : load h around p.file = .ok candidate)
      (hsame : needsRestart c.config candidate = false) :
      ReloadedTo h around p c
        { p with running := some { c with config := candidate, built := m } }
  /-- The connector ends, to be started from the file. -/
  | restart : ReloadedTo h around p c { p with running := none }

/-- And of the C build. -/
theorem step_reloaded (hc : p.running = some c) (around : TdotAround) (canRestart : Bool) :
    ∃ p', ReloadedTo h around p c p' ∧ p.step h (.reload around canRestart) = (p', none) := by
  simp only [Process.step, hc]
  unfold reloadFromFile
  rw [show (c.state p.file).hasPath = true from rfl]
  simp only [Bool.not_true, Bool.false_eq_true, if_false]
  cases hloaded : load h around (c.state p.file).file with
  | error e => exact ⟨_, .kept c.built, rfl⟩
  | ok candidate =>
    dsimp only
    by_cases hrestart : needsRestart (c.state p.file).config candidate = true
    · rw [if_pos hrestart]
      cases canRestart with
      | true => exact ⟨_, .restart, rfl⟩
      | false => exact ⟨_, .kept c.built, rfl⟩
    · rw [if_neg hrestart]
      by_cases hunchanged :
          (fingerprint h (c.state p.file).config == fingerprint h candidate) = true
      · rw [if_pos hunchanged]
        exact ⟨_, .kept c.built, rfl⟩
      · rw [if_neg hunchanged]
        rcases tryConfigure h (c.state p.file) candidate with ⟨m, verdict⟩
        cases verdict with
        | error e => exact ⟨_, .kept m, rfl⟩
        | ok u =>
          exact ⟨_, .applied candidate m hloaded (Bool.eq_false_of_not_eq_true hrestart), rfl⟩

end Steps

end TdotManagement

end TedgeDot
