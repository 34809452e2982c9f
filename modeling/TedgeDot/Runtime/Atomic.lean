import TedgeDot.Lib.Machine
import TedgeDot.Runtime.Manage

/-!
# Refused changes leave everything as it was

Runs of management commands, reloads and edits of the file. A command or a reload is adopted,
once the protocol module has taken the new configuration, or it fails; a failed one leaves the
running configuration, the document, the file and the module's configuration alone.
-/

namespace TedgeDot.Management

variable {M : Type}

/-- What happens to a running connector's configuration. -/
inductive Event where
  | command (around : Surroundings) (verb : String) (json : Json)
  | reload (around : Surroundings)
  /-- Somebody else writes the file. -/
  | edited (file : Except String Document)

inductive Outcome where
  | handled (statuses : List Status) (result : Except Unit Bool)
  | reloaded (r : Reloaded)
  | written

def step (h : Host M) (s : State M) : Event → State M × Outcome
  | .command around verb json =>
    let handled := handleManagement h around s verb json
    (handled.state, .handled handled.statuses handled.result)
  | .reload around =>
    let reload := reloadFromFile h around s
    (reload.1, .reloaded reload.2)
  | .edited file => ({ s with file }, .written)

theorem step_command (h : Host M) (s : State M) (around : Surroundings) (verb : String) (json : Json) :
    step h s (.command around verb json) = ((handleManagement h around s verb json).state,
      .handled (handleManagement h around s verb json).statuses
        (handleManagement h around s verb json).result) := rfl

theorem step_reload (h : Host M) (s : State M) (around : Surroundings) :
    step h s (.reload around) =
      ((reloadFromFile h around s).1, .reloaded (reloadFromFile h around s).2) := rfl

/-- The verdict on a candidate: the module takes it, or why it is refused. -/
def verdict (h : Host M) (s : State M) (loaded : Except String (Document × ConnectorConfig)) :
    Except String (Document × ConnectorConfig) :=
  match loaded with
  | .error e => .error e
  | .ok (doc, config) =>
    match (configure h s.connector config).2 with
    | .error e => .error s!"configure failed: {e}"
    | .ok () => .ok (doc, config)

/-- The document and the configuration a reload reads. -/
def loaded (around : Surroundings) (s : State M) : Except String (Document × ConnectorConfig) :=
  match s.file with
  | .error e => .error e
  | .ok doc =>
    match around.resolve doc.toToml with
    | .error e => .error e
    | .ok config => .ok (doc, config)

/-- The change is one that fails: an invalid payload, an introduced path reference or local-only
setting, a configuration that does not resolve, or one the module refuses. -/
def Fails (h : Host M) (s : State M) : Event → Prop
  | .command around verb json =>
    around.executing = true ∧ ∃ e, verdict h s (candidate h around s.doc verb json) = .error e
  | .reload around =>
    (∃ e, loaded around s = .error e) ∨
      ∃ doc config e, loaded around s = .ok (doc, config) ∧ h.needsRestart s.config config = false ∧
        h.same config s.config = false ∧ (configure h s.connector config).2 = .error e
  | .edited _ => False

/-- The document and the file, as somebody knows them who sees only the changes that were
adopted. -/
abbrev Seen := Document × Except String Document

/-- What an adopted change does to them: a command patches the document and writes it, a reload
takes the file. -/
def observe (seen : Seen) : Event → Seen
  | .command around verb json =>
    match applyManagement verb json seen.1 with
    | .ok doc => (doc, if around.persisted then .ok doc else seen.2)
    | .error _ => seen
  | .reload _ =>
    match seen.2 with
    | .ok doc => (doc, seen.2)
    | .error _ => seen
  | .edited file => (seen.1, file)

/-- A reload takes the document of the file: nothing needs a restart, and the configuration is
the running one or the module takes it. -/
def takesFile (h : Host M) (around : Surroundings) (s : State M) : Bool :=
  match loaded around s with
  | .error _ => false
  | .ok (_, config) =>
    !h.needsRestart s.config config &&
      (h.same config s.config || (configure h s.connector config).2.isOk)

def adopts (h : Host M) (s : State M) : Event → Bool
  | .command around verb json =>
    around.executing && (verdict h s (candidate h around s.doc verb json)).isOk
  | .reload around => takesFile h around s
  | .edited _ => true

def adopted (h : Host M) (s : State M) : List Event → List Event
  | [] => []
  | e :: es =>
    if adopts h s e then e :: adopted h (step h s e).1 es else adopted h (step h s e).1 es

/-- What a candidate passed: the command applies, it introduces neither a path reference nor a
local-only setting, and it resolves. -/
structure Vetted (h : Host M) (around : Surroundings) (doc : Document) (verb : String) (json : Json)
    (new : Document × ConnectorConfig) : Prop where
  applied : applyManagement verb json doc = .ok new.1
  paths : Library.rejectPathReferences doc.toToml new.1.toToml = .ok ()
  localOnly :
    Library.rejectLocalOnlySettings doc.toToml new.1.toToml h.localOnlySettings = .ok ()
  resolved : around.resolve new.1.toToml = .ok new.2

variable {h : Host M} {around : Surroundings} {verb : String} {new : Document × ConnectorConfig}

theorem vetted_of_candidate {doc : Document} {json : Json}
    (hnew : candidate h around doc verb json = .ok new) : Vetted h around doc verb json new := by
  unfold candidate at hnew
  split at hnew
  · cases hnew
  · rename_i doc' happly
    split at hnew
    · cases hnew
    · rename_i hpaths
      split at hnew
      · cases hnew
      · rename_i hlocal
        split at hnew
        · cases hnew
        · rename_i config hresolve
          obtain rfl := Except.ok.inj hnew
          exact ⟨happly, hpaths, hlocal, hresolve⟩

theorem candidate_of_verdict {s : State M} {loaded : Except String (Document × ConnectorConfig)}
    (hnew : verdict h s loaded = .ok new) :
    loaded = .ok new ∧ (configure h s.connector new.2).2 = .ok () := by
  unfold verdict at hnew
  split at hnew
  · cases hnew
  · split at hnew
    · cases hnew
    · rename_i hconfigure
      obtain rfl := Except.ok.inj hnew
      exact ⟨rfl, hconfigure⟩

/-! ## One event -/

/-- The module a refused change leaves: as it was, or given the running configuration again
after it refused another. -/
def Restored (h : Host M) (s : State M) (m : M) : Prop :=
  m = s.connector ∨ ∃ config reason, (configure h s.connector config).2 = .error reason ∧
    m = (h.configure (configure h s.connector config).1 s.config).1

/-- A command whose verdict is an error is refused, with the module as it was. -/
theorem handleManagement_refused {s : State M} {json : Json} (hexecuting : around.executing = true)
    {e : String} (hverdict : verdict h s (candidate h around s.doc verb json) = .error e) :
    ∃ m, Restored h s m ∧
      handleManagement h around s verb json = refused around { s with connector := m } e := by
  unfold handleManagement
  rw [hexecuting]
  unfold verdict at hverdict
  cases hcandidate : candidate h around s.doc verb json with
  | error e' =>
    rw [hcandidate] at hverdict
    obtain rfl := Except.error.inj hverdict
    exact ⟨s.connector, .inl rfl, rfl⟩
  | ok new =>
    obtain ⟨doc, config⟩ := new
    rw [hcandidate] at hverdict
    dsimp only at hverdict
    split at hverdict
    · rename_i e' hconfigure
      obtain rfl := Except.error.inj hverdict
      refine ⟨_, .inr ⟨config, e', hconfigure, rfl⟩, ?_⟩
      have hpair : configure h s.connector config = ((configure h s.connector config).1, .error e') :=
        Prod.ext rfl hconfigure
      simp only [Bool.not_true, Bool.false_eq_true, if_false]
      rw [hpair]
    · cases hverdict

theorem handleManagement_adopted {s : State M} {json : Json} (hexecuting : around.executing = true)
    (hverdict : verdict h s (candidate h around s.doc verb json) = .ok new) :
    (handleManagement h around s verb json).state =
      { config := new.2, doc := new.1, connector := (configure h s.connector new.2).1,
        file := if around.persisted then .ok new.1 else s.file } := by
  obtain ⟨hcandidate, hconfigure⟩ := candidate_of_verdict hverdict
  have hpair : configure h s.connector new.2 = ((configure h s.connector new.2).1, .ok ()) :=
    Prod.ext rfl hconfigure
  unfold handleManagement
  rw [hexecuting, hcandidate]
  simp only [Bool.not_true, Bool.false_eq_true, if_false]
  rw [hpair]
  dsimp only
  -- the state is the same whether or not the publishes go through
  split <;> rfl

theorem reloadFromFile_eq (h : Host M) (around : Surroundings) (s : State M) :
    reloadFromFile h around s =
      match loaded around s with
      | .error _ => (s, .kept)
      | .ok (doc, config) =>
        if h.needsRestart s.config config then (s, .restart)
        else if h.same config s.config then ({ s with doc }, .unchanged)
        else
          match configure h s.connector config with
          | (m, .error _) => ({ s with connector := (h.configure m s.config).1 }, .kept)
          | (m, .ok ()) => ({ s with config, doc, connector := m }, .applied) := by
  unfold reloadFromFile loaded
  cases hfile : s.file with
  | error e => rfl
  | ok doc =>
    dsimp only
    cases around.resolve doc.toToml <;> rfl

/-! ## The module's configuration -/

section Works

variable (h : Host M) (works : M → Option ConnectorConfig)

/-- After it refused a configuration, the module accepts again the one it was running. -/
def AcceptsAgain (s : State M) : Prop :=
  ∀ config reason, (configure h s.connector config).2 = .error reason →
    (h.configure (configure h s.connector config).1 s.config).2 = .ok ()

/-- The module works with the running configuration. -/
def Running (s : State M) : Prop := works s.connector = some s.config

/-- What a failed change leaves. -/
structure Unmoved (s : State M) (e : Event) : Prop where
  config : (step h s e).1.config = s.config
  doc : (step h s e).1.doc = s.doc
  file : (step h s e).1.file = s.file
  works : works (step h s e).1.connector = works s.connector
  reported : match (step h s e).2 with
    | .handled statuses _ => ∃ reason, statuses = [.executing, .failed reason]
    | .reloaded r => r = .kept
    | .written => False

variable {h works}

theorem works_again (hworks : ∀ m c, (h.configure m c).2 = .ok () → works (h.configure m c).1 = some c)
    {s : State M} (hs : Running works s) (hagain : AcceptsAgain h s) {m : M}
    (hm : Restored h s m) : works m = works s.connector := by
  rcases hm with rfl | ⟨config, reason, hrefused, rfl⟩
  · rfl
  · rw [hworks _ s.config (hagain config reason hrefused), hs]

/-- An event that fails moves nothing. -/
theorem unmoved_of_fails
    (hworks : ∀ m c, (h.configure m c).2 = .ok () → works (h.configure m c).1 = some c)
    {s : State M} (hs : Running works s) (hagain : AcceptsAgain h s) {e : Event} (he : Fails h s e) :
    Unmoved h works s e := by
  cases e with
  | command around verb json =>
    obtain ⟨hexecuting, reason, hverdict⟩ := he
    obtain ⟨m, hm, heq⟩ := handleManagement_refused hexecuting hverdict
    have hstep : step h s (.command around verb json) =
        ({ s with connector := m }, .handled [.executing, .failed reason]
          (if around.failed then .ok false else .error ())) := by
      rw [step_command, heq]
      rfl
    constructor
    all_goals rw [hstep]
    · exact works_again hworks hs hagain hm
    · exact ⟨reason, rfl⟩
  | reload around =>
    have hstep : ∃ m, Restored h s m ∧
        step h s (.reload around) = ({ s with connector := m }, .reloaded .kept) := by
      rw [step_reload, reloadFromFile_eq]
      rcases he with ⟨reason, hloaded⟩ | ⟨doc, config, reason, hloaded, hrestart, hsame, hconfigure⟩
      · rw [hloaded]
        exact ⟨s.connector, .inl rfl, rfl⟩
      · have hpair : configure h s.connector config =
            ((configure h s.connector config).1, .error reason) := Prod.ext rfl hconfigure
        rw [hloaded]
        dsimp only
        rw [hrestart, hsame, hpair]
        exact ⟨_, .inr ⟨config, reason, hconfigure, rfl⟩, rfl⟩
    obtain ⟨m, hm, hstep⟩ := hstep
    constructor
    all_goals rw [hstep]
    exact works_again hworks hs hagain hm
  | edited file => cases he

end Works

/-! ## Whole runs -/

section Observer

variable {h : Host M} {s : State M} {e : Event}

def seen (s : State M) : Seen := (s.doc, s.file)

theorem isOk_iff {ε α : Type} {x : Except ε α} : x.isOk = true ↔ ∃ a, x = .ok a := by
  cases x with
  | error e => simp [Except.isOk, Except.toBool]
  | ok a => simp [Except.isOk, Except.toBool]

/-- What is adopted is what one sees afterwards. -/
theorem seen_of_adopts (he : adopts h s e = true) : seen (step h s e).1 = observe (seen s) e := by
  cases e with
  | command around verb json =>
    rw [adopts, Bool.and_eq_true, isOk_iff] at he
    obtain ⟨hexecuting, new, hverdict⟩ := he
    have hcandidate := (candidate_of_verdict hverdict).1
    -- the patched document is what the outside sees
    have hstate := handleManagement_adopted hexecuting hverdict
    unfold seen observe
    rw [step_command, hstate]
    dsimp only
    rw [(vetted_of_candidate hcandidate).applied]
  | reload around =>
    have he : takesFile h around s = true := he
    unfold takesFile at he
    split at he
    · cases he
    · rename_i doc config hloaded
      have hfile : s.file = .ok doc := by
        unfold loaded at hloaded
        split at hloaded
        · cases hloaded
        · rename_i doc' hfile
          split at hloaded
          · cases hloaded
          · obtain ⟨rfl, -⟩ := Prod.mk.inj (Except.ok.inj hloaded)
            exact hfile
      rw [Bool.and_eq_true, Bool.not_eq_true', Bool.or_eq_true, isOk_iff] at he
      have hstep : seen (step h s (.reload around)).1 = (doc, s.file) := by
        rw [step_reload, reloadFromFile_eq, hloaded]
        dsimp only
        rw [if_neg (by rw [he.1]; exact Bool.false_ne_true)]
        split
        · rfl
        · rename_i hsame
          obtain ⟨_, hconfigure⟩ := he.2.resolve_left hsame
          have hpair : configure h s.connector config =
              ((configure h s.connector config).1, .ok ()) := Prod.ext rfl hconfigure
          rw [hpair]
          rfl
      rw [hstep]
      unfold observe seen
      dsimp only
      rw [hfile]
  | edited file => rfl

/-- Otherwise one sees what one saw. -/
theorem seen_of_not_adopts (he : adopts h s e = false) : seen (step h s e).1 = seen s := by
  cases e with
  | command around verb json =>
    cases hexecuting : around.executing with
    | false =>
      rw [step_command, handleManagement, hexecuting]
      rfl
    | true =>
      cases hverdict : verdict h s (candidate h around s.doc verb json) with
      | error reason =>
        obtain ⟨m, -, heq⟩ := handleManagement_refused hexecuting hverdict
        rw [step_command, heq]
        rfl
      | ok new =>
        rw [adopts, hexecuting, hverdict] at he
        cases he
  | reload around =>
    rw [step_reload, reloadFromFile_eq]
    have he : takesFile h around s = false := he
    unfold takesFile at he
    cases hloaded : loaded around s with
    | error reason => rfl
    | ok new =>
      rw [hloaded] at he
      dsimp only at he ⊢
      split
      · rfl
      · rename_i hrestart
        rw [Bool.not_eq_true] at hrestart
        rw [hrestart, Bool.not_false, Bool.true_and, Bool.or_eq_false_iff] at he
        rw [if_neg (by rw [he.1]; exact Bool.false_ne_true)]
        split
        · rfl
        · rename_i m hconfigure
          rw [hconfigure] at he
          cases he.2
  | edited file => cases he

theorem seen_final (h : Host M) (s : State M) (es : List Event) :
    seen (Machine.final (step h) s es) = (adopted h s es).foldl observe (seen s) := by
  induction es generalizing s with
  | nil => rfl
  | cons e es ih =>
    rw [Machine.final_cons, ih, adopted]
    by_cases he : adopts h s e = true
    · rw [if_pos he, List.foldl_cons, seen_of_adopts he]
    · rw [if_neg he, seen_of_not_adopts (by simpa using he)]

end Observer

section Reachable

variable {h : Host M} {works : M → Option ConnectorConfig}

theorem configure_ok {m : M} {config : ConnectorConfig} (hok : (configure h m config).2 = .ok ()) :
    configure h m config = h.configure m config := by
  unfold configure at hok ⊢
  split
  · rename_i device point hpoint
    rw [hpoint] at hok
    cases hok
  · rfl

/-- The module always works with the configuration that runs. -/
theorem running_step
    (hworks : ∀ m c, (h.configure m c).2 = .ok () → works (h.configure m c).1 = some c)
    {s : State M} (hs : Running works s) (hagain : AcceptsAgain h s) (e : Event) :
    Running works (step h s e).1 := by
  have hadopt (config : ConnectorConfig) (hok : (configure h s.connector config).2 = .ok ()) :
      works (configure h s.connector config).1 = some config := by
    have heq := configure_ok hok
    rw [heq] at hok ⊢
    exact hworks _ _ hok
  -- a module that is restored works with the old configuration again
  have hkeep (m : M) (hm : Restored h s m) : works m = some s.config :=
    (works_again hworks hs hagain hm).trans hs
  cases e with
  | command around verb json =>
    cases hexecuting : around.executing with
    | false =>
      rw [step_command, handleManagement, hexecuting]
      exact hs
    | true =>
      cases hverdict : verdict h s (candidate h around s.doc verb json) with
      | error reason =>
        obtain ⟨m, hm, heq⟩ := handleManagement_refused hexecuting hverdict
        rw [step_command, heq]
        exact hkeep m hm
      | ok new =>
        rw [step_command, handleManagement_adopted hexecuting hverdict]
        exact hadopt new.2 (candidate_of_verdict hverdict).2
  | reload around =>
    rw [step_reload, reloadFromFile_eq]
    cases hloaded : loaded around s with
    | error reason => exact hs
    | ok new =>
      dsimp only
      split
      · exact hs
      · split
        · exact hs
        · have hok := hadopt new.2
          have hrefused := hkeep (h.configure (configure h s.connector new.2).1 s.config).1
          split
          · rename_i m reason hconfigure
            rw [hconfigure] at hrefused
            exact hrefused (.inr ⟨new.2, reason, by rw [hconfigure], by rw [hconfigure]⟩)
          · rename_i m hconfigure
            rw [hconfigure] at hok
            exact hok rfl
  | edited file => exact hs

/-- In every run of commands, reloads and edits, a change that fails leaves the running
configuration, the document, the file and the module's configuration as they were, a command
ends as `failed`, and the document and the file are what an observer of the adopted changes
computes. -/
theorem refused_changes_nothing
    (hworks : ∀ m c, (h.configure m c).2 = .ok () → works (h.configure m c).1 = some c)
    {s : State M} (hs : Running works s) (es : List Event)
    (hagain : Machine.AllSteps (step h) (fun s _ => AcceptsAgain h s) s es)
    (hagain' : AcceptsAgain h (Machine.final (step h) s es)) :
    (∀ e, Fails h (Machine.final (step h) s es) e →
      Unmoved h works (Machine.final (step h) s es) e) ∧
    seen (Machine.final (step h) s es) = (adopted h s es).foldl observe (seen s) := by
  have hrun : Running works (Machine.final (step h) s es) :=
    Machine.final_induction_of (P := Running works)
      (fun _ e hagain hs => running_step hworks hs hagain e) hagain hs
  exact ⟨fun e he => unmoved_of_fails hworks hrun hagain' he, seen_final h s es⟩

end Reachable

/-! A module that refuses every device. -/

def fussy : Host (Option ConnectorConfig) where
  configure _ config :=
    if config.devices.isEmpty then (some config, .ok ()) else (none, .error "no such device")
  protocol := "modbus"
  callsMethods := false
  localOnlySettings := []
  needsRestart _ _ := false
  same a b := a.devices.isEmpty && b.devices.isEmpty

def idleState : State (Option ConnectorConfig) where
  config := { protocol := "modbus" }
  doc := [("connector", .table [("protocol", .value (.string "modbus"))])]
  file := .ok [("connector", .table [("protocol", .value (.string "modbus"))])]
  connector := some { protocol := "modbus" }

/-- `define-device` of a device, which resolves. -/
def definePlc : Event :=
  .command { resolve := fun _ => .ok { protocol := "modbus", devices := [{ name := "plc" }] } }
    "define-device" (.object [("device", .object [("name", .string "plc")])])

/-- A module that refuses some configurations. -/
theorem refused_changes_nothing_fussy :
    Unmoved fussy id idleState definePlc ∧
    seen (Machine.final (step fussy) idleState [definePlc]) = seen idleState := by
  have hagain : AcceptsAgain fussy idleState := fun _ _ _ => rfl
  have hfails : Fails fussy idleState definePlc :=
    ⟨rfl, "configure failed: no such device", rfl⟩
  have hworks : ∀ m c, (fussy.configure m c).2 = .ok () → id (fussy.configure m c).1 = some c := by
    intro m c hok
    unfold fussy at hok ⊢
    dsimp only at hok ⊢
    split at hok
    · rename_i hdevices
      rw [if_pos hdevices]
      rfl
    · cases hok
  have hrun := refused_changes_nothing hworks (s := idleState) rfl [definePlc] ⟨hagain, trivial⟩ hagain
  exact ⟨hrun.1 definePlc hfails, hrun.2⟩

end TedgeDot.Management
