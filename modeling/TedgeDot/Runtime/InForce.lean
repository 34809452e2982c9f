import TedgeDot.Lib.Machine
import TedgeDot.Runtime.Lifecycle
import TedgeDot.Runtime.Reach

/-!
# What is running and what the configuration says

A connector keeps what it took from its configuration when it started. A reload that finds another
broker, name, protocol or stall limit ends the connector, to be started with it; a management
command does not ask, and from then on the later reloads compare with the new value and find
nothing to restart for.
-/

namespace TedgeDot

open Machine (AllSteps)

/-! ## The Rust runtime -/

namespace Management

variable {M : Type} {h : Host M}

/-- What is in force is what the running configuration says. -/
def Process.InForce (p : Process M) : Prop :=
  ∀ c, p.running = some c → c.captured = capture c.settings

/-- A command that is accepted patches the document into one that asks for the same broker, names,
protocol and stall limit as the running configuration. -/
def Adoptable (h : Host M) (p : Process M) : Happening M → Prop
  | .command around verb json =>
    ∀ c, p.running = some c → c.accepts h p.file around verb json = true →
      ∀ doc settings, applyManagement verb json c.doc = .ok doc →
        readSettings doc.toToml = .ok settings → needsRestart c.settings settings = false
  | _ => True

variable {p : Process M} {c : Connector M}

theorem inForce_of_not_running (hp : p.running = none) : p.InForce := by
  intro c hc
  rw [hp] at hc
  cases hc

theorem inForce_some {file : Except String Document} :
    Process.InForce { file, running := some c } ↔ c.captured = capture c.settings := by
  simp [Process.InForce]

theorem start_captures {around : Surroundings} {built : M} {file file' : Except String Document}
    {online : Bool} (hc : start h around built file file' online = some c) :
    c.captured = capture c.settings := by
  unfold start at hc
  split at hc
  · cases hc
  · split at hc
    · split at hc
      · cases hc
      · split at hc
        · obtain rfl := Option.some.inj hc
          rfl
        · cases hc
    · cases hc

theorem reloaded_inForce {p p' : Process M} (hto : ReloadedTo p c p')
    (hc : c.captured = capture c.settings) : p'.InForce := by
  cases hto with
  | kept m => exact inForce_some.mpr hc
  | unchanged doc hfile => exact inForce_some.mpr hc
  | applied doc settings config m hfile hsettings hsame =>
    apply inForce_some.mpr
    rw [hc, needsRestart_eq_false_iff.mp hsame]
  | restart => exact inForce_of_not_running rfl

/-- The Rust runtime keeps the file in force exactly where an event can be adopted. -/
theorem step_inForce_iff (hp : p.InForce) (e : Happening M) :
    Adoptable h p e ↔ (p.step h e).1.InForce := by
  cases e with
  | command around verb json =>
    cases hc : p.running with
    | none =>
      have hstep : (p.step h (.command around verb json)).1 = p := by simp [Process.step, hc]
      rw [hstep]
      exact ⟨fun _ => hp, fun _ c hc' => by rw [hc] at hc'; cases hc'⟩
    | some c =>
      cases haccepts : c.accepts h p.file around verb json with
      | false =>
        -- a refused command replaces nothing
        obtain ⟨m, hstep⟩ := step_refused hc haccepts
        rw [hstep]
        refine ⟨fun _ => inForce_some.mpr (hp c hc), fun _ c' hc' haccepts' => ?_⟩
        obtain rfl := Option.some.inj (hc.symm.trans hc')
        rw [haccepts] at haccepts'
        cases haccepts'
      | true =>
        obtain ⟨doc, settings, config, m, hpatched, hstep⟩ := step_accepted hc haccepts
        rw [hstep]
        -- the settings replaced are the ones captured exactly when nothing changed
        have hkept : (Process.InForce (M := M)
            { file := if around.persisted then .ok doc else p.file,
              running := some { c with config, doc, built := m, settings } }) ↔
              needsRestart c.settings settings = false := by
          rw [inForce_some, needsRestart_eq_false_iff, hp c hc, capture_inj]
        rw [hkept]
        constructor
        · intro hadoptable
          exact hadoptable c hc haccepts doc settings hpatched.applied hpatched.settings
        · intro hsame c' hc' _ doc' settings' hdoc' hsettings'
          obtain rfl := Option.some.inj (hc.symm.trans hc')
          obtain rfl := Except.ok.inj (hpatched.applied.symm.trans hdoc')
          rwa [← Except.ok.inj (hpatched.settings.symm.trans hsettings')]
  | reload around =>
    refine ⟨fun _ => ?_, fun _ => trivial⟩
    cases hc : p.running with
    | none =>
      apply inForce_of_not_running
      simp [Process.step, hc]
    | some c =>
      obtain ⟨p', hto, hstep⟩ := step_reloaded (h := h) hc around
      rw [hstep]
      exact reloaded_inForce hto (hp c hc)
  | edited file => exact ⟨fun _ => hp, fun _ => trivial⟩
  | started around built meanwhile online =>
    refine ⟨fun _ => ?_, fun _ => trivial⟩
    unfold Process.step
    cases hc : p.running with
    | some c => exact hp
    | none => exact fun c' hc' => start_captures hc'
  | ended => exact ⟨fun _ => inForce_of_not_running rfl, fun _ => trivial⟩

end Management

/-! ## The C runtime -/

namespace TdotManagement

variable {M : Type} {h : TdotHost M}

/-- What is in force is what the running configuration says. -/
def Process.InForce (p : Process M) : Prop :=
  ∀ c, p.running = some c → c.captured = capture c.config

/-- A command that is accepted patches the document into one that loads with the same broker,
names, protocol and stall limit as the running configuration. -/
def Adoptable (h : TdotHost M) (p : Process M) : Happening M → Prop
  | .command around verb req =>
    ∀ c, p.running = some c → c.accepts h p.file around verb req = true →
      ∀ doc candidate, applyManagement c.config.root verb req = .ok doc →
        load h around (some (h.emit doc)) = .ok candidate → needsRestart c.config candidate = false
  | _ => True

theorem capture_eq_iff {running candidate : TdotConfig} :
    capture running = capture candidate ↔ needsRestart running candidate = false := by
  simp only [needsRestart, Bool.or_eq_false_iff, bne_eq_false_iff_eq, capture, Captured.mk.injEq]
  constructor
  · rintro ⟨hhost, hport, -, hservice, hprotocol, -, hstall⟩
    exact ⟨⟨⟨⟨hprotocol, hservice⟩, hhost⟩, hport⟩, hstall⟩
  · rintro ⟨⟨⟨⟨hprotocol, hservice⟩, hhost⟩, hport⟩, hstall⟩
    exact ⟨hhost, hport, by rw [hprotocol, hservice], hservice, hprotocol, hprotocol, hstall⟩

theorem inForce_of_not_running {p : Process M} (hp : p.running = none) : p.InForce := by
  intro c hc
  rw [hp] at hc
  cases hc

theorem inForce_some {file : Option String} {c : Connector M} :
    Process.InForce { file, running := some c } ↔ c.captured = capture c.config := by
  simp [Process.InForce]

theorem start_captures {around : TdotAround} {built : M} {file : Option String} {online : Bool}
    {c : Connector M} (hc : start h around built file online = some c) :
    c.captured = capture c.config := by
  unfold start at hc
  split at hc
  · cases hc
  · split at hc
    · cases hc
    · split at hc
      · obtain rfl := Option.some.inj hc
        rfl
      · cases hc

theorem reloaded_inForce {around : TdotAround} {p p' : Process M} {c : Connector M}
    (hto : ReloadedTo h around p c p') (hc : c.captured = capture c.config) : p'.InForce := by
  cases hto with
  | kept m => exact inForce_some.mpr hc
  | applied candidate m hloaded hsame =>
    apply inForce_some.mpr
    rw [hc, capture_eq_iff]
    exact hsame
  | restart => exact inForce_of_not_running rfl

/-- So does the C runtime. -/
theorem step_inForce_iff {p : Process M} (hp : p.InForce) (e : Happening M) :
    Adoptable h p e ↔ (p.step h e).1.InForce := by
  cases e with
  | command around verb req =>
    cases hc : p.running with
    | none =>
      have hstep : (p.step h (.command around verb req)).1 = p := by simp [Process.step, hc]
      rw [hstep]
      exact ⟨fun _ => hp, fun _ c hc' => by rw [hc] at hc'; cases hc'⟩
    | some c =>
      cases haccepts : c.accepts h p.file around verb req with
      | false =>
        obtain ⟨m, hstep⟩ := step_refused hc haccepts
        rw [hstep]
        refine ⟨fun _ => inForce_some.mpr (hp c hc), fun _ c' hc' haccepts' => ?_⟩
        obtain rfl := Option.some.inj (hc.symm.trans hc')
        rw [haccepts] at haccepts'
        cases haccepts'
      | true =>
        obtain ⟨doc, candidate, m, hpatched, hstep⟩ := step_accepted hc haccepts
        rw [hstep]
        have hkept : (Process.InForce (M := M)
            { file := if around.renamed then some (h.emit doc) else p.file,
              running := some { c with config := candidate, built := m } }) ↔
              needsRestart c.config candidate = false := by
          rw [inForce_some, hp c hc, capture_eq_iff]
        rw [hkept]
        constructor
        · intro hadoptable
          exact hadoptable c hc haccepts doc candidate hpatched.applied hpatched.loaded
        · intro hsame c' hc' _ doc' candidate' hdoc' hcandidate'
          obtain rfl := Option.some.inj (hc.symm.trans hc')
          obtain rfl := Except.ok.inj (hpatched.applied.symm.trans hdoc')
          rwa [← Except.ok.inj (hpatched.loaded.symm.trans hcandidate')]
  | reload around canRestart =>
    refine ⟨fun _ => ?_, fun _ => trivial⟩
    cases hc : p.running with
    | none =>
      apply inForce_of_not_running
      simp [Process.step, hc]
    | some c =>
      obtain ⟨p', hto, hstep⟩ := step_reloaded (h := h) hc around canRestart
      rw [hstep]
      exact reloaded_inForce hto (hp c hc)
  | edited file => exact ⟨fun _ => hp, fun _ => trivial⟩
  | started around built online =>
    refine ⟨fun _ => ?_, fun _ => trivial⟩
    unfold Process.step
    cases hc : p.running with
    | some c => exact hp
    | none => exact fun c' hc' => start_captures hc'
  | ended => exact ⟨fun _ => inForce_of_not_running rfl, fun _ => trivial⟩

end TdotManagement

/-! ## Whole runs -/

/-- **What is running is what the configuration says**, in every state a run of either runtime
reaches, exactly when no command of the run is accepted that asks for another broker, name,
protocol or stall limit. -/
theorem running_as_configured {M : Type} (h : Management.Host M) (file : Except String Document)
    (run : List (Management.Happening M)) (h' : TdotManagement.TdotHost M) (file' : Option String)
    (run' : List (TdotManagement.Happening M)) :
    (AllSteps (Management.Process.step h) (fun p e => (p.step h e).1.InForce)
        { file, running := none } run ↔
      AllSteps (Management.Process.step h) (Management.Adoptable h) { file, running := none } run) ∧
    (AllSteps (TdotManagement.Process.step h') (fun p e => (p.step h' e).1.InForce)
        { file := file', running := none } run' ↔
      AllSteps (TdotManagement.Process.step h') (TdotManagement.Adoptable h')
        { file := file', running := none } run') := by
  constructor
  · have hinit : Management.Process.InForce (M := M) { file, running := none } :=
      Management.inForce_of_not_running rfl
    exact (Machine.allSteps_iff_of_invariant (P := Management.Process.InForce)
      (fun p e hp => Management.step_inForce_iff hp e) run hinit).symm
  · have hinit : TdotManagement.Process.InForce (M := M) { file := file', running := none } :=
      TdotManagement.inForce_of_not_running rfl
    exact (Machine.allSteps_iff_of_invariant (P := TdotManagement.Process.InForce)
      (fun p e hp => TdotManagement.step_inForce_iff hp e) run' hinit).symm

/-! ## A broker that is only written down -/

namespace Management

/-- What surrounds the changes of a connector without devices. -/
def noDevices : Surroundings where
  resolve _ := .ok { protocol := "modbus" }

/-- `set-config` of `[mqtt]` with another broker. -/
def brokerPatch : Json :=
  .object [("target", .string "mqtt"), ("config", .object [("host", .string "10.0.0.9")])]

/-- The connector is started, and the command arrives. -/
def brokerRun : List (Happening Unit) :=
  [.started noDevices () none true, .command noDevices "set-config" brokerPatch]

/-- The command is answered successful, the running configuration names the new broker, and the
client stays connected to the old one. A reload of the file as it is then finds no difference. -/
theorem broker_astray :
    let idle : Process Unit := { file := .ok meterDocument, running := none }
    let p := Machine.final (Process.step anyHost) idle brokerRun
    p.running.map (fun c => (c.settings.mqttHost, c.captured.host)) = some ("10.0.0.9", "127.0.0.1") ∧
      ¬ p.InForce ∧
      (Machine.final (Process.step anyHost) p [.reload noDevices]).running.map
        (fun c => (c.settings.mqttHost, c.captured.host)) = some ("10.0.0.9", "127.0.0.1") := by
  intro idle p
  have hhosts : p.running.map (fun c => (c.settings.mqttHost, c.captured.host)) =
      some ("10.0.0.9", "127.0.0.1") := by decide +kernel
  refine ⟨hhosts, fun hforce => ?_, by decide +kernel⟩
  obtain ⟨c, hc, hpair⟩ := Option.map_eq_some_iff.mp hhosts
  have hhost : c.captured.host = c.settings.mqttHost := by rw [hforce c hc]; rfl
  obtain ⟨hnew, hold⟩ := Prod.mk.inj hpair
  rw [hhost, hnew] at hold
  exact absurd hold (by decide)

end Management

end TedgeDot
