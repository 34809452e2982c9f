import Mathlib.Data.List.Dedup
import TedgeDot.Lib.Machine
import TedgeDot.Lib.Members
import TedgeDot.Lib.Scan
import TedgeDot.Sdk.CJson

/-!
# The supervisor and its watcher

`run` of `main.rs` with `watch.rs`, and `tdot_runtime_run_configs` with `watch.c`: a service runs one
connector for every configuration file it finds, and reloads when a poll finds that the files have
changed and settled, or on SIGHUP. Somebody else changes the files at any moment.

- **Reading**: whatever reads several files looks at one after the other, each at its own moment
  (`Scan`): listing the configurations, taking a snapshot, collecting the referenced libraries, and
  loading a configuration.
- **The supervisor**: `Phase`, with the scan it is in the middle of.
- **The connectors**: `Stage`. What a connector does besides reading its file, whether its module
  accepts a configuration and when it fails are left open.
- **Steps**: `State.act`.

The two builds differ where `Build` is asked for. A path stands for one file; that one file may be
spelled in several ways is left out, and so is `--output stdout`.
-/

namespace TedgeDot.Supervisor

/-! ## The service -/

inductive Build where
  | rust
  | c
deriving DecidableEq

/-- An argument of `run`. -/
inductive Arg (π : Type) where
  /-- A directory, with the paths of all the `*.toml` names there may be files of. -/
  | directory (entries : List π)
  | file (path : π)
deriving DecidableEq

/-- What a service runs on: its arguments, and what the files say. `π` are paths, `σ` the stamps
(length, times and inode), `δ` the texts of files and `γ` resolved configurations. -/
structure Service (π σ δ γ : Type) where
  build : Build
  args : List (Arg π)
  /-- What the version of a file with a given stamp holds: no two versions of a file share one. -/
  document : π → σ → δ
  /-- For each point library that a configuration references, the paths it may be found at, in the
  order of `locate`. -/
  references : π → δ → List (List π)
  /-- `library::resolve`, `tdot_config_load`: a configuration and its libraries, in load order. -/
  resolve : π → δ → List δ → Option γ
  /-- The table that a text parses to. -/
  toml : δ → TomlTable
  /-- `cJSON_PrintUnformatted`. -/
  print : CJson → String
  /-- `needs_restart`. -/
  needsRestart : γ → γ → Bool

/-- A configuration that was loaded, with the documents it was made from. -/
structure Loaded (δ γ : Type) where
  root : δ
  libraries : List δ
  config : γ
deriving DecidableEq

/-- The watched paths with their stamps: `Snapshot`, `snapshot_t`. -/
abbrev Snapshot (π σ : Type) := List (π × Option σ)

section Service

variable {π σ δ γ : Type} [DecidableEq π] [DecidableEq σ] [BEq γ] (srv : Service π σ δ γ)

/-! ## Listing -/

/-- A directory entry, listed where there is a file. -/
def entryFile (p : π) : Scan π (Option σ) (List π) :=
  .look p fun stamp => .done (if stamp.isSome then [p] else [])

def configFiles : List (Arg π) → Scan π (Option σ) (List π) :=
  Scan.each fun
    | .directory entries => Scan.each entryFile entries
    | .file p => .done [p]

/-- `discover_configs`, `collect_configs`, before they drop a path that was found twice. -/
def discover : List (Arg π) → Scan π (Option σ) (Option (List π))
  | [] => .done (some [])
  | .directory entries :: rest =>
    (Scan.each entryFile entries).bind fun found =>
      (discover rest).bind fun more => .done (more.map (found ++ ·))
  | .file p :: rest => .look p fun stamp =>
    if stamp.isSome then (discover rest).bind fun more => .done (more.map (p :: ·))
    else .done none

/-- `discover_configs`, `collect_configs`: `none` where a named path does not exist. -/
def Service.discover : Scan π (Option σ) (Option (List π)) :=
  (Supervisor.discover srv.args).bind fun found => .done (found.map List.dedup)

/-- The configuration files the watcher lists. The C watcher lists them as a reload does, and has none
when that fails. -/
def Service.listed : Scan π (Option σ) (List π) :=
  match srv.build with
  | .rust => configFiles srv.args
  | .c => srv.discover.bind fun found => .done (found.getD [])

/-! ## Point libraries -/

/-- `library::locate`, `locate_library`: the first candidate that is a file. -/
def locate : List π → Scan π (Option σ) (Option π)
  | [] => .done none
  | p :: rest => .look p fun stamp => if stamp.isSome then .done (some p) else locate rest

/-- The paths that are watched for a reference: where it is found, or all it was looked for at. -/
def watched (candidates : List π) : Scan π (Option σ) (List π) :=
  (locate candidates).bind fun
    | some p => .done [p]
    | none => .done candidates

/-- `library::referenced_library_files`, `tdot_config_referenced_libraries`. -/
def Service.referencedLibraryFiles (p : π) : Scan π (Option σ) (List π) :=
  .look p fun
    | none => .done []
    | some stamp => Scan.each watched (srv.references p (srv.document p stamp))

/-- `Watcher::rebuild`, `tdot_watch_rebuild`. -/
def Service.rebuild : Scan π (Option σ) (List π) :=
  srv.listed.bind fun files =>
    (Scan.each srv.referencedLibraryFiles files).bind fun libraries => .done libraries.dedup

/-- The document of one referenced library. -/
def Service.readLibrary (candidates : List π) : Scan π (Option σ) (Option δ) :=
  (locate candidates).bind fun
    | none => .done none
    | some p => .look p fun
      | none => .done none
      | some stamp => .done (some (srv.document p stamp))

def Service.readLibraries : List (List π) → Scan π (Option σ) (Option (List δ))
  | [] => .done (some [])
  | candidates :: rest => (srv.readLibrary candidates).bind fun
    | none => .done none
    | some library => (readLibraries rest).bind fun more => .done (more.map (library :: ·))

/-- `library::load`, `tdot_config_load`. -/
def Service.load (p : π) : Scan π (Option σ) (Option (Loaded δ γ)) :=
  .look p fun
    | none => .done none
    | some stamp =>
      let root := srv.document p stamp
      (srv.readLibraries (srv.references p root)).bind fun
        | none => .done none
        | some libraries =>
          .done ((srv.resolve p root libraries).map fun config => ⟨root, libraries, config⟩)

/-- `tdot_config_fingerprint`: the documents as one JSON array, printed. -/
def Service.fingerprint (root : δ) (libraries : List δ) : String :=
  srv.print (.array ((root :: libraries).map fun text => (srv.toml text).toTree))

/-- What `reload_from_file` compares: the Rust build the resolved configurations, the C build the
documents they were loaded from. -/
def Service.alike (running new : Loaded δ γ) : Bool :=
  match srv.build with
  | .rust => new.config == running.config
  | .c => srv.fingerprint running.root running.libraries = srv.fingerprint new.root new.libraries

/-! ## Snapshots -/

def stampOf (p : π) : Scan π (Option σ) (Snapshot π σ) := .look p fun stamp => .done [(p, stamp)]

/-- `Watcher::snapshot`, `take_snapshot`. -/
def Service.snapshot (libraries : List π) : Scan π (Option σ) (Snapshot π σ) :=
  srv.listed.bind fun files => Scan.each stampOf (files ++ libraries).dedup

/-- The same paths with the same stamps. -/
def same (a b : Snapshot π σ) : Bool :=
  (Members.keys a ++ Members.keys b).all fun p => Members.get a p == Members.get b p

end Service

/-! ## The state -/

/-- A path: the stamp of the file there, if there is one, and how often it has changed, which only
the statements below look at. -/
structure Cell (σ : Type) where
  stamp : Option σ
  changes : Nat
deriving DecidableEq

/-- Looks at files, in order. Those of a scan that is not needed any more are kept for the statements
only. -/
abbrev Looks (π σ : Type) := List (π × Cell σ)

/-- Where the supervisor is. -/
inductive Phase (π σ : Type) where
  | discovering (scan : Scan π (Option σ) (Option (List π)))
  /-- The configurations are listed; connectors that are gone may still be stopping. -/
  | discovered (found : Option (List π))
  | rebuilding (scan : Scan π (Option σ) (List π))
  /-- In `Watcher::new`, `tdot_watch_new`. -/
  | baselining (scan : Scan π (Option σ) (Snapshot π σ))
  | waiting
  | polling (scan : Scan π (Option σ) (Snapshot π σ))

/-- Where a connector is, with the looks of its last reading. -/
inductive Stage (π σ δ γ : Type) where
  /-- Not running: waiting to be started again. -/
  | down
  | starting (scan : Scan π (Option σ) (Option (Loaded δ γ))) (looks : Looks π σ)
  /-- `refused` is the configuration that its last reading found and its module refused. -/
  | running (run : Loaded δ γ) (looks : Looks π σ) (refused : Option (Loaded δ γ))
  /-- In `reload_from_file`. -/
  | reloading (run : Loaded δ γ) (scan : Scan π (Option σ) (Option (Loaded δ γ)))
      (looks : Looks π σ)

structure Conn (π σ δ γ : Type) where
  stage : Stage π σ δ γ
  /-- A reload is asked for: the permit of `reload`, a generation that was not acted on. -/
  pending : Bool

structure State (π σ δ γ : Type) where
  files : π → Cell σ
  /-- The watcher has its first baseline. -/
  booted : Bool
  phase : Phase π σ
  /-- The looks of the supervisor's scan. -/
  looks : Looks π σ
  /-- SIGHUP was received and not acted on yet. -/
  requested : Bool
  libraries : List π
  baseline : Snapshot π σ
  /-- The snapshot that waits to settle. -/
  pending : Option (Snapshot π σ)
  conns : π → Option (Conn π σ δ γ)
  /-- The looks behind the connectors there are, the libraries and the baseline. -/
  listing : Looks π σ
  gathered : Looks π σ
  baseLooks : Looks π σ

/-- What others do, and which part of the service goes on. -/
inductive Action (π σ : Type) where
  /-- A file is written, moved into place or removed. -/
  | edit (path : π) (stamp : Option σ)
  | hangup
  /-- The supervisor looks at the next file of its scan. -/
  | peek
  /-- The supervisor goes on after its scan. -/
  | next
  | poll
  | reload
  /-- A connector that is down is started, by a reload (`woken`) or after its delay. -/
  | begin (path : π) (woken : Bool)
  /-- A connector acts on the reload that is asked for. -/
  | take (path : π)
  /-- A connector looks at the next file of its reading. -/
  | look (path : π)
  /-- A connector goes on after its reading; its module accepts the configuration or not. -/
  | finish (path : π) (accepted : Bool)
  /-- A connector fails, or stops to be started again. -/
  | fail (path : π)

/-- What can be seen of a step. -/
inductive Event (π : Type) where
  /-- A poll found the baseline. -/
  | settled
  /-- A poll found something else, which has to settle. -/
  | unsettled
  /-- A poll found a settled change. -/
  | noticed
  /-- A reload left a connector as it was. -/
  | untouched (path : π)
  | applied (path : π)
  /-- A reload found a configuration that cannot be used. -/
  | kept (path : π)
  | refused (path : π)
  | restarted (path : π)
deriving DecidableEq

/-! ## Steps -/

section Steps

variable {π σ δ γ : Type} [DecidableEq π] [DecidableEq σ] [BEq γ] (srv : Service π σ δ γ)

/-- The file that the supervisor looks at next. -/
def Phase.place? : Phase π σ → Option π
  | .discovering scan => scan.place?
  | .rebuilding scan => scan.place?
  | .baselining scan | .polling scan => scan.place?
  | .discovered _ | .waiting => none

def Phase.seen (there : Option σ) : Phase π σ → Phase π σ
  | .discovering scan => .discovering (scan.seen there)
  | .rebuilding scan => .rebuilding (scan.seen there)
  | .baselining scan => .baselining (scan.seen there)
  | .polling scan => .polling (scan.seen there)
  | .discovered found => .discovered found
  | .waiting => .waiting

/-- A connector that begins to read its file. A worker of the C build takes the reload generation
before (`start_gen`); in the Rust build only a start that the reload asked for takes the permit. -/
def Service.begin (p : π) (woken : Bool) (c : Conn π σ δ γ) : Conn π σ δ γ where
  stage := .starting (srv.load p) []
  pending := match srv.build with
    | .rust => c.pending && !woken
    | .c => false

def Service.start (p : π) : Conn π σ δ γ := ⟨.starting (srv.load p) [], false⟩

/-- What a reload does to the connector of a file that is still there: the Rust build notifies it, the
C build starts it if it is down. -/
def Service.renew (p : π) (c : Conn π σ δ γ) : Conn π σ δ γ :=
  match srv.build, c.stage with
  | .rust, _ => { c with pending := true }
  | .c, .down => srv.begin p false c
  | .c, _ => c

/-- `Connectors::reconcile`, `supervise_reload`. Where the listing failed, the connectors that run are
left alone. -/
def Service.reconcile (found : Option (List π)) (conns : π → Option (Conn π σ δ γ)) (p : π) :
    Option (Conn π σ δ γ) :=
  match found with
  | none => match srv.build with
    | .rust => conns p
    | .c => (conns p).map (srv.renew p)
  | some paths => if p ∈ paths then some ((conns p).elim (srv.start p) (srv.renew p)) else none

/-- In the C build the connectors watch the reload generation themselves. -/
def Service.advertise (conns : π → Option (Conn π σ δ γ)) (p : π) : Option (Conn π σ δ γ) :=
  match srv.build with
  | .rust => conns p
  | .c => (conns p).map fun c => { c with pending := true }

variable (s : State π σ δ γ)

/-- A reload begins: the configurations are listed again. -/
def State.discovering : State π σ δ γ :=
  { s with phase := .discovering srv.discover, looks := [] }

/-- `Watcher::poll`, `tdot_watch_poll`, once the snapshot is taken. -/
def State.compare (now : Snapshot π σ) : State π σ δ γ × Option (Event π) :=
  if same now s.baseline then ({ s with phase := .waiting, pending := none }, some .settled)
  else if s.pending.any (same now) then
    ({ s with
        baseline := now
        baseLooks := s.looks
        pending := none
        conns := srv.advertise s.conns
        phase := .discovering srv.discover
        looks := [] }, some .noticed)
  else ({ s with phase := .waiting, pending := some now }, some .unsettled)

/-- The supervisor goes on. A service that finds no configurations at its start, since a named path
does not exist, ends. -/
def State.next : State π σ δ γ × Option (Event π) :=
  match s.phase with
  | .discovering (.done found) => ({ s with phase := .discovered found }, none)
  | .discovered found =>
    if found.isSome || s.booted then
      ({ s with
          conns := srv.reconcile found s.conns
          listing := s.looks
          phase := .rebuilding srv.rebuild
          looks := [] }, none)
    else (s, none)
  | .rebuilding (.done libraries) =>
    let s := { s with libraries, gathered := s.looks, looks := [] }
    if s.booted then ({ s with phase := .waiting }, none)
    else ({ s with phase := .baselining (srv.snapshot libraries) }, none)
  | .baselining (.done baseline) =>
    ({ s with baseline, baseLooks := s.looks, booted := true, phase := .waiting }, none)
  | .polling (.done now) => s.compare srv now
  | _ => (s, none)

/-- The connector of a path becomes another. -/
def State.setConn (p : π) (c : Conn π σ δ γ) : State π σ δ γ :=
  { s with conns := Function.update s.conns p (some c) }

/-- What becomes of a connector whose reading has come to its end. -/
def Service.finish (p : π) (accepted : Bool) :
    Stage π σ δ γ → Option (Stage π σ δ γ × Option (Event π))
  | .starting (.done none) _ => some (.down, none)
  | .starting (.done (some new)) looks =>
    some (if accepted then .running new looks none else .down, none)
  | .reloading run (.done none) looks => some (.running run looks none, some (.kept p))
  | .reloading run (.done (some new)) looks =>
    if srv.needsRestart run.config new.config then some (.down, some (.restarted p))
    else if srv.alike run new then some (.running run looks none, some (.untouched p))
    else if accepted then some (.running new looks none, some (.applied p))
    else some (.running run looks (some new), some (.refused p))
  | _ => none

def Stage.look (files : π → Cell σ) : Stage π σ δ γ → Stage π σ δ γ
  | .starting (.look p next) looks => .starting (next (files p).stamp) (looks ++ [(p, files p)])
  | .reloading run (.look p next) looks =>
    .reloading run (next (files p).stamp) (looks ++ [(p, files p)])
  | stage => stage

def State.act (s : State π σ δ γ) : Action π σ → State π σ δ γ × Option (Event π)
  | .edit p stamp =>
    ({ s with files := Function.update s.files p ⟨stamp, (s.files p).changes + 1⟩ }, none)
  | .hangup => ({ s with requested := true, conns := srv.advertise s.conns }, none)
  | .peek =>
    match s.phase.place? with
    | some p =>
      ({ s with phase := s.phase.seen (s.files p).stamp, looks := s.looks ++ [(p, s.files p)] }, none)
    | none => (s, none)
  | .next => s.next srv
  | .poll =>
    match s.phase with
    | .waiting => ({ s with phase := .polling (srv.snapshot s.libraries), looks := [] }, none)
    | _ => (s, none)
  | .reload =>
    match s.phase, s.requested with
    | .waiting, true => ({ s.discovering srv with requested := false }, none)
    | _, _ => (s, none)
  | .begin p woken =>
    match s.conns p with
    | some c => match c.stage with
      | .down => if woken && !c.pending then (s, none) else (s.setConn p (srv.begin p woken c), none)
      | _ => (s, none)
    | none => (s, none)
  | .take p =>
    match s.conns p with
    | some ⟨.running run _ _, true⟩ => (s.setConn p ⟨.reloading run (srv.load p) [], false⟩, none)
    | _ => (s, none)
  | .look p =>
    match s.conns p with
    | some c => (s.setConn p { c with stage := c.stage.look s.files }, none)
    | none => (s, none)
  | .finish p accepted =>
    match s.conns p with
    | some c => match srv.finish p accepted c.stage with
      | some (stage, event) => (s.setConn p { c with stage }, event)
      | none => (s, none)
    | none => (s, none)
  | .fail p =>
    match s.conns p with
    | some c => (s.setConn p { c with stage := .down }, none)
    | none => (s, none)

def State.init (files : π → Cell σ) : State π σ δ γ where
  files := files
  booted := false
  phase := .discovering srv.discover
  looks := []
  requested := false
  libraries := []
  baseline := []
  pending := none
  conns := fun _ => none
  listing := []
  gathered := []
  baseLooks := []

end Steps

/-! ## What is asked of a run -/

def Arg.paths {π : Type} : Arg π → List π
  | .directory entries => entries
  | .file p => [p]

section Asked

variable {π σ δ γ : Type} [DecidableEq π] [DecidableEq σ] [BEq γ] (srv : Service π σ δ γ)

/-- The paths there may be configurations at. -/
def Service.paths : List π := srv.args.flatMap Arg.paths

def State.see (s : State π σ δ γ) (p : π) : Option σ := (s.files p).stamp

/-- A configuration as it is now makes this reference. -/
def Service.References (see : π → Option σ) (candidates : List π) : Prop :=
  ∃ q ∈ srv.paths, ∃ stamp, see q = some stamp ∧
    candidates ∈ srv.references q (srv.document q stamp)

def lastLook (looks : Looks π σ) (p : π) : Option (Cell σ) := Members.get looks.reverse p

/-- What the statements about runs assume of a step.

- No file changes before the watcher has its first baseline.
- A file where a referenced library may be found comes or goes only while there is none at any other
  place that library may be found at.
- A file that the command line names is there whenever the service looks at it.
- A path that a poll finds as it is in the baseline has not changed in between. -/
def State.Meets (s : State π σ δ γ) : Action π σ → Prop
  | .edit p stamp => s.booted = true ∧ (stamp.isSome ≠ (s.see p).isSome →
      ∀ candidates, srv.References s.see candidates → p ∈ candidates →
        ∀ q ∈ candidates, q ≠ p → s.see q = none)
  | .peek => ∀ p, s.phase.place? = some p → Arg.file p ∈ srv.args → (s.see p).isSome
  | .next => ∀ now, s.phase = .polling (.done now) → same now s.baseline →
      ∀ p c c', lastLook s.looks p = some c → lastLook s.baseLooks p = some c' →
        c.stamp = c'.stamp → c.changes = c'.changes
  | _ => True

/-- The configurations are the same, or the Rust build's comparison finds them equal. -/
def Loaded.Same (running new : Loaded δ γ) : Prop :=
  running.config = new.config ∨ (new.config == running.config) = true

instance [DecidableEq γ] (running new : Loaded δ γ) : Decidable (running.Same new) :=
  inferInstanceAs (Decidable (_ ∨ _))

/-- In the C build, documents of one fingerprint resolve alike (`config.h`). -/
def Service.Tells : Prop :=
  srv.build = .c → ∀ p root libraries root' libraries',
    srv.fingerprint root libraries = srv.fingerprint root' libraries' →
      srv.resolve p root libraries = srv.resolve p root' libraries'

/-- There is a connector for every configuration, and none for anything else. Every connector that
runs, with no reload to act on and none under way, runs what its file and libraries resolve to,
unless its module refused just that. -/
def State.UpToDate (s : State π σ δ γ) : Prop :=
  (∀ p, (s.conns p).isSome ↔ p ∈ (srv.discover.run s.see).getD []) ∧
  ∀ p run looks refused, s.conns p = some ⟨.running run looks refused, false⟩ →
    ∀ new, (srv.load p).run s.see = some new → run.Same new ∨ refused = some new

/-- The polls that were completed, in the log of a run. -/
def polls {α : Type} (log : List (α × Option (Event π))) : Nat :=
  log.countP fun e => e.2 = some .settled ∨ e.2 = some .unsettled ∨ e.2 = some .noticed

end Asked

end TedgeDot.Supervisor
