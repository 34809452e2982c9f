import TedgeDot.Library.Guards
import TedgeDot.Runtime.Management
import TedgeDot.Sdk.Config

/-!
# Changing the running configuration

The two entry points of `runtime.rs` that replace the running configuration: a management command
(`handle_management`) and a reload of the file (`reload_from_file`), with the refusals on the way.
The protocol module is a parameter, as the runtime has it behind the `Connector` trait, and so is
the resolver, whose verdict also depends on the point libraries on disk.
-/

namespace TedgeDot.Management

/-- The protocol module as the runtime calls it, and the comparisons of `reload_from_file`, which
read parts of the configuration that are not modelled. -/
structure Host (M : Type) where
  /-- `Connector::configure`. -/
  configure : M → ConnectorConfig → M × Except String Unit
  /-- `capabilities().protocol`. -/
  protocol : String
  /-- Whether `call-method` is among the command verbs. -/
  callsMethods : Bool
  localOnlySettings : List String
  needsRestart : ConnectorConfig → ConnectorConfig → Bool
  same : ConnectorConfig → ConnectorConfig → Bool

/-- What happens around one change: the resolver's verdict, and whether each publish and the
writing of the file succeed. -/
structure Surroundings where
  resolve : Toml → Except String ConnectorConfig
  executing : Bool := true
  failed : Bool := true
  persisted : Bool := true
  capability : Bool := true
  links : Bool := true
  successful : Bool := true

/-- The running configuration, the document a command patches, the file as it reads and parses,
and the protocol module. -/
structure State (M : Type) where
  config : ConnectorConfig
  doc : Document
  file : Except String Document
  connector : M

/-- The status of a command, as it is published. -/
inductive Status where
  | executing
  | failed (reason : String)
  | successful
deriving DecidableEq

variable {M : Type}

/-- The first point of a configuration that only `call-method` could use. -/
def methodPoint (config : ConnectorConfig) : Option (String × String) :=
  config.devices.findSome? fun device =>
    (device.points.find? fun p => Access.parse p.access == .callMethod).map fun p =>
      (device.name, p.id)

/-- `configure` of `runtime.rs`. -/
def configure (h : Host M) (m : M) (config : ConnectorConfig) : M × Except String Unit :=
  match (if h.callsMethods then none else methodPoint config) with
  | some (device, point) =>
    (m, .error s!"device '{device}': point '{point}': the {h.protocol} connector cannot call methods")
  | none => h.configure m config

/-- The candidate a command leads to, or why it is refused: the command on the document, the two
guards, and the resolver, in this order. -/
def candidate (h : Host M) (around : Surroundings) (doc : Document) (verb : String) (json : Json) :
    Except String (Document × ConnectorConfig) :=
  match applyManagement verb json doc with
  | .error e => .error e
  | .ok doc' =>
    match Library.rejectPathReferences doc.toToml doc'.toToml with
    | .error e => .error e
    | .ok () =>
      match Library.rejectLocalOnlySettings doc.toToml doc'.toToml h.localOnlySettings with
      | .error e => .error e
      | .ok () =>
        match around.resolve doc'.toToml with
        | .error e => .error s!"resulting config is invalid: {e}"
        | .ok config => .ok (doc', config)

/-- What a command leaves: the state, the statuses handed to the broker, and what the main loop
gets back (an error, or whether the configuration changed). -/
structure Handled (M : Type) where
  state : State M
  statuses : List Status
  result : Except Unit Bool

/-- `publish_failed`, after `executing`. -/
def refused (around : Surroundings) (s : State M) (reason : String) : Handled M :=
  { state := s, statuses := [.executing, .failed reason],
    result := if around.failed then .ok false else .error () }

def handleManagement (h : Host M) (around : Surroundings) (s : State M) (verb : String)
    (json : Json) : Handled M :=
  if !around.executing then { state := s, statuses := [.executing], result := .error () }
  else
    match candidate h around s.doc verb json with
    | .error e => refused around s e
    | .ok (doc, config) =>
      match configure h s.connector config with
      | (m, .error e) =>
        -- restore the previous good state
        refused around { s with connector := (h.configure m s.config).1 } s!"configure failed: {e}"
      | (m, .ok ()) =>
        let s : State M :=
          { config, doc, connector := m, file := if around.persisted then .ok doc else s.file }
        -- `commit_config`: the configuration is replaced before anything is published
        if !(around.capability && around.links) then
          { state := s, statuses := [.executing], result := .error () }
        else
          { state := s, statuses := [.executing, .successful],
            result := if around.successful then .ok true else .error () }

inductive Reloaded where
  | unchanged
  | kept
  | applied
  | restart
deriving DecidableEq

/-- `reload_from_file`. A publish that fails on the way is only warned about. -/
def reloadFromFile (h : Host M) (around : Surroundings) (s : State M) : State M × Reloaded :=
  match s.file with
  | .error _ => (s, .kept)
  | .ok doc =>
    match around.resolve doc.toToml with
    | .error _ => (s, .kept)
    | .ok config =>
      if h.needsRestart s.config config then (s, .restart)
      else if h.same config s.config then ({ s with doc }, .unchanged)
      else
        match configure h s.connector config with
        | (m, .error _) => ({ s with connector := (h.configure m s.config).1 }, .kept)
        | (m, .ok ()) => ({ s with config, doc, connector := m }, .applied)

end TedgeDot.Management
