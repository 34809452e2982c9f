import TedgeDot.Report.Policy
import TedgeDot.Sdk.Config

/-!
# Measurement settings

`measure.rs`, first part: what the `output`, `measurement` and `batch` settings of a configuration
ask for (`Output.of`, `GroupBy.fromTable`, `aggregatesOf`), how a point is named
(`Naming.resolve`), and the check of the resolved configuration (`checkResolved`).
-/

namespace TedgeDot.Measure

open TedgeDot.Report

/-! ## Output and grouping -/

/-- A batch is split before its estimated Cumulocity size passes this many bytes. -/
def SIZE_BUDGET : Nat := 15000

/-- What the c8y mapper adds per series when it converts a measurement. -/
def SERIES_OVERHEAD : Nat := 12

/-- The bytes of a message around the group name and the series. -/
def FRAME_BYTES : Nat := 9 + 24 + 2 + 2 + 2

/-- A frame holds at most this many layers. -/
def MAX_LAYERS : Nat := 64

/-- What the runtime publishes for readings. -/
inductive Output where
  | samples
  | measurements
deriving DecidableEq

/-- The output a loaded configuration asks for. -/
def Output.of (config : ConnectorConfig) : Output :=
  match config.output with
  | some "measurements" => .measurements
  | _ => .samples

/-- When a point's readings are published, and with which time. -/
inductive GroupBy where
  | time
  | frame (window : Nat)
  | sample (every : Nat)
deriving DecidableEq, Inhabited

/-- The policy of a merged `batch` table. -/
def GroupBy.fromTable (table : JsonMap) : Except String GroupBy :=
  let groupBy := ((table.get "group_by").bind Json.asStr).getD "time"
  let duration := fun key : String => ((table.get key).bind Json.asStr).bind parseDuration
  if groupBy == "frame" then
    match duration "window" with
    | some d => .ok (.frame d)
    | none => .error "batch.window is required with group_by = \"frame\""
  else if groupBy == "sample" then
    match duration "every" with
    | some d => .ok (.sample d)
    | none => .error "batch.every is required with group_by = \"sample\""
  else .ok .time

/-- What a `"sample"` point publishes for each period. -/
inductive Aggregate where
  | mean
  | min
  | max
  | last
deriving DecidableEq

def Aggregate.of : String → Option Aggregate
  | "mean" => some .mean
  | "min" => some .min
  | "max" => some .max
  | "last" => some .last
  | _ => none

def Aggregate.name : Aggregate → String
  | .mean => "mean"
  | .min => "min"
  | .max => "max"
  | .last => "last"

/-- The aggregates of a merged `batch` table and whether they are suffixed to the series name. -/
def aggregatesOf (table : JsonMap) : Option (List Aggregate × Bool) :=
  match table.get "aggregate" with
  | some (.string a) => (Aggregate.of a).map fun a => ([a], false)
  | some (.array list) =>
    (list.mapM fun v : Json => v.asStr.bind Aggregate.of).map fun aggs => (aggs, true)
  | _ => none

/-- Merge one level's `batch` table over `base`. -/
def mergeBatchLevel (base : JsonMap) (level : Option Json) : JsonMap :=
  match level with
  | some (.object level) =>
    let base := base.insertAll level
    if JsonMap.containsKey level "aggregate" && !JsonMap.containsKey level "group_by" then
      base.insert "group_by" (.string "sample")
    else base
  | _ => base

def batchTable (config : ConnectorConfig) (device : DeviceConfig) (point : PointConfig) : JsonMap :=
  mergeBatchLevel (mergeBatchLevel (mergeBatchLevel [] config.batch) device.batch) point.batch

def reportTable (config : ConnectorConfig) (device : DeviceConfig) (point : PointConfig) :
    JsonMap :=
  mergeInto (mergeInto (mergeInto [] config.report) device.report) point.report

/-! ## Naming -/

/-- The flow-wide naming settings of `[connector] measurement`. -/
structure Naming where
  group : String
  series : String
  separator : String
  includeBoolean : Bool

def Naming.of (config : ConnectorConfig) : Naming :=
  let text := fun key : String =>
    ((config.measurement.bind fun t => t.get key).bind Json.asStr).getD ""
  { group := text "group"
    series := text "series"
    separator := text "point_separator"
    includeBoolean :=
      ((config.measurement.bind fun t => t.get "include_boolean").bind Json.asBool).getD true }

/-- `id.find(sep)`: what is before and after the first occurrence of a separator. -/
def splitAt (sep : List Char) : List Char → Option (List Char × List Char)
  | [] => if sep.isEmpty then some ([], []) else none
  | c :: cs =>
    if sep.isPrefixOf (c :: cs) then some ([], (c :: cs).drop sep.length)
    else (splitAt sep cs).map fun (before, after) => (c :: before, after)

/-- The point's `meta.measurement.<key>`, when it is a string that is not empty. -/
def named (point : PointConfig) (key : String) : Option String :=
  ((((point.metadata.bind fun m => m.get "measurement").bind fun m => m.get key).bind
    Json.asStr).filter fun s => !s.isEmpty)

/-- A point's group and series: the point's `meta.measurement.group`/`.series`, then the
connector's `group`/`series`, then a split of the point id at `point_separator`, then the protocol
and the point id. -/
def Naming.resolve (naming : Naming) (protocol : String) (point : PointConfig) :
    String × String :=
  let group := (named point "group").getD naming.group
  let series := (named point "series").getD naming.series
  let split :=
    if !naming.separator.isEmpty && (group.isEmpty || series.isEmpty) then
      (splitAt naming.separator.toList point.id.toList).filter fun (before, after) =>
        !before.isEmpty && !after.isEmpty
    else none
  let group := match split with
    | some (before, _) => if group.isEmpty then String.ofList before else group
    | none => group
  let series := match split with
    | some (_, after) => if series.isEmpty then String.ofList after else series
    | none => series
  (if group.isEmpty then protocol else group, if series.isEmpty then point.id else series)

/-! ## Points -/

/-- Whether a flow reads this point's samples, so measurement mode still publishes them. -/
def publishesSample (point : PointConfig) : Bool :=
  match point.sample with
  | some explicit => explicit
  | none =>
    let flagged := fun key : String =>
      (point.metadata.bind fun m => m.get key).any fun v => !v.isNull && !v.isFalse
    flagged "alarm" || flagged "event" || flagged "parameter"
      || (Access.parse point.access).canWrite

/-- Whether readings of this point can become series. -/
def measurable (point : PointConfig) (device : DeviceConfig) : Bool :=
  let optedOut := (point.metadata.bind fun m => m.get "measurement").any Json.isFalse
  !optedOut && point.resolvedMode device.defaultMode == .typed

/-- Whether the point raises an event for every reading (`meta.event.every`). -/
def everyEvent (point : PointConfig) : Bool :=
  (((point.metadata.bind fun m => m.get "event").bind fun e => e.get "every").bind
    Json.asBool).getD false

def GroupBy.isSample : GroupBy → Bool
  | .sample _ => true
  | _ => false

/-- The grouping policy a point ends up with: the merged table's, or `time` for an event point
under `"sample"`. -/
def groupByOf (config : ConnectorConfig) (device : DeviceConfig) (point : PointConfig) : GroupBy :=
  let groupBy :=
    match GroupBy.fromTable (batchTable config device point) with
    | .ok g => g
    | .error _ => .time
  if groupBy.isSample && everyEvent point then .time else groupBy

/-- The series names of a point, each with its aggregate: one name, or under `"sample"` with
`aggregate` one for each. -/
def seriesNames (config : ConnectorConfig) (device : DeviceConfig) (point : PointConfig) :
    List (Option Aggregate × String) :=
  let series := ((Naming.of config).resolve config.protocol point).2
  match aggregatesOf (batchTable config device point) with
  | some (aggs, suffixed) =>
    if (groupByOf config device point).isSample then
      aggs.map fun a => (some a, if suffixed then series ++ "_" ++ a.name else series)
    else [(none, series)]
  | none => [(none, series)]

/-! ## The check of the resolved configuration -/

/-- The names the points of a device have taken so far, each with its group: the point's id, and
whether it is an aggregated one. -/
abbrev TakenNames := List ((String × String) × (String × Bool))

def TakenNames.get (names : TakenNames) (key : String × String) : Option (String × Bool) :=
  (names.find? fun n => n.1 == key).map Prod.snd

/-- The loop over one point's series names. -/
def takeNames (deviceName pointId group : String) (mine : Bool) :
    List String → TakenNames → Except String TakenNames
  | [], names => .ok names
  | name :: rest, names =>
    match names.get (group, name) with
    | some (other, theirs) =>
      if mine || theirs then
        .error s!"device '{deviceName}': points '{other}' and '{pointId}' both publish the series '{name}' in the group '{group}'"
      else takeNames deviceName pointId group mine rest names
    | none =>
      takeNames deviceName pointId group mine rest (((group, name), (pointId, mine)) :: names)

/-- The aggregates `check_resolved` counts: those of a `"sample"` point that is no event point. -/
def aggregatedOf (config : ConnectorConfig) (device : DeviceConfig) (point : PointConfig) :
    Option (List Aggregate × Bool) :=
  match GroupBy.fromTable (batchTable config device point) with
  | .ok (.sample _) =>
    if everyEvent point then none else aggregatesOf (batchTable config device point)
  | _ => none

/-- The body of the loop over a device's points. -/
def checkPoint (config : ConnectorConfig) (device : DeviceConfig) (point : PointConfig)
    (names : TakenNames) : Except String TakenNames :=
  let aggregated := aggregatedOf config device point
  if aggregated.isSome &&
      !(ReportPolicy.fromTable (reportTable config device point)).isPassthrough then
    .error s!"device '{device.name}': point '{point.id}': batch.aggregate cannot be combined with report: an aggregate uses every reading"
  else if Output.of config ≠ .measurements || !measurable point device then .ok names
  else
    let (group, series) := (Naming.of config).resolve config.protocol point
    let series := match aggregated with
      | some (aggs, true) => aggs.map fun a => series ++ "_" ++ a.name
      | _ => [series]
    takeNames device.name point.id group aggregated.isSome series names

def checkPoints (config : ConnectorConfig) (device : DeviceConfig) :
    List PointConfig → TakenNames → Except String TakenNames
  | [], names => .ok names
  | point :: points, names =>
    match checkPoint config device point names with
    | .error e => .error e
    | .ok names => checkPoints config device points names

def checkResolved (config : ConnectorConfig) : Except String Unit :=
  config.devices.forM fun device => (checkPoints config device device.points []).map fun _ => ()

/-- `check_resolved_batches` of `library.rs`: every point's grouping policy has the duration it
needs, then `check_resolved`. -/
def checkResolvedBatches (config : ConnectorConfig) : Except String Unit := do
  config.devices.forM fun device => device.points.forM fun point =>
    match GroupBy.fromTable (batchTable config device point) with
    | .ok _ => .ok ()
    | .error e => .error s!"device '{device.name}': point '{point.id}': {e}"
  checkResolved config

end TedgeDot.Measure
