import TedgeDot.Sdk.Codec
import TedgeDot.Sdk.Duration
import TedgeDot.Sdk.Json

/-!
# The connector configuration

The fields of `config.rs` that the reporting, measurement and runtime models read, and how the
`[connector]`, device and point levels are looked up on each other.
-/

namespace TedgeDot

/-- Access permitted on a point. -/
inductive Access where
  | read
  | write
  | readWrite
  | callMethod
deriving DecidableEq

namespace Access

def parse (s : Option String) : Access :=
  match s.map (fun s => s.map Char.toLower) with
  | some "write" => .write
  | some "read_write" => .readWrite
  | some "readwrite" => .readWrite
  | some "call_method" => .callMethod
  | _ => .read

def canRead : Access → Bool
  | .read => true
  | .readWrite => true
  | _ => false

def canWrite : Access → Bool
  | .write => true
  | .readWrite => true
  | _ => false

end Access

namespace EngineeringUnits

structure Transform where
  multiplier : Float := 1.0
  divisor : Float := 1.0
  decimalShift : Int := 0
  offset : Float := 0.0

end EngineeringUnits

/-- Little, where it is named in any case; big otherwise. -/
def Endianness.parse (s : Option String) : Endianness :=
  if s.map (fun s => s.map Char.toLower) = some "little" then .little else .big

def WordOrder.parse (s : Option String) : WordOrder :=
  if s.map (fun s => s.map Char.toLower) = some "little" then .little else .big

structure PointConfig where
  id : String
  mode : Option Mode := none
  datatype : Option DataType := none
  endianness : Option String := none
  wordOrder : Option String := none
  pollInterval : Option String := none
  samplingInterval : Option String := none
  transform : Option EngineeringUnits.Transform := none
  map : Option Json := none
  access : Option String := none
  unit : Option String := none
  metadata : Option Json := none
  subscribe : Option Bool := none
  report : Option Json := none
  batch : Option Json := none
  sample : Option Bool := none

/-- Resolve the effective output mode, given the device default. -/
def PointConfig.resolvedMode (point : PointConfig) (deviceDefault : Option Mode) : Mode :=
  (point.mode.or deviceDefault).getD .typed

structure DeviceConfig where
  name : String
  deviceType : Option String := none
  pollInterval : Option String := none
  samplingInterval : Option String := none
  maxInflight : Option Int := none
  defaultMode : Option Mode := none
  points : List PointConfig := []
  report : Option Json := none
  batch : Option Json := none

/-- `ConnectorConfig`, with the fields of its `[connector]` section in line. -/
structure ConnectorConfig where
  protocol : String
  pollInterval : String := "2s"
  samplingInterval : Option String := none
  operationTimeout : String := "30s"
  maxInflight : Option Int := none
  maxInflightTotal : Option Int := none
  report : Option Json := none
  output : Option String := none
  measurement : Option Json := none
  batch : Option Json := none
  devices : List DeviceConfig := []

namespace ConnectorConfig

/-- The first interval that parses: the point's, its device's, `[connector]`'s. -/
def pollIntervalOf (config : ConnectorConfig) (device : DeviceConfig) (point : PointConfig) : Nat :=
  (((point.pollInterval.bind parseDuration).or (device.pollInterval.bind parseDuration)).or
    (parseDuration config.pollInterval)).getD (Duration.fromSecs 2)

/-- The sampling interval of a pushed point: a `sampling_interval` of any level, else its poll
interval. -/
def samplingIntervalOf (config : ConnectorConfig) (device : DeviceConfig) (point : PointConfig) :
    Nat :=
  ([point.samplingInterval, device.samplingInterval, config.samplingInterval].findSome? fun s =>
    s.bind parseDuration).getD (config.pollIntervalOf device point)

end ConnectorConfig

end TedgeDot
