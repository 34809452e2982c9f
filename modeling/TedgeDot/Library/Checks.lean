import Mathlib.Data.List.MinMax
import Mathlib.Data.List.Sort
import TedgeDot.Library.Guards
import TedgeDot.Map.ValueMap
import TedgeDot.Measure.Inherited

/-!
# Checks of a document as it is written

What `library.rs` refuses before anything is resolved: a key that a contract table does not have
(`check_keys`), with the key that may have been meant, and a value that a contract field does not
take (`check_point_fields` and its siblings for `[connector]` and a device).
-/

namespace TedgeDot

namespace Toml

def asInteger : Toml → Option Int64
  | .integer n => some n
  | _ => none

def isStr (v : Toml) : Bool := v.asStr.isSome

def isTable (v : Toml) : Bool := v.asTable.isSome

def isBool : Toml → Bool
  | .boolean _ => true
  | _ => false

def isNumber : Toml → Bool
  | .integer _ => true
  | .float _ => true
  | _ => false

/-- An integer that `i32::try_from` takes. -/
def fitsI32 (v : Toml) : Bool := v.asInteger.any fun n => -2147483648 ≤ n && n ≤ 2147483647

end Toml

namespace Library

/-! ## Known keys -/

def TOP_KEYS : List String := ["connector", "mqtt", "connection", "device"]

def CONNECTOR_KEYS : List String :=
  ["protocol", "service_name", "poll_interval", "sampling_interval", "log_level",
    "operation_timeout", "stall_timeout", "point_library_path", "report", "output", "measurement",
    "batch", "max_inflight", "max_inflight_total"]

def MQTT_KEYS : List String := ["host", "port"]

def DEVICE_KEYS : List String :=
  ["name", "type", "protocol_address", "poll_interval", "sampling_interval", "default_mode",
    "points_from", "point", "enabled", "report", "batch", "max_inflight"]

def POINT_KEYS : List String :=
  ["id", "mode", "datatype", "endianness", "word_order", "poll_interval", "sampling_interval",
    "address", "access", "unit", "name", "description", "transform", "meta", "subscribe", "enabled",
    "report", "map", "batch", "sample"]

def TRANSFORM_KEYS : List String := ["multiplier", "divisor", "decimal_shift", "offset"]

def LIBRARY_TOP_KEYS : List String := ["library", "point"]

def LIBRARY_KEYS : List String := ["protocol", "type", "description", "version", "namespaces"]

/-- `REPORT_KEYS` of `report.rs`. -/
def REPORT_KEYS : List String :=
  ["on_change", "deadband", "min_interval", "max_interval", "debounce"]

/-- `BATCH_KEYS` of `measure.rs`. -/
def BATCH_KEYS : List String := ["group_by", "window", "every", "aggregate"]

/-- `MEASUREMENT_KEYS` of `measure.rs`. -/
def MEASUREMENT_KEYS : List String := ["group", "series", "point_separator", "include_boolean"]

/-- `OUTPUTS` of `measure.rs`. -/
def OUTPUTS : List String := ["samples", "measurements"]

/-- `MAP_KEYS` of `map.rs`. -/
def MAP_KEYS : List String := ["cases", "default", "as"]

/-- `CASE_KEYS` of `map.rs`. -/
def CASE_KEYS : List String := ["eq", "min", "max", "to", "write"]

def bytes (s : String) : List UInt8 := s.toList.flatMap String.utf8EncodeChar

/-- The row of the distance table for a byte of the first text, after the row `prev`. Its first
entry is `cur`. -/
def distanceRow (ca : UInt8) : List UInt8 → List Nat → Nat → List Nat
  | cb :: b, p :: q :: prev, cur =>
    let substitute := p + if ca == cb then 0 else 1
    cur :: distanceRow ca b (q :: prev) (min (min substitute (q + 1)) (cur + 1))
  | _, _, cur => [cur]

/-- The rows after `prev`, down to the last: `i` bytes of the first text are done. -/
def distanceRows (b : List UInt8) : List UInt8 → List Nat → Nat → List Nat
  | [], prev, _ => prev
  | ca :: a, prev, i => distanceRows b a (distanceRow ca b prev (i + 1)) (i + 1)

/-- `edit_distance`: Levenshtein distance over bytes. -/
def editDistance (a b : String) : Nat :=
  (distanceRows (bytes b) (bytes a) (List.range ((bytes b).length + 1)) 0).getLastD 0

/-- `suggestion`: the nearest known key, when it is near enough to be what was meant. -/
def suggestion (key : String) (known : List String) : String :=
  let limit := max ((bytes key).length / 3) 2
  match List.argmin (editDistance key) known with
  | some candidate =>
    if editDistance key candidate ≤ limit then s!" (did you mean '{candidate}'?)" else ""
  | none => ""

example : suggestion "polling_interval" DEVICE_KEYS = " (did you mean 'poll_interval'?)" := by
  decide +kernel

/-- The keys of a table that are not `known`, in byte order. -/
def unknownKeys (table : TomlTable) (known : List String) : List String :=
  ((table.map Prod.fst).filter fun key => !known.contains key).insertionSort (· ≤ ·)

/-- `check_keys`. A value that is not a table is left to the typed parse. -/
def checkKeys (table : Toml) (known : List String) (place : String) : Except String Unit :=
  match table.asTable with
  | none => .ok ()
  | some table =>
    match unknownKeys table known with
    | [] => .ok ()
    | [key] =>
      let hint := suggestion key known
      .error s!"unknown key '{key}' in {place}{hint}"
    | keys =>
      let listed := String.intercalate ", " (keys.map fun key => s!"'{key}'" ++ suggestion key known)
      .error s!"unknown keys in {place}: {listed}"

/-- `check_keys` of the table under a key, if there is one. -/
def checkKeysUnder (table : Toml) (key : String) (known : List String) (place : String) :
    Except String Unit :=
  match table.get key with
  | none => .ok ()
  | some inner => checkKeys inner known place

/-- The elements of the array under a key. -/
def elements (table : Toml) (key : String) : List Toml :=
  ((table.get key).bind Toml.asArray).getD []

def pointLabel (point : Toml) : String := (pointId point).getD "<unnamed>"

/-- The keys of one case of the `map` of a point. -/
def checkCaseKeys (id : String) (case : Toml × Nat) : Except String Unit :=
  let i := case.2
  checkKeys case.1 CASE_KEYS s!"map.cases[{i}] of point '{id}'"

/-- The keys of the `map` of a point, and of its cases. -/
def checkMapKeys (point : Toml) (id : String) : Except String Unit :=
  match point.get "map" with
  | none => .ok ()
  | some map => do
    checkKeys map MAP_KEYS s!"the map of point '{id}'"
    (elements map "cases").zipIdx.forM (checkCaseKeys id)

/-- `check_point_keys`: the keys of one point definition, and of its transform. -/
def checkPointKeys (point : Toml) : Except String Unit := do
  let id := pointLabel point
  checkKeys point POINT_KEYS s!"point '{id}'"
  checkKeysUnder point "transform" TRANSFORM_KEYS s!"the transform of point '{id}'"
  checkKeysUnder point "report" REPORT_KEYS s!"the report of point '{id}'"
  checkKeysUnder point "batch" BATCH_KEYS s!"the batch of point '{id}'"
  checkMapKeys point id

/-- The keys of `[connector]`. -/
def checkConnectorKeys (connector : Toml) : Except String Unit := do
  checkKeys connector CONNECTOR_KEYS "[connector]"
  checkKeysUnder connector "report" REPORT_KEYS "the report of [connector]"
  checkKeysUnder connector "batch" BATCH_KEYS "the batch of [connector]"
  checkKeysUnder connector "measurement" MEASUREMENT_KEYS "the measurement of [connector]"

/-- The keys of a device and of its points. -/
def checkDeviceKeys (device : Toml) : Except String Unit := do
  let name := deviceLabel device
  checkKeys device DEVICE_KEYS s!"device '{name}'"
  checkKeysUnder device "report" REPORT_KEYS s!"the report of device '{name}'"
  checkKeysUnder device "batch" BATCH_KEYS s!"the batch of device '{name}'"
  (elements device "point").forM checkPointKeys

/-- `check_document`: the keys of a connector configuration, table by table. -/
def checkDocument (doc : Toml) : Except String Unit := do
  checkKeys doc TOP_KEYS "the top level"
  match doc.get "connector" with
  | none => pure ()
  | some connector => checkConnectorKeys connector
  checkKeysUnder doc "mqtt" MQTT_KEYS "[mqtt]"
  (devices doc).forM checkDeviceKeys

/-! ### What the key checks let through -/

theorem unknownKeys_eq_nil_iff (table : TomlTable) (known : List String) :
    unknownKeys table known = [] ↔ ∀ key ∈ table.map Prod.fst, key ∈ known := by
  unfold unknownKeys
  rw [← List.length_eq_zero_iff, List.length_insertionSort, List.length_eq_zero_iff,
    List.filter_eq_nil_iff]
  simp

theorem checkKeys_ok_iff (table : TomlTable) (known : List String) (place : String) :
    checkKeys (.table table) known place = .ok () ↔ ∀ key ∈ table.map Prod.fst, key ∈ known := by
  rw [← unknownKeys_eq_nil_iff]
  unfold checkKeys
  simp only [Toml.asTable]
  split <;> simp_all

theorem get_of_checkKeys {table : Toml} {known : List String} {place key : String}
    (h : checkKeys table known place = .ok ()) (hkey : key ∉ known) : table.get key = none := by
  cases table with
  | table entries =>
    rw [checkKeys_ok_iff] at h
    cases hget : Toml.get (.table entries) key with
    | none => rfl
    | some v =>
      have hmem : key ∈ entries.map Prod.fst :=
        List.mem_map_of_mem (f := Prod.fst) (TomlTable.mem_of_get hget)
      exact absurd (h key hmem) hkey
  | _ => rfl

theorem no_addressOrigin {point : Toml} (h : checkPointKeys point = .ok ()) :
    point.get ADDRESS_ORIGIN = none := by
  obtain ⟨u, hkeys, -⟩ := bind_ok h
  exact get_of_checkKeys hkeys (by decide)

/-! ## Field values -/

def MODES : List String := ["raw", "typed"]

def DATATYPES : List String :=
  ["bool", "int8", "uint8", "int16", "uint16", "int32", "uint32", "int64", "uint64", "float32",
    "float64", "string", "bytes"]

def ORDERS : List String := ["big", "little"]

def ACCESSES : List String := ["read", "write", "read_write", "call_method"]

def DURATION : String := "a duration such as \"500ms\", \"2s\" or \"5m\""

/-- `got`: the suffix that names a refused string. -/
def got (value : Toml) : String :=
  match value.asStr with
  | some s => s!" (got '{s}')"
  | none => ""

/-- `check_type`: what stands under a key, if anything, satisfies `ok`. -/
def checkType (table : Toml) (key : String) (ok : Toml → Bool) (expected : String) :
    Except String Unit :=
  match table.get key with
  | some value => if ok value then .ok () else .error s!"{key} must be {expected}"
  | none => .ok ()

def checkOneOf (table : Toml) (key : String) (allowed : List String) : Except String Unit :=
  match table.get key with
  | none => .ok ()
  | some value =>
    if value.asStr.any allowed.contains then .ok ()
    else
      let listed := String.intercalate ", " (allowed.map fun a => s!"\"{a}\"")
      let suffix := got value
      .error s!"{key} must be one of {listed}{suffix}"

def checkDuration (table : Toml) (key : String) : Except String Unit :=
  match table.get key with
  | some value =>
    if (value.asStr.bind parseDuration).isNone then
      let suffix := got value
      .error s!"{key} must be {DURATION}{suffix}"
    else .ok ()
  | none => .ok ()

/-- `check_positive` of `concurrency.rs`. -/
def checkPositive (table : Toml) (key : String) : Except String Unit :=
  checkType table key (fun v => v.asInteger.any fun n => 0 < n) "a positive integer"

def deadbandOk : Toml → Bool
  | .integer i => 0 ≤ i
  | .float f => f.isFinite && f ≥ 0.0
  | .string s => (Report.parsePercent s).isSome
  | _ => false

/-- A duration of a `report` table. -/
def reportDuration (map : TomlTable) (key : String) : Except String (Option Nat) :=
  match map.get key with
  | none => .ok none
  | some v =>
    match v.asStr.bind parseDuration with
    | some d => .ok (some d)
    | none => .error
        s!"report.{key} must be a duration such as \"500ms\", \"2s\" or \"5m\" (\"0\" switches it off)"

/-- `max <= min` of two intervals that are both on. -/
def intervalsCrossed : Option Nat → Option Nat → Bool
  | some min, some max => min != 0 && max != 0 && max ≤ min
  | _, _ => false

/-- `check_values` of `report.rs`: one `report` table as written. -/
def checkReportValues (table : Toml) : Except String Unit :=
  match table.asTable with
  | none => .error "report must be a table"
  | some map => do
    (checkType table "on_change" Toml.isBool "true or false").mapError fun e => s!"report.{e}"
    (checkType table "deadband" deadbandOk "a number >= 0 or a percentage such as \"2%\"").mapError
      fun e => s!"report.{e}"
    let min ← reportDuration map "min_interval"
    let max ← reportDuration map "max_interval"
    let _ ← reportDuration map "debounce"
    if intervalsCrossed min max then
      .error "report.max_interval must be longer than report.min_interval"

/-- `check_report`: the `report` table of a connector, device or point. -/
def checkReport (table : Toml) : Except String Unit :=
  match table.get "report" with
  | none => .ok ()
  | some report => checkReportValues report

/-- `check_measurement` of `measure.rs`. -/
def checkMeasurement (table : Toml) : Except String Unit :=
  match table.asTable with
  | none => .error "measurement must be a table"
  | some _ => do
    ["group", "series", "point_separator"].forM fun key =>
      (checkType table key Toml.isStr "a string").mapError fun e => s!"measurement.{e}"
    (checkType table "include_boolean" Toml.isBool "true or false").mapError
      fun e => s!"measurement.{e}"

/-- `check_map`: the `map` table of a point definition. -/
def checkMap (point : Toml) : Except String Unit :=
  match point.get "map" with
  | none => .ok ()
  | some map => (Map.ValueMap.parse map.toJson).map fun _ => ()

/-- The number fields of a `transform`. -/
def checkTransform (transform : Toml) : Except String Unit := do
  ["multiplier", "divisor", "offset"].forM fun key =>
    (checkType transform key Toml.isNumber "a number").mapError fun e => s!"transform.{e}"
  (checkType transform "decimal_shift" Toml.fitsI32
    "an integer between -2147483648 and 2147483647").mapError fun e => s!"transform.{e}"

def checkPointValues (point : Toml) : Except String Unit := do
  checkOneOf point "mode" MODES
  checkOneOf point "datatype" DATATYPES
  checkOneOf point "endianness" ORDERS
  checkOneOf point "word_order" ORDERS
  checkDuration point "poll_interval"
  checkDuration point "sampling_interval"
  checkType point "address" Toml.isTable "a table"
  checkOneOf point "access" ACCESSES
  ["unit", "name", "description"].forM fun key => checkType point key Toml.isStr "a string"
  checkType point "transform" Toml.isTable "a table"
  match point.get "transform" with
  | none => pure ()
  | some transform => checkTransform transform
  checkType point "meta" Toml.isTable "a table"
  checkType point "subscribe" Toml.isBool "true or false"
  checkType point "enabled" Toml.isBool "true or false"
  checkType point "sample" Toml.isBool "true or false"
  checkReport point
  Measure.checkBatch point
  checkMap point

/-- `check_point_fields`: the values of one point definition's contract fields. -/
def checkPointFields (point : Toml) : Except String Unit :=
  (checkPointValues point).mapError fun e =>
    let id := pointLabel point
    s!"point '{id}': {e}"

/-- The values of `[connector]` that `resolve` checks before the devices. -/
def checkConnector (connector : Toml) : Except String Unit :=
  Except.mapError (fun e => s!"[connector] {e}") do
    checkDuration connector "poll_interval"
    checkDuration connector "sampling_interval"
    checkReport connector
    checkOneOf connector "output" OUTPUTS
    match connector.get "measurement" with
    | none => pure ()
    | some measurement => checkMeasurement measurement
    Measure.checkBatch connector
    checkPositive connector "max_inflight"
    checkPositive connector "max_inflight_total"

/-- The values of a device that is switched on. -/
def checkDevice (device : Toml) (name : String) : Except String Unit :=
  Except.mapError (fun e => s!"device '{name}': {e}") do
    checkOneOf device "default_mode" MODES
    checkDuration device "poll_interval"
    checkDuration device "sampling_interval"
    checkReport device
    Measure.checkBatch device
    checkPositive device "max_inflight"

end Library

end TedgeDot
