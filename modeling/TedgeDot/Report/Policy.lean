import TedgeDot.Sdk.Duration
import TedgeDot.Sdk.Json
import TedgeDot.Sdk.Model

/-!
# The reporting policy

`report.rs`, first half: what a point's `report` table says (`ReportPolicy.fromTable`), how the
inherited table becomes the effective policy (`effective`), and when an observation counts as a
change (`ReportPolicy.changed`). Numbers are IEEE doubles and compare as the source compares
them; no proof below looks inside the comparison.
-/

namespace TedgeDot.Report

/-! ## Policies -/

/-- Differences up to this are not a change for `on_change` without a deadband. -/
def EPSILON : Float := 1e-9

inductive Deadband where
  /-- An absolute amount, in the point's transformed units. -/
  | absolute (d : Float)
  /-- A percentage of the last published value's magnitude. -/
  | percent (p : Float)
deriving DecidableEq

/-- A point's effective reporting policy. The default publishes every reading. -/
structure ReportPolicy where
  onChange : Bool := false
  deadband : Option Deadband := none
  minInterval : Option Nat := none
  maxInterval : Option Nat := none
  debounce : Option Nat := none
deriving DecidableEq

/-- What a reading is compared by: numbers numerically, everything else exactly. -/
inductive Obs where
  | number (n : Float)
  | other (s : String)
deriving DecidableEq

/-- `"<p>%"` as `p`. -/
def parsePercent (s : String) : Option Float :=
  match s.toList.reverse with
  | '%' :: reversed =>
    let number := reversed.reverse
    let wellFormed :=
      !number.isEmpty
        && number.all (fun b => b.isDigit || b == '.')
        && decide (number.count '.' ≤ 1)
        && number.head? != some '.'
        && number.getLast? != some '.'
    if wellFormed then some (parseF64 number) else none
  | _ => none

namespace ReportPolicy

/-- Build the policy from a (merged) `report` table. A zero duration or deadband switches the
setting off. -/
def fromTable (table : JsonMap) : ReportPolicy :=
  let duration := fun key : String =>
    (((table.get key).bind Json.asStr).bind parseDuration).filter (fun d => d != 0)
  let deadband :=
    match table.get "deadband" with
    | some (.number n) => (some n.asF64).filter (fun d => 0.0 < d) |>.map Deadband.absolute
    | some (.string s) => (parsePercent s).filter (fun p => 0.0 < p) |>.map Deadband.percent
    | _ => none
  { onChange := ((table.get "on_change").bind Json.asBool).getD false
    deadband := deadband
    minInterval := duration "min_interval"
    maxInterval := duration "max_interval"
    debounce := duration "debounce" }

/-- Whether the policy publishes every reading, so the runtime can skip it. -/
def isPassthrough (p : ReportPolicy) : Bool :=
  !p.onChange && p.deadband.isNone && p.minInterval.isNone && p.maxInterval.isNone
    && p.debounce.isNone

/-- Whether readings are compared with the last published one. -/
def filtersChanges (p : ReportPolicy) : Bool :=
  p.onChange || p.deadband.isSome || p.debounce.isSome

/-- Whether `obs` is a change from `base` under this policy. -/
def changed (policy : ReportPolicy) (obs base : Obs) : Bool :=
  match obs, base with
  | .number a, .number b =>
    if a.isNaN || b.isNaN then a.isNaN != b.isNaN
    else
      let delta := (a - b).abs
      match policy.deadband with
      | some (.absolute d) => d ≤ delta
      | some (.percent p) => if b == 0.0 then 0.0 < delta else p / 100.0 * b.abs ≤ delta
      | none => EPSILON < delta
  | .other a, .other b => a != b
  | _, _ => true

theorem filtersChanges_of_debounce {p : ReportPolicy} {d : Nat}
    (h : p.debounce = some d) : p.filtersChanges = true := by
  simp [filtersChanges, h]

end ReportPolicy

/-! ## The effective policy -/

/-- The warning of an inherited heartbeat at or under the rate limit: the durations its text
names, "the inherited report.max_interval (`max`) is not longer than report.min_interval
(`min`); using `raised`". -/
structure RaisedHeartbeat where
  max : Nat
  min : Nat
  raised : Nat
deriving DecidableEq

/-- The effective policy of a point whose merged table is `table`, and the warning to log when
inheritance put a heartbeat at or under the rate limit. The heartbeat is then raised to twice
the rate limit. -/
def effective (table : JsonMap) : ReportPolicy × Option RaisedHeartbeat :=
  let policy := ReportPolicy.fromTable table
  match policy.minInterval, policy.maxInterval with
  | some min, some max =>
    if max ≤ min then
      let raised := min * 2
      ({ policy with maxInterval := some raised }, some { max, min, raised })
    else (policy, none)
  | _, _ => (policy, none)

/-- Merge `table` into `base` key by key. -/
def mergeInto (base : JsonMap) (table : Option Json) : JsonMap :=
  match table with
  | some (.object table) => base.insertAll table
  | _ => base

theorem fromTable_minInterval_pos {table : JsonMap} {m : Nat}
    (h : (ReportPolicy.fromTable table).minInterval = some m) : 0 < m := by
  have hm : (m != 0) = true := (Option.filter_eq_some_iff.mp h).2
  exact Nat.pos_of_ne_zero (by simpa using hm)

theorem effective_minInterval (table : JsonMap) :
    (effective table).1.minInterval = (ReportPolicy.fromTable table).minInterval := by
  simp only [effective]
  split
  · split <;> rfl
  · rfl

theorem effective_minInterval_pos {table : JsonMap} {m : Nat}
    (h : (effective table).1.minInterval = some m) : 0 < m :=
  fromTable_minInterval_pos ((effective_minInterval table).symm.trans h)

theorem effective_minInterval_lt_maxInterval {table : JsonMap} {min max : Nat}
    (hmin : (effective table).1.minInterval = some min)
    (hmax : (effective table).1.maxInterval = some max) : min < max := by
  simp only [effective] at hmin hmax
  split at hmin
  next m x hm hx =>
    have hpos := fromTable_minInterval_pos hm
    split at hmin
    next hle =>
      -- the raised heartbeat
      simp only [hm, hx, hle, if_true, Option.some.injEq] at hmin hmax
      omega
    next hle =>
      simp only [hm, hx, hle, if_false, Option.some.injEq] at hmin hmax
      omega
  next hnone =>
    split at hmax
    next m x hm hx => exact absurd hx (hnone m x hm)
    next => exact absurd hmax (hnone min max hmin)

end TedgeDot.Report
