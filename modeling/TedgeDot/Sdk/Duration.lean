import Mathlib.Algebra.Order.Ring.Int

/-!
# Durations

`parse_duration` of `config.rs`, which reads every duration of a configuration. A
`std::time::Duration` is a natural number of nanoseconds throughout.
-/

namespace TedgeDot

namespace Duration

/-- `Duration::from_millis`, in nanoseconds. -/
def fromMillis (ms : Nat) : Nat := ms * 1000000

/-- `Duration::from_secs`, in nanoseconds. -/
def fromSecs (s : Nat) : Nat := s * 1000000000

/-- `Duration::try_from_secs_f64`: the exact value of the double rounded to whole nanoseconds,
ties to even. A negative or NaN input, or one of `2^64` seconds or more, is refused. -/
def tryFromSecsF64 (secs : Float) : Option Nat :=
  if secs < 0.0 then none
  else
    let bits := secs.toBits.toNat
    let mant := bits % 2 ^ 52 + 2 ^ 52
    let exp : Int := ((bits / 2 ^ 52 % 2 ^ 11 : Nat) : Int) - 1023
    if exp < -31 then some 0  -- less than half a nanosecond
    else if exp < 64 then
      -- the value is `mant * 2 ^ (exp - 52)`; `exp + 31` is not negative here
      let nanos := mant * 10 ^ 9 * 2 ^ (exp + 31).toNat
      let whole := nanos / 2 ^ 83
      let rest := nanos % 2 ^ 83
      some (if 2 ^ 82 < rest ∨ (rest = 2 ^ 82 ∧ whole % 2 = 1) then whole + 1 else whole)
    else none

end Duration

/-- `is_c_whitespace` of `library.rs`: what C's `isspace()` recognises. -/
def isCWhitespace (c : Char) : Bool :=
  c == ' ' || c == '\t' || c == '\n' || c == '\x0b' || c == '\x0c' || c == '\r'

/-- `trim_c` of `library.rs`, on the characters of the text. -/
def trimC (s : List Char) : List Char :=
  ((s.dropWhile isCWhitespace).reverse.dropWhile isCWhitespace).reverse

def digits (part : List Char) : Bool := !part.isEmpty && part.all Char.isDigit

def digitsValue (part : List Char) : Nat :=
  part.foldl (fun acc c => 10 * acc + (c.toNat - '0'.toNat)) 0

/-- `number.split_once('.')`. -/
def splitOnce (number : List Char) : Option (List Char × List Char) :=
  match number.dropWhile (· != '.') with
  | [] => none
  | _ :: fraction => some (number.takeWhile (· != '.'), fraction)

/-- `number.parse::<f64>()` of a well-formed decimal: the nearest double. -/
def parseF64 (number : List Char) : Float :=
  match splitOnce number with
  | some (whole, fraction) =>
    Float.ofScientific (digitsValue (whole ++ fraction)) true fraction.length
  | none => Float.ofScientific (digitsValue number) true 0

/-- `parse_duration` of `config.rs`. -/
def parseDuration (s : String) : Option Nat :=
  let s := trimC s.toList
  let isNumber := fun c : Char => c.isDigit || c == '.'
  let number := s.takeWhile isNumber
  let unit := String.ofList (trimC (s.dropWhile isNumber))
  let wellFormed :=
    match splitOnce number with
    | some (whole, fraction) => digits whole && digits fraction
    | none => digits number
  if !wellFormed then none
  else if unit == "ms" then
    -- `number.parse::<u64>()`: no fraction, and it fits
    if number.contains '.' || 2 ^ 64 ≤ digitsValue number then none
    else some (Duration.fromMillis (digitsValue number))
  else
    let scale : Option Float :=
      if unit == "" || unit == "s" then some 1.0
      else if unit == "m" then some 60.0
      else if unit == "h" then some 3600.0
      else none
    scale.bind (fun scale => Duration.tryFromSecsF64 (parseF64 number * scale))

example : parseDuration " 1.5 m" = some (Duration.fromSecs 90) := by decide

end TedgeDot
