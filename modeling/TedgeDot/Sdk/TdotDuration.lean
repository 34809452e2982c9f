import TedgeDot.Lib.Binary64
import TedgeDot.Sdk.Duration

/-!
# Durations in the C SDK

`tdot_duration_parse` of `config.c`, which scans a C string from the left and gives seconds as a
double. The C library's `isspace` and `isdigit` are those of the C locale.
-/

namespace TedgeDot

open Binary64

namespace TdotDuration

/-- The C string of a text: it ends at the first zero. -/
def cString (text : String) : List Char := text.toList.takeWhile (· != '\x00')

/-- `strtod`, of a decimal number that no exponent follows. -/
def strtod (s : List Char) : Float :=
  match s.dropWhile Char.isDigit with
  | '.' :: rest => parseF64 (s.takeWhile Char.isDigit ++ '.' :: rest.takeWhile Char.isDigit)
  | _ => parseF64 (s.takeWhile Char.isDigit)

/-- `strtoull`, of digits. Nothing when it sets `ERANGE`. -/
def strtoull (s : List Char) : Option Nat :=
  let n := digitsValue (s.takeWhile Char.isDigit)
  if n < 2 ^ 64 then some n else none

/-- `-1.0`. -/
def refused : Float := ofInt (-1)

/-- `scale`, of a unit other than `ms`. -/
def scale (unit : List Char) : Option Float :=
  if unit = [] ∨ unit = ['s'] then some 1.0
  else if unit = ['m'] then some 60.0
  else if unit = ['h'] then some 3600.0
  else none

/-- The value of a scanned number, with the text after it. -/
def valueOf (number : List Char) (fraction : Bool) (rest : List Char) : Float :=
  let unit := trimC rest
  if unit = ['m', 's'] then
    if fraction then refused
    else
      match strtoull number with
      | some ms => ofInt ms / ofInt 1000
      | none => refused
  else
    match scale unit with
    | some scale =>
      let secs := strtod number * scale
      if secs < ofInt 18446744073709551616 then secs else refused
    | none => refused

/-- The scan from the first character that is no white space. -/
def scan (number : List Char) : Float :=
  let s := number.dropWhile Char.isDigit
  if (number.takeWhile Char.isDigit).isEmpty then refused
  else
    match s with
    | '.' :: digits =>
      if (digits.takeWhile Char.isDigit).isEmpty then refused
      else valueOf number true (digits.dropWhile Char.isDigit)
    | s => valueOf number false s

end TdotDuration

def tdotDurationParse (text : String) : Float :=
  TdotDuration.scan ((TdotDuration.cString text).dropWhile isCWhitespace)

end TedgeDot
