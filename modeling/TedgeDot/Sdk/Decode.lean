import TedgeDot.Lib.Binary64
import TedgeDot.Sdk.Model

/-!
# Decoded integers

`decode.rs`: how a 64-bit integer becomes a value. Within the range that a double holds exactly it
is a number, beyond it is carried as text.
-/

namespace TedgeDot

/-- The datatypes of typed points. -/
inductive DataType where
  | bool
  | int8
  | uint8
  | int16
  | uint16
  | int32
  | uint32
  | int64
  | uint64
  | float32
  | float64
  | string
  | bytes
deriving DecidableEq

def SAFE_INT_MAX : Int := 9007199254740991

def SAFE_INT_MIN : Int := -9007199254740991

def intValue (v : Int) : Value :=
  if SAFE_INT_MIN ≤ v ∧ v ≤ SAFE_INT_MAX then .number (Binary64.ofInt v) else .text (toString v)

theorem intValue_cases (v : Int) :
    (intValue v = .number (Binary64.ofInt v) ∧ SAFE_INT_MIN ≤ v ∧ v ≤ SAFE_INT_MAX) ∨
      intValue v = .text (toString v) := by
  unfold intValue
  split
  · rename_i h
    exact .inl ⟨rfl, h⟩
  · exact .inr rfl

end TedgeDot
