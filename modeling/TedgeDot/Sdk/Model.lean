/-!
# Shared model types

`model.rs`: read quality, output mode and decoded values.
-/

namespace TedgeDot

inductive Quality where
  | good
  | bad
  | stale
deriving DecidableEq

/-- Per-point output selection. -/
inductive Mode where
  | raw
  | typed
deriving DecidableEq

inductive Value where
  | bool (b : Bool)
  | number (n : Float)
  | text (s : String)
deriving DecidableEq

end TedgeDot
