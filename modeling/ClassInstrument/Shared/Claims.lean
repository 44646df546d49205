import Std.Data.HashSet

/-!
# Claims

Names that can be claimed once and stay claimed for ever.

* `Claims` — the names claimed so far;
* `Claims.claim` — claim a name, and tell whether it was free.
-/

namespace ClassInstrument

/-- The names claimed so far. -/
structure Claims where
  names : Std.HashSet String
deriving Inhabited

namespace Claims

/-- Nothing claimed yet. -/
def empty : Claims := ⟨∅⟩

/-- Whether a name is claimed. -/
def contains (claims : Claims) (name : String) : Bool := claims.names.contains name

/-- Claim a name, and tell whether it was free. -/
def claim (claims : Claims) (name : String) : Bool × Claims :=
  (!claims.names.contains name, ⟨claims.names.insert name⟩)

/-- How many names are claimed. -/
def size (claims : Claims) : Nat := claims.names.size

end Claims

end ClassInstrument
