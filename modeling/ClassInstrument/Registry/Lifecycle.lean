/-!
# The life of a registry

A registry is unopened, then open, then frozen, and never goes back.

* `Lifecycle` — the three stages;
* `Lifecycle.next?` — the stage after one, if there is one.
-/

namespace ClassInstrument

/-- The stages of a registry. -/
inductive Lifecycle where
  | unopened
  | opened
  | frozen
deriving DecidableEq, Inhabited, Repr

namespace Lifecycle

/-- How a stage is called in messages. -/
def toText : Lifecycle → String
  | .unopened => "Unopened"
  | .opened => "Open"
  | .frozen => "Frozen"

/-- The stage that follows. -/
def next? : Lifecycle → Option Lifecycle
  | .unopened => some .opened
  | .opened => some .frozen
  | .frozen => none

end Lifecycle

end ClassInstrument
