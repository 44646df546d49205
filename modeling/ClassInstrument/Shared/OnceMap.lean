/-!
# Maps that are written once

A map from names to values in which the first value of a name stays.

* `OnceMap` — the entries;
* `OnceMap.get?` — the value of a name;
* `OnceMap.compute` — the value of a name, made if there is none.
-/

namespace ClassInstrument

/-- Values by name; no name is listed twice. -/
structure OnceMap (α : Type) where
  entries : List (String × α)
deriving Inhabited

namespace OnceMap

variable {α : Type}

/-- No entries. -/
def empty : OnceMap α := ⟨[]⟩

/-- The value of a name. -/
def get? (m : OnceMap α) (name : String) : Option α := m.entries.lookup name

/-- Whether a name has a value. -/
def contains (m : OnceMap α) (name : String) : Bool := (m.get? name).isSome

/-- The value that a name has afterwards, whether it was made now, and the map.  It is only made if
there was none. -/
def compute (m : OnceMap α) (name : String) (make : String → α) : (α × Bool) × OnceMap α :=
  match m.get? name with
  | some value => ((value, false), m)
  | none => ((make name, true), ⟨(name, make name) :: m.entries⟩)

/-- The value that a name has after one was offered, and the map. -/
def put (m : OnceMap α) (name : String) (value : α) : α × OnceMap α :=
  let (result, m) := m.compute name fun _ => value
  (result.1, m)

/-- The number of entries. -/
def size (m : OnceMap α) : Nat := m.entries.length

end OnceMap

end ClassInstrument
