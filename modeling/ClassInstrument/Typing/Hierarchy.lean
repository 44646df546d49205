import ClassInstrument.Code.Basic

/-!
# Class hierarchies

What the typing of bodies asks about classes: the closest class that two classes have in common.

* `Hierarchy` — the answers, and how often a type can move up;
* `Hierarchy.flat` — nothing is known, so two classes have only the top in common;
* `Hierarchy.ofParents` — the superclasses of some classes are known.
-/

namespace ClassInstrument

/-- A class hierarchy. -/
structure Hierarchy where
  /-- The closest class that two classes have in common. -/
  common : String → String → String
  /-- No class moves up more often than this when it is merged with others, one by one. -/
  height : Nat

namespace Hierarchy

/-- A hierarchy in which nothing is known. -/
def flat : Hierarchy := ⟨fun _ _ => objectClass, 1⟩

instance : Inhabited Hierarchy := ⟨flat⟩

/-- A class and the classes above it, as far as they are known, at most `steps` of them. -/
def chain (parents : List (String × String)) : Nat → String → List String
  | 0, name => [name]
  | steps + 1, name =>
    match parents.lookup name with
    | some parent => name :: chain parents steps parent
    | none => [name]

/-- A hierarchy in which the superclasses of some classes are known. -/
def ofParents (parents : List (String × String)) : Hierarchy where
  common a b :=
    let above := chain parents parents.length b
    ((chain parents parents.length a).find? above.contains).getD objectClass
  height := parents.length + 2

end Hierarchy

end ClassInstrument
