import ClassInstrument.Instruction.Equality

/-!
# Annotations

Annotations of classes and methods, visible or invisible at run time.

* `ElementValue`, `Annotation` — a type descriptor with named values, which may nest;
* `Annotation.same` — equality, constants being compared as numbers;
* `Annotations` — the two lists of a class or method, with queries (`all`, `find?`, `has`) and
  edits (`add`, `remove`, `removeType`, `renameType`).
-/

namespace ClassInstrument

/-- The value of an annotation element. -/
inductive ElementValue where
  /-- A primitive or string constant under the letter of its type. -/
  | const (tag : UInt8) (value : Constant)
  /-- A constant of an enum type. -/
  | enum (desc name : String)
  /-- A class, as a return descriptor. -/
  | classRef (desc : String)
  /-- A nested annotation. -/
  | nested (desc : String) (values : List (String × ElementValue))
  | array (values : List ElementValue)
deriving Inhabited

/-- An annotation: its type and the values of its elements in the order of declaration. -/
structure Annotation where
  desc : String
  values : List (String × ElementValue)
deriving Inhabited

/-- An annotation without elements. -/
def Annotation.marker (desc : String) : Annotation := ⟨desc, []⟩

/-! ### Equality -/

mutual

/-- Whether two values are equal. -/
def ElementValue.same : ElementValue → ElementValue → Bool
  | .const tag value, .const tag' value' => tag == tag' && value.same value'
  | .enum desc name, .enum desc' name' => desc == desc' && name == name'
  | .classRef desc, .classRef desc' => desc == desc'
  | .nested desc values, .nested desc' values' =>
    desc == desc' && ElementValue.sameNamed values values'
  | .array values, .array values' => ElementValue.sameAll values values'
  | _, _ => false

/-- Whether two lists of values are equal, one by one. -/
def ElementValue.sameAll : List ElementValue → List ElementValue → Bool
  | [], [] => true
  | a :: as, b :: bs => a.same b && ElementValue.sameAll as bs
  | _, _ => false

/-- Whether two lists of named values are equal, one by one. -/
def ElementValue.sameNamed :
    List (String × ElementValue) → List (String × ElementValue) → Bool
  | [], [] => true
  | (name, a) :: as, (name', b) :: bs =>
    name == name' && a.same b && ElementValue.sameNamed as bs
  | _, _ => false

end

/-- Whether two annotations are equal. -/
def Annotation.same (a b : Annotation) : Bool :=
  a.desc == b.desc && ElementValue.sameNamed a.values b.values

/-! ### The annotations of a class or method -/

/-- The visible and the invisible annotations of a class or method. -/
structure Annotations where
  visible : List Annotation
  invisible : List Annotation
deriving Inhabited

namespace Annotations

/-- No annotations. -/
def empty : Annotations := ⟨[], []⟩

/-- All annotations, the visible ones first. -/
def toList (a : Annotations) : List Annotation := a.visible ++ a.invisible

def isEmpty (a : Annotations) : Bool := a.visible.isEmpty && a.invisible.isEmpty

/-- All annotations of a type, the visible ones first. -/
def all (a : Annotations) (desc : String) : List Annotation := a.toList.filter (·.desc == desc)

/-- The first annotation of a type. -/
def find? (a : Annotations) (desc : String) : Option Annotation :=
  a.toList.find? (·.desc == desc)

/-- Whether an annotation of a type is there. -/
def has (a : Annotations) (desc : String) : Bool := a.toList.any (·.desc == desc)

/-- Append annotations to one of the lists. -/
def add (a : Annotations) (visible : Bool) (annotations : List Annotation) : Annotations :=
  if visible then { a with visible := a.visible ++ annotations }
  else { a with invisible := a.invisible ++ annotations }

/-- Keep what passes a test, and tell whether anything was left out. -/
def keep (a : Annotations) (test : Annotation → Bool) : Bool × Annotations :=
  (!a.toList.all test, ⟨a.visible.filter test, a.invisible.filter test⟩)

/-- Remove every annotation equal to one of some, and tell whether there was any. -/
def remove (a : Annotations) (annotations : List Annotation) : Bool × Annotations :=
  a.keep fun x => !annotations.any x.same

/-- Remove every annotation of a type, and tell whether there was any. -/
def removeType (a : Annotations) (desc : String) : Bool × Annotations :=
  a.keep (·.desc != desc)

/-- Change the type of every annotation of one type, and tell whether there was any. -/
def renameType (a : Annotations) (source target : String) : Bool × Annotations :=
  let rename (x : Annotation) : Annotation := if x.desc == source then { x with desc := target } else x
  (a.has source, ⟨a.visible.map rename, a.invisible.map rename⟩)

end Annotations

end ClassInstrument
