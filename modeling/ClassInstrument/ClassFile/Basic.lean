import ClassInstrument.Annotation.Basic
import ClassInstrument.Code.Basic
import ClassInstrument.Pool.Builder

/-!
# Classes

The decoded form of a class file.  What rules edit is decoded: members, bodies and annotations.
Everything else is kept as bytes; the constant pool of the class is kept with it, so that the
indices inside those bytes stay good.

* `Attribute` — a name with uninterpreted bytes;
* `Field`, `Method` — the members;
* `ClassFile` — a whole class;
* `ClassFile.methodIndex?`, `ClassFile.modifyMethod` — access to one method;
* `ClassFile.header` — what the typing of a body needs to know.
-/

namespace ClassInstrument

/-- An attribute whose bytes are not interpreted. -/
structure Attribute where
  name : String
  body : Bytes
deriving Inhabited

/-- A field of a class. -/
structure Field where
  access : Access
  name : String
  desc : String
  attributes : List Attribute
deriving Inhabited

/-- A method of a class. -/
structure Method where
  access : Access
  name : String
  desc : String
  annotations : Annotations
  /-- None for a method without body, and where bodies were not decoded. -/
  code : Option Code
  /-- The attributes that are neither body nor annotations. -/
  attributes : List Attribute
deriving Inhabited

/-- A class. -/
structure ClassFile where
  minor : UInt16
  major : UInt16
  access : Access
  /-- Internal name. -/
  name : String
  /-- Only the class at the top of the hierarchy and modules have none. -/
  superName : Option String
  interfaces : List String
  fields : List Field
  methods : List Method
  annotations : Annotations
  /-- The attributes that are neither annotations nor bootstrap methods. -/
  attributes : List Attribute
  /-- The constants that the class was read with, which its attributes refer to. -/
  constants : ConstantTables
deriving Inhabited

namespace ClassFile

/-- The position of the first method with a name and descriptor. -/
def methodIndex? (c : ClassFile) (name desc : String) : Option Nat :=
  c.methods.findIdx? fun m => m.name == name && m.desc == desc

/-- Change the method at a position. -/
def modifyMethod (c : ClassFile) (index : Nat) (f : Method → Method) : ClassFile :=
  { c with methods := c.methods.modify index f }

/-- A method as the typing of its body sees it. -/
def header (c : ClassFile) (m : Method) : MethodHeader := ⟨c.name, m.access, m.name, m.desc⟩

end ClassFile

/-! ### What becomes of attributes -/

/-- What a decoder does with an attribute. -/
inductive AttributeRole where
  | code
  | annotations (visible : Bool)
  | bootstrapMethods
  /-- Leave it out. -/
  | omitted
  /-- Keep its bytes. -/
  | kept
deriving DecidableEq, Repr

/-- The attribute that holds a body. -/
def Code.attributeName : String := "Code"

/-- The attribute that holds the bootstrap methods of a class. -/
def BootstrapTable.attributeName : String := "BootstrapMethods"

end ClassInstrument
