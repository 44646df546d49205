import ClassInstrument.Opcode

/-!
# Instructions

The elements of a method body: executable instructions with their operands, and the marks that
anchor positions, source lines and stack map frames between them.

* `Label` — a position, referred to by branches and tables;
* `Constant`, `DynamicCall`, `Handle`, `MemberRef` — what instructions refer to;
* `Operand` — the payload of an executable instruction.  Opcode and operand are independent here;
  that they fit is checked where a body is encoded or analysed;
* `VerificationType`, `Frame` — the typing of locals and operand stack at a position;
* `Instruction` — one element of a body.

Instructions are kept in their general form: the load of a low local is the plain load with that
index, `goto_w` is `goto`, `ldc_w` is `ldc`.
-/

namespace ClassInstrument

/-- A position within one method body.  It becomes a place once an instruction marks it. -/
structure Label where
  index : Nat
deriving DecidableEq, Inhabited, Repr, Hashable

/-- The written form, `L` and the number. -/
def Label.toText (label : Label) : String := "L" ++ toString label.index

/-- A symbolic reference to a field or method. -/
structure MemberRef where
  /-- Internal name of the class that declares it. -/
  owner : String
  name : String
  /-- Field or method descriptor. -/
  desc : String
deriving DecidableEq, Inhabited, Repr

/-- Owner, point, name and descriptor. -/
def MemberRef.toText (member : MemberRef) : String :=
  member.owner ++ "." ++ member.name ++ member.desc

/-- A method handle: a reference kind and the member it refers to. -/
structure Handle where
  kind : UInt8
  owner : String
  name : String
  desc : String
  /-- Whether the owner is an interface. -/
  onInterface : Bool
deriving DecidableEq, Inhabited, Repr

/-- The member a handle refers to. -/
def Handle.member (handle : Handle) : MemberRef := ⟨handle.owner, handle.name, handle.desc⟩

/-! ### Constants -/

/-- A loadable constant.  Floating-point numbers keep their bits. -/
inductive Constant where
  | int (value : Int32)
  | float (bits : UInt32)
  | long (value : Int64)
  | double (bits : UInt64)
  | string (text : String)
  /-- An internal name or array descriptor. -/
  | classRef (name : String)
  | methodType (desc : String)
  | handle (handle : Handle)
  /-- A value computed by a bootstrap method when it is first used. -/
  | dynamic (name desc : String) (bootstrap : Handle) (args : List Constant)
deriving Inhabited

/-- The call of a bootstrap method, by `invokedynamic` or behind a dynamic constant. -/
structure DynamicCall where
  /-- Name passed to the bootstrap method. -/
  name : String
  /-- Method descriptor of a call site, field descriptor of a constant. -/
  desc : String
  bootstrap : Handle
  /-- Static arguments of the bootstrap method. -/
  args : List Constant
deriving Inhabited

/-- The constant that a call computes. -/
def DynamicCall.toConstant (call : DynamicCall) : Constant :=
  .dynamic call.name call.desc call.bootstrap call.args

/-- Whether a constant takes two stack slots: `long`, `double`, or computed as one of them. -/
def Constant.isWide : Constant → Bool
  | .long _ | .double _ => true
  | .dynamic _ desc _ _ => desc == "J" || desc == "D"
  | _ => false

/-! ### Verification types and frames -/

/-- The type of a local or of an entry of the operand stack. -/
inductive VerificationType where
  | top
  | integer
  | float
  | long
  | double
  | null
  /-- The receiver of a constructor before the superclass constructor ran. -/
  | uninitializedThis
  /-- An instance of the named class or array descriptor. -/
  | object (name : String)
  /-- What the `new` behind the label created, before its constructor ran. -/
  | uninitialized (site : Label)
deriving DecidableEq, Inhabited, Repr

/-- Whether a type is held in two slots, though it is one entry of a frame. -/
def VerificationType.isWide : VerificationType → Bool
  | .long | .double => true
  | _ => false

/-- The types of the locals and of the operand stack, bottom first. -/
structure Frame where
  locals : List VerificationType
  stack : List VerificationType
deriving DecidableEq, Inhabited, Repr

/-! ### Instructions -/

/-- The payload of an executable instruction. -/
inductive Operand where
  | none
  /-- An immediate number, or the element type code of `newarray`. -/
  | int (value : Int32)
  /-- A local variable. -/
  | var (index : UInt16)
  /-- A local variable and what `iinc` adds to it. -/
  | increment (index : UInt16) (amount : Int16)
  /-- An internal name or array descriptor. -/
  | type (name : String)
  | field (member : MemberRef)
  | method (member : MemberRef) (onInterface : Bool)
  | invokeDynamic (call : DynamicCall)
  | jump (target : Label)
  | load (constant : Constant)
  /-- One target for every key from `low` to `high`, and one for all other keys. -/
  | tableSwitch (default : Label) (low high : Int32) (targets : List Label)
  /-- Keys with their targets, and a target for all other keys. -/
  | lookupSwitch (default : Label) (pairs : List (Int32 × Label))
  /-- An array descriptor and how many of its dimensions are allocated. -/
  | multiArray (desc : String) (dims : UInt8)
deriving Inhabited

/-- One element of a method body. -/
inductive Instruction where
  /-- Marks a position. -/
  | label (label : Label)
  /-- A source line that starts at a position. -/
  | line (number : UInt16) (start : Label)
  /-- A stack map frame. -/
  | frame (frame : Frame)
  /-- An executable instruction. -/
  | op (opcode : Opcode) (operand : Operand)
deriving Inhabited

namespace Instruction

/-! ### Building instructions -/

/-- An instruction without operand. -/
def simple (opcode : Opcode) : Instruction := .op opcode .none

/-- `ldc` of a constant. -/
def ldc (constant : Constant) : Instruction := .op Opcode.ldc (.load constant)

/-- A call of a method of a class or interface. -/
def call (opcode : Opcode) (owner name desc : String) (onInterface : Bool) : Instruction :=
  .op opcode (.method ⟨owner, name, desc⟩ onInterface)

/-! ### Looking at instructions -/

/-- The opcode of an executable instruction. -/
def opcode? : Instruction → Option Opcode
  | .op opcode _ => some opcode
  | _ => none

/-- Whether this is a mark and not executable. -/
def isPseudo : Instruction → Bool
  | .op .. => false
  | _ => true

/-- The label that is placed here. -/
def label? : Instruction → Option Label
  | .label l => some l
  | _ => none

/-- The field or method that is accessed. -/
def member? : Instruction → Option MemberRef
  | .op _ (.field member) | .op _ (.method member _) => some member
  | _ => none

/-- The reference kind of a handle that makes the same access. -/
def handleKind? (insn : Instruction) : Option UInt8 := insn.opcode?.bind Opcode.handleKind?

end Instruction

end ClassInstrument
