import ClassInstrument.Descriptor
import ClassInstrument.Sequence

/-!
# Method bodies

A decoded method body and what surrounds it.

* `Code` — the instructions with their exception ranges and local variables;
* `ExceptionRange`, `LocalVariable` — entries of the two tables, in terms of labels;
* `MethodHeader` — what the typing of a body needs to know of its method;
* `MethodHeader.entryFrame` — the frame at the start of the body;
* `Instruction.targets` — the labels an instruction may jump to;
* `Instruction.mapLabels` — the same instruction with its labels changed.
-/

namespace ClassInstrument

/-- A range of instructions whose exceptions are handled. -/
structure ExceptionRange where
  start : Label
  /-- The first position behind the range. -/
  finish : Label
  handler : Label
  /-- The class that is caught; none stands for every exception. -/
  catchType : Option String
deriving DecidableEq, Inhabited, Repr

/-- A local variable of the source, for debuggers. -/
structure LocalVariable where
  name : String
  desc : String
  /-- The generic signature, if it says more than the descriptor. -/
  signature : Option String
  start : Label
  /-- The first position behind the scope. -/
  finish : Label
  index : UInt16
deriving DecidableEq, Inhabited, Repr

/-- A decoded method body. -/
structure Code where
  maxStack : UInt16
  maxLocals : UInt16
  instructions : Sequence
  handlers : List ExceptionRange
  localVariables : List LocalVariable
deriving Inhabited

/-! ### Access bits -/

/-- The access bits of a class or member; bits without a meaning are kept. -/
abbrev Access := UInt16

namespace Access

/-- Whether all bits of a mask are set. -/
def has (access : Access) (mask : UInt16) : Bool := access &&& mask == mask

/-- The member belongs to the class and not to its instances. -/
def isStatic (access : Access) : Bool := access.has 0x0008

/-- The body of the method is not part of the class file. -/
def isBodiless (access : Access) : Bool := access.has 0x0100 || access.has 0x0400

end Access

/-! ### The method around a body -/

/-- What the typing of a body needs to know of its method. -/
structure MethodHeader where
  /-- The class that declares the method. -/
  owner : String
  access : Access
  name : String
  desc : String
deriving Inhabited, Repr

/-- The class at the top of every hierarchy. -/
def objectClass : String := "java/lang/Object"

/-- The name of constructors. -/
def constructorName : String := "<init>"

namespace MethodHeader

/-- The receiver of the method, before a constructor has called another one. -/
def receiver (m : MethodHeader) : VerificationType :=
  if m.name == constructorName && m.owner != objectClass then .uninitializedThis
  else .object m.owner

/-- The frame at the start of the body: the receiver, if there is one, and the parameters. -/
def entryFrame (m : MethodHeader) : Except Failure Frame := do
  let type ← methodType m.desc
  let receiver := if m.access.isStatic then [] else [m.receiver]
  .ok ⟨receiver ++ type.params.map FieldType.verificationType, []⟩

end MethodHeader

/-! ### Labels of instructions -/

/-- The labels that an operand refers to, in its order. -/
def Operand.targets : Operand → List Label
  | .jump target => [target]
  | .tableSwitch default _ _ targets => default :: targets
  | .lookupSwitch default pairs => default :: pairs.map (·.2)
  | _ => []

/-- The labels that an instruction may jump to, in the order of its operand. -/
def Instruction.targets : Instruction → List Label
  | .op _ operand => operand.targets
  | _ => []

/-- The type with its label changed. -/
def VerificationType.mapLabels (f : Label → Label) : VerificationType → VerificationType
  | .uninitialized site => .uninitialized (f site)
  | type => type

/-- The frame with its labels changed. -/
def Frame.mapLabels (f : Label → Label) (frame : Frame) : Frame :=
  ⟨frame.locals.map (·.mapLabels f), frame.stack.map (·.mapLabels f)⟩

/-- The operand with its labels changed. -/
def Operand.mapLabels (f : Label → Label) : Operand → Operand
  | .jump target => .jump (f target)
  | .tableSwitch default low high targets => .tableSwitch (f default) low high (targets.map f)
  | .lookupSwitch default pairs =>
    .lookupSwitch (f default) (pairs.map fun (key, target) => (key, f target))
  | operand => operand

/-- The instruction with its labels changed. -/
def Instruction.mapLabels (f : Label → Label) : Instruction → Instruction
  | .label l => .label (f l)
  | .line number start => .line number (f start)
  | .frame types => .frame (types.mapLabels f)
  | .op opcode operand => .op opcode (operand.mapLabels f)

/-- The range with its labels changed. -/
def ExceptionRange.mapLabels (f : Label → Label) (r : ExceptionRange) : ExceptionRange :=
  { r with start := f r.start, finish := f r.finish, handler := f r.handler }

/-- The variable with its labels changed. -/
def LocalVariable.mapLabels (f : Label → Label) (v : LocalVariable) : LocalVariable :=
  { v with start := f v.start, finish := f v.finish }

end ClassInstrument
