import ClassInstrument.Code.StackEffect
import ClassInstrument.Code.Steps
import ClassInstrument.Typing.State

/-!
# Typing of single instructions

What an instruction does to the types of locals and operand stack.

* `Action` — the kinds of instructions;
* `Opcode.action?` — the kind of an instruction, none for a byte that stands only in class files;
* `TypingContext` — the class and the body around an instruction;
* `TypingContext.execute` — the state behind an instruction, given the state before it.
-/

namespace ClassInstrument

/-- What an instruction does to types. -/
inductive Action where
  /-- Take slots from the operand stack and put a value of a known type there. -/
  | replace (count : Nat) (result : Option Slot)
  /-- Put a constant on the operand stack. -/
  | constant
  /-- Put a local on the operand stack as a value of a known type. -/
  | load (type : Slot)
  /-- Put a reference in a local on the operand stack. -/
  | loadReference
  /-- Put an element of an array of references on the operand stack. -/
  | loadElement
  /-- Put a value of one or two slots into a local. -/
  | store (wide : Bool)
  /-- Copy the topmost slots of the operand stack. -/
  | shuffle (count : Nat) (copies : List Nat)
  /-- Add to a local. -/
  | increment
  /-- Enter or leave a subroutine. -/
  | subroutine
  | field
  | call
  | callSite
  /-- Create an object whose constructor has still to run. -/
  | create
  /-- Create an array of numbers. -/
  | createPrimitives
  /-- Create an array of references. -/
  | createReferences
  /-- Create an array of arrays. -/
  | createMulti
  | cast
deriving DecidableEq, Repr

namespace Opcode

/-- The types of numbers in the order in which opcodes run through them. -/
def numberType (n : UInt8) : Slot :=
  if n % 4 == 0 then .integer else if n % 4 == 1 then .long else if n % 4 == 2 then .float
  else .double

/-- The slots of a number. -/
def numberSlots (n : UInt8) : Nat := if n % 2 == 0 then 1 else 2

/-- Arithmetic on one or two numbers of a type. -/
def arithmetic (op : Opcode) : Action :=
  .replace ((if ineg ≤ op then 1 else 2) * numberSlots (op - iadd)) (some (numberType (op - iadd)))

/-- What an instruction does to types. -/
def action? (op : Opcode) : Option Action :=
  if [nop, goto, vreturn].contains op then some (.replace 0 none)
  else if op == aconstNull then some (.replace 0 (some .null))
  else if between iconstM1 iconst5 op || op == bipush || op == sipush then
    some (.replace 0 (some .integer))
  else if op == lconst0 || op == lconst1 then some (.replace 0 (some .long))
  else if between fconst0 fconst2 op then some (.replace 0 (some .float))
  else if op == dconst0 || op == dconst1 then some (.replace 0 (some .double))
  else if op == ldc then some .constant
  else if between iload dload op then some (.load (numberType (op - iload)))
  else if op == aload then some .loadReference
  else if [iaload, baload, caload, saload].contains op then some (.replace 2 (some .integer))
  else if op == laload then some (.replace 2 (some .long))
  else if op == faload then some (.replace 2 (some .float))
  else if op == daload then some (.replace 2 (some .double))
  else if op == aaload then some .loadElement
  else if [istore, fstore, astore].contains op then some (.store false)
  else if op == lstore || op == dstore then some (.store true)
  else if [iastore, fastore, aastore, bastore, castore, sastore].contains op then
    some (.replace 3 none)
  else if op == lastore || op == dastore then some (.replace 4 none)
  else if [pop, ifnull, ifnonnull, tableswitch, lookupswitch, ireturn, freturn, areturn, athrow,
      monitorenter, monitorexit].contains op || between ifeq ifle op then some (.replace 1 none)
  else if [pop2, lreturn, dreturn].contains op || between ifIcmpeq ifAcmpne op then
    some (.replace 2 none)
  else if op == dup then some (.shuffle 1 [0, 0])
  else if op == dupX1 then some (.shuffle 2 [0, 1, 0])
  else if op == dupX2 then some (.shuffle 3 [0, 2, 1, 0])
  else if op == dup2 then some (.shuffle 2 [1, 0, 1, 0])
  else if op == dup2X1 then some (.shuffle 3 [1, 0, 2, 1, 0])
  else if op == dup2X2 then some (.shuffle 4 [1, 0, 3, 2, 1, 0])
  else if op == swap then some (.shuffle 2 [0, 1])
  else if between iadd dneg op then some (arithmetic op)
  else if [ishl, ishr, iushr, iand, ior, ixor, l2i, d2i, fcmpl, fcmpg].contains op then
    some (.replace 2 (some .integer))
  else if [lshl, lshr, lushr].contains op then some (.replace 3 (some .long))
  else if [land, lor, lxor].contains op then some (.replace 4 (some .long))
  else if op == iinc then some .increment
  else if op == i2l || op == f2l then some (.replace 1 (some .long))
  else if op == i2f then some (.replace 1 (some .float))
  else if op == i2d || op == f2d then some (.replace 1 (some .double))
  else if op == l2f || op == d2f then some (.replace 2 (some .float))
  else if op == l2d then some (.replace 2 (some .double))
  else if op == d2l then some (.replace 2 (some .long))
  else if [f2i, i2b, i2c, i2s, arraylength, instanceof].contains op then
    some (.replace 1 (some .integer))
  else if [lcmp, dcmpl, dcmpg].contains op then some (.replace 4 (some .integer))
  else if op == jsr || op == ret then some .subroutine
  else if op.isFieldAccess then some .field
  else if op.isInvoke then some .call
  else if op == invokedynamic then some .callSite
  else if op == new then some .create
  else if op == newarray then some .createPrimitives
  else if op == anewarray then some .createReferences
  else if op == checkcast then some .cast
  else if op == multianewarray then some .createMulti
  else none

end Opcode

/-! ### Types of values -/

/-- The type of a field, as a slot. -/
def FieldType.slot (type : FieldType) : Slot := Slot.declared type.verificationType

/-- The type of a constant. -/
def Constant.slot : Constant → Except Failure Slot
  | .int _ => .ok .integer
  | .float _ => .ok .float
  | .long _ => .ok .long
  | .double _ => .ok .double
  | .string _ => .ok (.object "java/lang/String")
  | .classRef _ => .ok (.object "java/lang/Class")
  | .methodType _ => .ok (.object "java/lang/invoke/MethodType")
  | .handle _ => .ok (.object "java/lang/invoke/MethodHandle")
  | .dynamic _ desc _ _ => (fieldType desc).map FieldType.slot

/-- The descriptors of arrays of numbers, by the codes of their element types. -/
def primitiveArrays : List (Int32 × String) :=
  [(4, "[Z"), (5, "[C"), (6, "[F"), (7, "[D"), (8, "[B"), (9, "[S"), (10, "[I"), (11, "[J")]

/-- The descriptor of an array of references. -/
def arrayOf (name : String) : String :=
  if isArrayDescriptor name then "[" ++ name else "[L" ++ name ++ ";"

/-- The type of the elements of an array. -/
def elementSlot : Slot → Except Failure Slot
  | .object name =>
    if isArrayDescriptor name then
      (fieldType (String.ofList (name.toList.drop 1))).map FieldType.slot
    else .ok (.object objectClass)
  | .null => .ok .null
  | _ => .ok (.object objectClass)

/-! ### Instructions -/

/-- The class and the body around an instruction. -/
structure TypingContext where
  /-- The class that declares the method. -/
  owner : String
  steps : Array Step

namespace TypingContext

variable (ctx : TypingContext)

/-- The operand is none that the opcode takes. -/
def mismatch {α : Type} (step : Step) : Except Failure α :=
  .error (.encoding (.operandMismatch step.insn))

/-- The effect of a field access. -/
def field (opcode : Opcode) (type : FieldType) (s : State) : Except Failure State :=
  if opcode == Opcode.getstatic then .ok (s.push type.slot)
  else if opcode == Opcode.putstatic then s.drop type.slots
  else if opcode == Opcode.getfield then s.convert 1 type.slot
  else s.drop (type.slots + 1)

/-- The type of an object once its constructor ran. -/
def initialized (receiver : Slot) : Except Failure Slot :=
  match receiver with
  | .uninitializedThis => .ok (.object ctx.owner)
  | .uninitialized site =>
    match ctx.steps[site.index]? with
    | some step =>
      match step.operand with
      | .type name => .ok (.object name)
      | _ => mismatch step
    | none => .error (.encoding .unknownSite)
  | receiver => .ok receiver

/-- Take the receiver of a call; a constructor call makes it an object everywhere. -/
def receive (opcode : Opcode) (name : String) (s : State) : Except Failure State := do
  let (receiver, s) ← s.pop
  if opcode == Opcode.invokespecial && name == constructorName then
    let initialized ← ctx.initialized receiver
    .ok (s.retype receiver initialized)
  else .ok s

/-- Put the result of a call on the operand stack, if there is one. -/
def result (type : MethodType) (s : State) : State :=
  match type.result with
  | some result => s.push result.slot
  | none => s

/-- The effect of a call. -/
def call (opcode : Opcode) (member : MemberRef) (s : State) : Except Failure State := do
  let type ← methodType member.desc
  let s ← s.drop type.argumentSlots.toNat
  let s ← if opcode == Opcode.invokestatic then .ok s else ctx.receive opcode member.name s
  .ok (result type s)

/-- The state behind an instruction at a position. -/
def execute (position : Nat) (step : Step) (s : State) : Except Failure State :=
  match step.opcode.action?, step.operand with
  | some (.replace count none), _ => s.drop count
  | some (.replace count (some type)), _ => s.convert count type
  | some .constant, .load constant => constant.slot.map fun type => s.push type
  | some (.load type), .var _ => .ok (s.push type)
  | some .loadReference, .var index => (s.load index).map fun type => s.push type
  | some .loadElement, _ => do
    let (_, s) ← s.pop
    let (array, s) ← s.pop
    let type ← elementSlot array
    .ok (s.push type)
  | some (.store wide), operand => do
    let s ← if wide then s.drop 1 else .ok s
    let (type, s) ← s.pop
    match operand with
    | .var index => s.store index type
    | _ => mismatch step
  | some (.shuffle count copies), _ => s.shuffle count copies
  | some .increment, .increment index _ => s.store index .integer
  | some .subroutine, _ => .error .subroutines
  | some .field, .field member => do
    let type ← fieldType member.desc
    field step.opcode type s
  | some .call, .method member _ => ctx.call step.opcode member s
  | some .callSite, .invokeDynamic call => do
    let type ← methodType call.desc
    let s ← s.drop type.argumentSlots.toNat
    .ok (result type s)
  | some .create, _ => .ok (s.push (.uninitialized ⟨position⟩))
  | some .createPrimitives, .int code =>
    match primitiveArrays.lookup code with
    | some desc => s.convert 1 (.object desc)
    | none => .error (.encoding (.elementType code))
  | some .createReferences, .type name => s.convert 1 (.object (arrayOf name))
  | some .cast, .type name => s.convert 1 (.object name)
  | some .createMulti, .multiArray desc dims => s.convert dims.toNat (.object desc)
  | some _, _ => mismatch step
  | none, _ => .error (.encoding (.encodedOpcode step.opcode))

end TypingContext

end ClassInstrument
