import ClassInstrument.Code.Basic

/-!
# Effects on the operand stack

How many slots an instruction takes from the operand stack and how many it puts there.

* `StackEffect` — the two numbers;
* `Opcode.stackEffect?` — for the instructions whose opcode tells it all;
* `Instruction.stackEffect` — for every executable instruction; members, call sites and computed
  constants tell theirs by their descriptor.
-/

namespace ClassInstrument

/-- Slots taken from the operand stack, and slots put there. -/
structure StackEffect where
  pop : Nat
  push : Nat
deriving DecidableEq, Inhabited, Repr

namespace Opcode

/-- The opcodes from one to another. -/
def between (first last op : Opcode) : Bool := first ≤ op && op ≤ last

/-- The effect of arithmetic on two operands: the opcodes for one-slot and two-slot numbers
alternate. -/
def arithmeticEffect (op : Opcode) : StackEffect :=
  if (op - iadd) % 2 == 0 then ⟨2, 1⟩ else ⟨4, 2⟩

/-- The effect of an instruction whose opcode tells it. -/
def stackEffect? (op : Opcode) : Option StackEffect :=
  if [nop, iinc, goto, ret, vreturn].contains op then some ⟨0, 0⟩
  else if between aconstNull iconst5 op || between fconst0 fconst2 op
      || [bipush, sipush, iload, fload, aload, jsr, new].contains op then some ⟨0, 1⟩
  else if [lconst0, lconst1, dconst0, dconst1, lload, dload].contains op then some ⟨0, 2⟩
  else if [iaload, faload, aaload, baload, caload, saload].contains op then some ⟨2, 1⟩
  else if [laload, daload].contains op then some ⟨2, 2⟩
  else if [istore, fstore, astore, pop, tableswitch, lookupswitch, ireturn, freturn, areturn,
      athrow, monitorenter, monitorexit, ifnull, ifnonnull].contains op
      || between ifeq ifle op then some ⟨1, 0⟩
  else if [lstore, dstore, pop2, lreturn, dreturn].contains op
      || between ifIcmpeq ifAcmpne op then some ⟨2, 0⟩
  else if [iastore, fastore, aastore, bastore, castore, sastore].contains op then some ⟨3, 0⟩
  else if [lastore, dastore].contains op then some ⟨4, 0⟩
  else if op == dup then some ⟨1, 2⟩
  else if op == dupX1 then some ⟨2, 3⟩
  else if op == dupX2 then some ⟨3, 4⟩
  else if op == dup2 then some ⟨2, 4⟩
  else if op == dup2X1 then some ⟨3, 5⟩
  else if op == dup2X2 then some ⟨4, 6⟩
  else if op == swap then some ⟨2, 2⟩
  else if between iadd drem op then some (arithmeticEffect op)
  else if [ineg, fneg, i2f, f2i, i2b, i2c, i2s, newarray, anewarray, arraylength, checkcast,
      instanceof].contains op then some ⟨1, 1⟩
  else if [lneg, dneg, l2d, d2l].contains op then some ⟨2, 2⟩
  else if [ishl, ishr, iushr, iand, ior, ixor, l2i, l2f, d2i, d2f, fcmpl, fcmpg].contains op then
    some ⟨2, 1⟩
  else if [lshl, lshr, lushr].contains op then some ⟨3, 2⟩
  else if [land, lor, lxor].contains op then some ⟨4, 2⟩
  else if [i2l, i2d, f2l, f2d].contains op then some ⟨1, 2⟩
  else if [lcmp, dcmpl, dcmpg].contains op then some ⟨4, 1⟩
  else none

end Opcode

/-- The slots that a loaded constant takes. -/
def Constant.slots : Constant → Except Failure Nat
  | .long _ | .double _ => .ok 2
  | .dynamic _ desc _ _ => (fieldType desc).map FieldType.slots
  | _ => .ok 1

/-- The effect of a field access. -/
def fieldEffect (opcode : Opcode) (size : Nat) : StackEffect :=
  if opcode == Opcode.getstatic then ⟨0, size⟩
  else if opcode == Opcode.putstatic then ⟨size, 0⟩
  else if opcode == Opcode.getfield then ⟨1, size⟩
  else ⟨1 + size, 0⟩

/-- The effect of a call with a number of slots for the receiver, added in two bytes. -/
def callEffect (receiver : UInt16) (type : MethodType) : StackEffect :=
  ⟨(type.argumentSlots + receiver).toNat, type.returnSlots⟩

/-- The effect of an executable instruction. -/
def stackEffect (opcode : Opcode) (operand : Operand) : Except Failure StackEffect :=
  match opcode.stackEffect? with
  | some effect => .ok effect
  | none =>
    let mismatch := Except.error (.encoding (.operandMismatch (.op opcode operand)))
    if opcode == Opcode.ldc then
      match operand with
      | .load constant => constant.slots.map fun slots => ⟨0, slots⟩
      | _ => mismatch
    else if opcode.isFieldAccess then
      match operand with
      | .field member => (fieldType member.desc).map fun type => fieldEffect opcode type.slots
      | _ => mismatch
    else if opcode.isInvoke then
      match operand with
      | .method member _ =>
        (methodType member.desc).map
          (callEffect (if opcode == Opcode.invokestatic then 0 else 1))
      | _ => mismatch
    else if opcode == Opcode.invokedynamic then
      match operand with
      | .invokeDynamic call => (methodType call.desc).map (callEffect 0)
      | _ => mismatch
    else if opcode == Opcode.multianewarray then
      match operand with
      | .multiArray _ dims => .ok ⟨dims.toNat, 1⟩
      | _ => mismatch
    else .error (.encoding (.encodedOpcode opcode))

end ClassInstrument
