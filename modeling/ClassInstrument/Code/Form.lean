import ClassInstrument.Opcode

/-!
# Forms of encoded instructions

What stands behind the first byte of an instruction in a class file.  Several bytes stand for one
general instruction: loads and stores of low locals have a byte of their own, constants have a
narrow and two wide forms, `goto` and `jsr` a form with a four-byte distance.

* `Form` — the shapes of operands, with the general opcode where the byte is another one;
* `Opcode.form?` — the form behind a byte, none if it is no instruction.
-/

namespace ClassInstrument

/-- What stands behind the first byte of an instruction. -/
inductive Form where
  /-- Nothing. -/
  | plain
  /-- A signed byte. -/
  | signedByte
  /-- A signed two-byte number. -/
  | signedShort
  /-- An element type code of one byte. -/
  | elementType
  /-- A constant by a one-byte index. -/
  | narrowConstant
  /-- A constant by a two-byte index. -/
  | wideConstant
  /-- A local variable by a one-byte index. -/
  | variable
  /-- Nothing, the byte telling the local variable of a general instruction. -/
  | shortVariable (general : Opcode) (index : UInt16)
  /-- A local variable and a signed byte. -/
  | increment
  /-- A distance of two bytes. -/
  | branch
  /-- A distance of four bytes. -/
  | wideBranch (general : Opcode)
  | tableSwitch
  | lookupSwitch
  /-- A field by its index. -/
  | field
  /-- A method by its index. -/
  | method
  /-- A method by its index, then a count and a zero. -/
  | interfaceMethod
  /-- A call site by its index, then two zeros. -/
  | callSite
  /-- A class by its index. -/
  | type
  /-- A class by its index and a number of dimensions. -/
  | multiArray
  /-- Another instruction with wider operands. -/
  | wide
deriving DecidableEq, Repr

namespace Opcode

/-- The instructions that load or store a local variable, or return to the address in one. -/
def usesVariable (op : Opcode) : Bool :=
  (iload ≤ op && op ≤ aload) || (istore ≤ op && op ≤ astore) || op == ret

/-- The instructions without operand. -/
def isPlain (op : Opcode) : Bool :=
  op ≤ dconst1 || (iaload ≤ op && op ≤ saload) || (iastore ≤ op && op ≤ lxor)
    || (i2l ≤ op && op ≤ dcmpg) || (ireturn ≤ op && op ≤ vreturn)
    || [arraylength, athrow, monitorenter, monitorexit].contains op

/-- The branches with a distance of two bytes. -/
def isNearBranch (op : Opcode) : Bool :=
  (ifeq ≤ op && op ≤ jsr) || op == ifnull || op == ifnonnull

/-- The instructions that name a class. -/
def namesType (op : Opcode) : Bool := [new, anewarray, checkcast, instanceof].contains op

/-- The form of what follows a byte; none if the byte is no instruction. -/
def form? (op : Opcode) : Option Form :=
  if op.isPlain then some .plain
  else if op == bipush then some .signedByte
  else if op == sipush then some .signedShort
  else if op == newarray then some .elementType
  else if op == ldc then some .narrowConstant
  else if op == ldcW || op == ldc2W then some .wideConstant
  else if op.usesVariable then some .variable
  else if iload0 ≤ op && op ≤ aload3 then
    some (.shortVariable (iload + (op - iload0) / 4) ((op - iload0) % 4).toUInt16)
  else if istore0 ≤ op && op ≤ astore3 then
    some (.shortVariable (istore + (op - istore0) / 4) ((op - istore0) % 4).toUInt16)
  else if op == iinc then some .increment
  else if op.isNearBranch then some .branch
  else if op == gotoW then some (.wideBranch goto)
  else if op == jsrW then some (.wideBranch jsr)
  else if op == tableswitch then some .tableSwitch
  else if op == lookupswitch then some .lookupSwitch
  else if getstatic ≤ op && op ≤ putfield then some .field
  else if invokevirtual ≤ op && op ≤ invokestatic then some .method
  else if op == invokeinterface then some .interfaceMethod
  else if op == invokedynamic then some .callSite
  else if op.namesType then some .type
  else if op == multianewarray then some .multiArray
  else if op == wide then some .wide
  else none

end Opcode

end ClassInstrument
