/-!
# Opcodes

An opcode is a byte.  The first 202 values are the instructions of chapter 6 of the Java Virtual
Machine Specification; the rest have no name.

* the named constants, the plain `return` being `vreturn`; instructions that are only met as members
  of a range of opcodes have no constant of their own;
* `Opcode.name` — the upper-case mnemonic, `UNKNOWN` beyond the table;
* the reserved sets `isInvoke`, `isFieldAccess`, `isReturn`, `isJump`, `isUnconditional`;
* `Opcode.handleKind?` and `Opcode.ofHandleKind?` — the reference kind of a method handle that
  makes the same access as an instruction, and back; both read the one table `handleKinds`.
-/

namespace ClassInstrument

/-- The first byte of an instruction. -/
abbrev Opcode := UInt8

namespace Opcode

/-! ### The instructions -/

@[match_pattern] abbrev nop : Opcode := 0x00
@[match_pattern] abbrev aconstNull : Opcode := 0x01
@[match_pattern] abbrev iconstM1 : Opcode := 0x02
@[match_pattern] abbrev iconst0 : Opcode := 0x03
@[match_pattern] abbrev iconst1 : Opcode := 0x04
@[match_pattern] abbrev iconst5 : Opcode := 0x08
@[match_pattern] abbrev lconst0 : Opcode := 0x09
@[match_pattern] abbrev lconst1 : Opcode := 0x0A
@[match_pattern] abbrev fconst0 : Opcode := 0x0B
@[match_pattern] abbrev fconst2 : Opcode := 0x0D
@[match_pattern] abbrev dconst0 : Opcode := 0x0E
@[match_pattern] abbrev dconst1 : Opcode := 0x0F
@[match_pattern] abbrev bipush : Opcode := 0x10
@[match_pattern] abbrev sipush : Opcode := 0x11
@[match_pattern] abbrev ldc : Opcode := 0x12
@[match_pattern] abbrev ldcW : Opcode := 0x13
@[match_pattern] abbrev ldc2W : Opcode := 0x14
@[match_pattern] abbrev iload : Opcode := 0x15
@[match_pattern] abbrev lload : Opcode := 0x16
@[match_pattern] abbrev fload : Opcode := 0x17
@[match_pattern] abbrev dload : Opcode := 0x18
@[match_pattern] abbrev aload : Opcode := 0x19
@[match_pattern] abbrev iload0 : Opcode := 0x1A
@[match_pattern] abbrev aload3 : Opcode := 0x2D
@[match_pattern] abbrev iaload : Opcode := 0x2E
@[match_pattern] abbrev laload : Opcode := 0x2F
@[match_pattern] abbrev faload : Opcode := 0x30
@[match_pattern] abbrev daload : Opcode := 0x31
@[match_pattern] abbrev aaload : Opcode := 0x32
@[match_pattern] abbrev baload : Opcode := 0x33
@[match_pattern] abbrev caload : Opcode := 0x34
@[match_pattern] abbrev saload : Opcode := 0x35
@[match_pattern] abbrev istore : Opcode := 0x36
@[match_pattern] abbrev lstore : Opcode := 0x37
@[match_pattern] abbrev fstore : Opcode := 0x38
@[match_pattern] abbrev dstore : Opcode := 0x39
@[match_pattern] abbrev astore : Opcode := 0x3A
@[match_pattern] abbrev istore0 : Opcode := 0x3B
@[match_pattern] abbrev astore3 : Opcode := 0x4E
@[match_pattern] abbrev iastore : Opcode := 0x4F
@[match_pattern] abbrev lastore : Opcode := 0x50
@[match_pattern] abbrev fastore : Opcode := 0x51
@[match_pattern] abbrev dastore : Opcode := 0x52
@[match_pattern] abbrev aastore : Opcode := 0x53
@[match_pattern] abbrev bastore : Opcode := 0x54
@[match_pattern] abbrev castore : Opcode := 0x55
@[match_pattern] abbrev sastore : Opcode := 0x56
@[match_pattern] abbrev pop : Opcode := 0x57
@[match_pattern] abbrev pop2 : Opcode := 0x58
@[match_pattern] abbrev dup : Opcode := 0x59
@[match_pattern] abbrev dupX1 : Opcode := 0x5A
@[match_pattern] abbrev dupX2 : Opcode := 0x5B
@[match_pattern] abbrev dup2 : Opcode := 0x5C
@[match_pattern] abbrev dup2X1 : Opcode := 0x5D
@[match_pattern] abbrev dup2X2 : Opcode := 0x5E
@[match_pattern] abbrev swap : Opcode := 0x5F
@[match_pattern] abbrev iadd : Opcode := 0x60
@[match_pattern] abbrev drem : Opcode := 0x73
@[match_pattern] abbrev ineg : Opcode := 0x74
@[match_pattern] abbrev lneg : Opcode := 0x75
@[match_pattern] abbrev fneg : Opcode := 0x76
@[match_pattern] abbrev dneg : Opcode := 0x77
@[match_pattern] abbrev ishl : Opcode := 0x78
@[match_pattern] abbrev lshl : Opcode := 0x79
@[match_pattern] abbrev ishr : Opcode := 0x7A
@[match_pattern] abbrev lshr : Opcode := 0x7B
@[match_pattern] abbrev iushr : Opcode := 0x7C
@[match_pattern] abbrev lushr : Opcode := 0x7D
@[match_pattern] abbrev iand : Opcode := 0x7E
@[match_pattern] abbrev land : Opcode := 0x7F
@[match_pattern] abbrev ior : Opcode := 0x80
@[match_pattern] abbrev lor : Opcode := 0x81
@[match_pattern] abbrev ixor : Opcode := 0x82
@[match_pattern] abbrev lxor : Opcode := 0x83
@[match_pattern] abbrev iinc : Opcode := 0x84
@[match_pattern] abbrev i2l : Opcode := 0x85
@[match_pattern] abbrev i2f : Opcode := 0x86
@[match_pattern] abbrev i2d : Opcode := 0x87
@[match_pattern] abbrev l2i : Opcode := 0x88
@[match_pattern] abbrev l2f : Opcode := 0x89
@[match_pattern] abbrev l2d : Opcode := 0x8A
@[match_pattern] abbrev f2i : Opcode := 0x8B
@[match_pattern] abbrev f2l : Opcode := 0x8C
@[match_pattern] abbrev f2d : Opcode := 0x8D
@[match_pattern] abbrev d2i : Opcode := 0x8E
@[match_pattern] abbrev d2l : Opcode := 0x8F
@[match_pattern] abbrev d2f : Opcode := 0x90
@[match_pattern] abbrev i2b : Opcode := 0x91
@[match_pattern] abbrev i2c : Opcode := 0x92
@[match_pattern] abbrev i2s : Opcode := 0x93
@[match_pattern] abbrev lcmp : Opcode := 0x94
@[match_pattern] abbrev fcmpl : Opcode := 0x95
@[match_pattern] abbrev fcmpg : Opcode := 0x96
@[match_pattern] abbrev dcmpl : Opcode := 0x97
@[match_pattern] abbrev dcmpg : Opcode := 0x98
@[match_pattern] abbrev ifeq : Opcode := 0x99
@[match_pattern] abbrev ifle : Opcode := 0x9E
@[match_pattern] abbrev ifIcmpeq : Opcode := 0x9F
@[match_pattern] abbrev ifAcmpne : Opcode := 0xA6
@[match_pattern] abbrev goto : Opcode := 0xA7
@[match_pattern] abbrev jsr : Opcode := 0xA8
@[match_pattern] abbrev ret : Opcode := 0xA9
@[match_pattern] abbrev tableswitch : Opcode := 0xAA
@[match_pattern] abbrev lookupswitch : Opcode := 0xAB
@[match_pattern] abbrev ireturn : Opcode := 0xAC
@[match_pattern] abbrev lreturn : Opcode := 0xAD
@[match_pattern] abbrev freturn : Opcode := 0xAE
@[match_pattern] abbrev dreturn : Opcode := 0xAF
@[match_pattern] abbrev areturn : Opcode := 0xB0
@[match_pattern] abbrev vreturn : Opcode := 0xB1
@[match_pattern] abbrev getstatic : Opcode := 0xB2
@[match_pattern] abbrev putstatic : Opcode := 0xB3
@[match_pattern] abbrev getfield : Opcode := 0xB4
@[match_pattern] abbrev putfield : Opcode := 0xB5
@[match_pattern] abbrev invokevirtual : Opcode := 0xB6
@[match_pattern] abbrev invokespecial : Opcode := 0xB7
@[match_pattern] abbrev invokestatic : Opcode := 0xB8
@[match_pattern] abbrev invokeinterface : Opcode := 0xB9
@[match_pattern] abbrev invokedynamic : Opcode := 0xBA
@[match_pattern] abbrev new : Opcode := 0xBB
@[match_pattern] abbrev newarray : Opcode := 0xBC
@[match_pattern] abbrev anewarray : Opcode := 0xBD
@[match_pattern] abbrev arraylength : Opcode := 0xBE
@[match_pattern] abbrev athrow : Opcode := 0xBF
@[match_pattern] abbrev checkcast : Opcode := 0xC0
@[match_pattern] abbrev instanceof : Opcode := 0xC1
@[match_pattern] abbrev monitorenter : Opcode := 0xC2
@[match_pattern] abbrev monitorexit : Opcode := 0xC3
@[match_pattern] abbrev wide : Opcode := 0xC4
@[match_pattern] abbrev multianewarray : Opcode := 0xC5
@[match_pattern] abbrev ifnull : Opcode := 0xC6
@[match_pattern] abbrev ifnonnull : Opcode := 0xC7
@[match_pattern] abbrev gotoW : Opcode := 0xC8
@[match_pattern] abbrev jsrW : Opcode := 0xC9

/-! ### Mnemonics -/

/-- The mnemonics in the order of their opcodes. -/
def mnemonics : Array String := #[
  "NOP", "ACONST_NULL", "ICONST_M1", "ICONST_0", "ICONST_1", "ICONST_2", "ICONST_3", "ICONST_4",
  "ICONST_5", "LCONST_0", "LCONST_1", "FCONST_0", "FCONST_1", "FCONST_2", "DCONST_0", "DCONST_1",
  "BIPUSH", "SIPUSH", "LDC", "LDC_W", "LDC2_W", "ILOAD", "LLOAD", "FLOAD", "DLOAD", "ALOAD",
  "ILOAD_0", "ILOAD_1", "ILOAD_2", "ILOAD_3", "LLOAD_0", "LLOAD_1", "LLOAD_2", "LLOAD_3",
  "FLOAD_0", "FLOAD_1", "FLOAD_2", "FLOAD_3", "DLOAD_0", "DLOAD_1", "DLOAD_2", "DLOAD_3",
  "ALOAD_0", "ALOAD_1", "ALOAD_2", "ALOAD_3", "IALOAD", "LALOAD", "FALOAD", "DALOAD", "AALOAD",
  "BALOAD", "CALOAD", "SALOAD", "ISTORE", "LSTORE", "FSTORE", "DSTORE", "ASTORE", "ISTORE_0",
  "ISTORE_1", "ISTORE_2", "ISTORE_3", "LSTORE_0", "LSTORE_1", "LSTORE_2", "LSTORE_3", "FSTORE_0",
  "FSTORE_1", "FSTORE_2", "FSTORE_3", "DSTORE_0", "DSTORE_1", "DSTORE_2", "DSTORE_3", "ASTORE_0",
  "ASTORE_1", "ASTORE_2", "ASTORE_3", "IASTORE", "LASTORE", "FASTORE", "DASTORE", "AASTORE",
  "BASTORE", "CASTORE", "SASTORE", "POP", "POP2", "DUP", "DUP_X1", "DUP_X2", "DUP2", "DUP2_X1",
  "DUP2_X2", "SWAP", "IADD", "LADD", "FADD", "DADD", "ISUB", "LSUB", "FSUB", "DSUB", "IMUL",
  "LMUL", "FMUL", "DMUL", "IDIV", "LDIV", "FDIV", "DDIV", "IREM", "LREM", "FREM", "DREM", "INEG",
  "LNEG", "FNEG", "DNEG", "ISHL", "LSHL", "ISHR", "LSHR", "IUSHR", "LUSHR", "IAND", "LAND",
  "IOR", "LOR", "IXOR", "LXOR", "IINC", "I2L", "I2F", "I2D", "L2I", "L2F", "L2D", "F2I", "F2L",
  "F2D", "D2I", "D2L", "D2F", "I2B", "I2C", "I2S", "LCMP", "FCMPL", "FCMPG", "DCMPL", "DCMPG",
  "IFEQ", "IFNE", "IFLT", "IFGE", "IFGT", "IFLE", "IF_ICMPEQ", "IF_ICMPNE", "IF_ICMPLT",
  "IF_ICMPGE", "IF_ICMPGT", "IF_ICMPLE", "IF_ACMPEQ", "IF_ACMPNE", "GOTO", "JSR", "RET",
  "TABLESWITCH", "LOOKUPSWITCH", "IRETURN", "LRETURN", "FRETURN", "DRETURN", "ARETURN", "RETURN",
  "GETSTATIC", "PUTSTATIC", "GETFIELD", "PUTFIELD", "INVOKEVIRTUAL", "INVOKESPECIAL",
  "INVOKESTATIC", "INVOKEINTERFACE", "INVOKEDYNAMIC", "NEW", "NEWARRAY", "ANEWARRAY",
  "ARRAYLENGTH", "ATHROW", "CHECKCAST", "INSTANCEOF", "MONITORENTER", "MONITOREXIT", "WIDE",
  "MULTIANEWARRAY", "IFNULL", "IFNONNULL", "GOTO_W", "JSR_W"]

/-- The mnemonic of an opcode, `UNKNOWN` for a byte that is no instruction. -/
def name (op : Opcode) : String := mnemonics.getD op.toNat "UNKNOWN"

/-- The opcode with a given number, if it fits a byte. -/
def ofInt? (number : Int) : Option Opcode :=
  if 0 ≤ number ∧ number < 256 then some (UInt8.ofNat number.toNat) else none

/-! ### Reserved sets -/

/-- The four instructions that call a method through a symbolic reference. -/
def isInvoke (op : Opcode) : Bool :=
  [invokevirtual, invokespecial, invokestatic, invokeinterface].contains op

/-- The four instructions that read or write a field through a symbolic reference. -/
def isFieldAccess (op : Opcode) : Bool :=
  [getstatic, putstatic, getfield, putfield].contains op

/-- The six instructions that return from a method. -/
def isReturn (op : Opcode) : Bool :=
  [ireturn, lreturn, freturn, dreturn, areturn, vreturn].contains op

/-- The branches that carry one label. -/
def isJump (op : Opcode) : Bool :=
  (ifeq ≤ op && op ≤ jsr) || [ifnull, ifnonnull, gotoW, jsrW].contains op

/-- The instructions after which control never reaches the next one. -/
def isUnconditional (op : Opcode) : Bool :=
  [goto, gotoW, ret, tableswitch, lookupswitch, athrow].contains op || isReturn op

/-! ### Method handle kinds -/

/-- Reference kinds up to this one refer to a field, the others to a method. -/
def lastFieldKind : UInt8 := 4

/-- Each reference kind of a method handle, with the instruction that makes the same access. -/
def handleKinds : List (UInt8 × Opcode) :=
  [(1, getfield), (2, getstatic), (3, putfield), (4, putstatic), (5, invokevirtual),
   (6, invokestatic), (7, invokespecial), (8, new), (9, invokeinterface)]

/-- The reference kind that makes the same access as an instruction. -/
def handleKind? (op : Opcode) : Option UInt8 :=
  (handleKinds.find? (·.2 == op)).map (·.1)

/-- The instruction that makes the same access as a reference kind. -/
def ofHandleKind? (kind : UInt8) : Option Opcode :=
  (handleKinds.find? (·.1 == kind)).map (·.2)

end Opcode

end ClassInstrument
