import ClassInstrument.Code.Basic
import ClassInstrument.Code.Form
import ClassInstrument.Pool.Resolve

/-!
# Reading bytecode

The instructions in the code of a method, each with its offset.  Here a label's number *is* the
byte offset it stands for; labels get numbers of their own when a body is put together.

* `BytecodeContext` — the tables that operands refer to, and the length of the code;
* `BytecodeContext.target` — an offset as a label, if it lies in the code or at its end;
* `BytecodeContext.operand` — the instruction behind its first byte, in general form;
* `BytecodeContext.instructions` — all instructions, from the first byte to the last.
-/

namespace ClassInstrument

/-- What instructions refer to. -/
structure BytecodeContext where
  pool : Pool
  bootstrap : BootstrapTable
  /-- The length of the code. -/
  length : Nat

namespace BytecodeContext

variable (ctx : BytecodeContext)

/-! ### Positions -/

/-- The label of an offset, which has to lie in the code or at its end. -/
def target (offset : Int) : Except Failure Label :=
  if 0 ≤ offset ∧ offset ≤ ctx.length then .ok ⟨offset.toNat⟩
  else .error (.malformed (.codeOffset offset))

/-- The label at a two-byte offset. -/
def targetAt : Decoder Label := do
  let offset ← Decoder.word (α := UInt16)
  Decoder.ofExcept (ctx.target offset.toNat)

/-- The label at a distance of two bytes from an instruction. -/
def nearTarget (base : Nat) : Decoder Label := do
  let distance ← Decoder.word (α := Int16)
  Decoder.ofExcept (ctx.target (base + distance.toInt))

/-- The label at a distance of four bytes from an instruction. -/
def farTarget (base : Nat) : Decoder Label := do
  let distance ← Decoder.word (α := Int32)
  Decoder.ofExcept (ctx.target (base + distance.toInt))

/-! ### Switches -/

/-- Every key from the lowest to the highest has a target. -/
def tableOperand (base : Nat) : Decoder Operand := do
  Decoder.align 0 4
  let default ← ctx.farTarget base
  let low ← Decoder.word (α := Int32)
  let high ← Decoder.word (α := Int32)
  if high < low then Decoder.malformed (.tableBounds high low)
  else
    let count := high.toInt - low.toInt + 1
    if ctx.length < count then Decoder.malformed (.tableCount count)
    else
      let targets ← Decoder.times count.toNat (ctx.farTarget base)
      return .tableSwitch default low high targets

/-- Keys come with their targets. -/
def lookupOperand (base : Nat) : Decoder Operand := do
  Decoder.align 0 4
  let default ← ctx.farTarget base
  let count ← Decoder.word (α := Int32)
  if count.toInt < 0 || ctx.length < count.toInt then Decoder.malformed (.pairCount count)
  else
    let pairs ← Decoder.times count.toInt.toNat do
      let key ← Decoder.word (α := Int32)
      let target ← ctx.farTarget base
      return (key, target)
    return .lookupSwitch default pairs

/-! ### Operands from the constant pool -/

/-- A constant that is loaded. -/
def constantAt (index : UInt16) : Decoder Instruction := do
  let constant ← Decoder.ofExcept (ctx.pool.constant ctx.bootstrap index)
  return .ldc constant

/-- The member whose index comes next. -/
def memberOperand : Decoder (MemberRef × Bool) := do
  let index ← Decoder.word
  Decoder.ofExcept (ctx.pool.memberRef index)

/-- The class whose index comes next. -/
def typeOperand : Decoder String := do
  let index ← Decoder.word
  Decoder.ofExcept (ctx.pool.className index)

/-! ### Instructions -/

/-- An instruction behind `wide`, at a given offset. -/
def widened (offset : Nat) : Decoder Instruction := do
  let op ← Decoder.word (α := Opcode)
  if op == Opcode.iinc then
    let index ← Decoder.word
    let amount ← Decoder.word
    return .op Opcode.iinc (.increment index amount)
  else if op.usesVariable then
    let index ← Decoder.word
    return .op op (.var index)
  else Decoder.malformed (.wideOpcode op offset)

/-- The instruction with a given first byte and form, at a given offset. -/
def formed (offset : Nat) (op : Opcode) : Form → Decoder Instruction
  | .plain => return .simple op
  | .signedByte => do
    let value ← Decoder.word (α := Int8)
    return .op op (.int value.toInt32)
  | .signedShort => do
    let value ← Decoder.word (α := Int16)
    return .op op (.int value.toInt32)
  | .elementType => do
    let code ← Decoder.word (α := UInt8)
    return .op op (.int code.toUInt32.toInt32)
  | .narrowConstant => do
    let index ← Decoder.word (α := UInt8)
    ctx.constantAt index.toUInt16
  | .wideConstant => do
    let index ← Decoder.word
    ctx.constantAt index
  | .variable => do
    let index ← Decoder.word (α := UInt8)
    return .op op (.var index.toUInt16)
  | .shortVariable general index => return .op general (.var index)
  | .increment => do
    let index ← Decoder.word (α := UInt8)
    let amount ← Decoder.word (α := Int8)
    return .op op (.increment index.toUInt16 amount.toInt16)
  | .branch => do
    let target ← ctx.nearTarget offset
    return .op op (.jump target)
  | .wideBranch general => do
    let target ← ctx.farTarget offset
    return .op general (.jump target)
  | .tableSwitch => do
    let operand ← ctx.tableOperand offset
    return .op op operand
  | .lookupSwitch => do
    let operand ← ctx.lookupOperand offset
    return .op op operand
  | .field => do
    let (member, _) ← ctx.memberOperand
    return .op op (.field member)
  | .method => do
    let (member, onInterface) ← ctx.memberOperand
    return .op op (.method member onInterface)
  | .interfaceMethod => do
    let (member, onInterface) ← ctx.memberOperand
    Decoder.skip 2
    return .op op (.method member onInterface)
  | .callSite => do
    let index ← Decoder.word
    let call ← Decoder.ofExcept (ctx.pool.dynamicCall ctx.bootstrap index)
    Decoder.skip 2
    return .op op (.invokeDynamic call)
  | .type => do
    let name ← ctx.typeOperand
    return .op op (.type name)
  | .multiArray => do
    let desc ← ctx.typeOperand
    let dims ← Decoder.word
    return .op op (.multiArray desc dims)
  | .wide => widened offset

/-- The instruction behind its first byte, in general form. -/
def operand (offset : Nat) (op : Opcode) : Decoder Instruction :=
  match op.form? with
  | some form => ctx.formed offset op form
  | none => Decoder.malformed (.opcode op offset)

/-- The instructions up to the end of the code, behind those already read (last first).  Every
instruction takes a byte at least, so there are no more rounds than bytes. -/
def instructionsOnto :
    Nat → List (Nat × Instruction) → Cursor → Except Failure (List (Nat × Instruction))
  | _, read, ⟨_, []⟩ => .ok read.reverse
  | 0, _, ⟨_, _ :: _⟩ => .error .outOfBounds
  | rounds + 1, read, ⟨offset, op :: rest⟩ =>
    match ctx.operand offset op ⟨offset + 1, rest⟩ with
    | .ok (insn, cursor) => instructionsOnto rounds ((offset, insn) :: read) cursor
    | .error e => .error e

/-- The instructions of some code with their offsets. -/
def instructions (code : Bytes) : Except Failure (List (Nat × Instruction)) :=
  ctx.instructionsOnto code.length [] (.start code)

end BytecodeContext

end ClassInstrument
