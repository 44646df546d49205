import ClassInstrument.Code.Marks
import ClassInstrument.Code.StackMap

/-!
# Decoding method bodies

The `Code` attribute of a method.

* `ReadOptions` — parts of a class file that are left out;
* `Code.decodeTable` — one of the tables behind the code, as marks;
* `Code.decode` — the whole attribute.  The order in which offsets are mentioned is that of the
  class file: instructions, exception ranges, then the tables one after the other.
-/

namespace ClassInstrument

/-- Parts of a class file that are left out when it is decoded. -/
structure ReadOptions where
  /-- Bodies stay undecoded attributes. -/
  skipCode : Bool
  /-- Lines, local variables, parameter names and source information. -/
  skipDebug : Bool
  /-- Stack map frames. -/
  skipFrames : Bool
deriving DecidableEq, Inhabited, Repr

namespace ReadOptions

/-- Leave out nothing. -/
def all : ReadOptions := ⟨false, false, false⟩

/-- The options that the bits of a number set, from the lowest bit up. -/
def ofBits (bits : Nat) : ReadOptions := ⟨bits.testBit 0, bits.testBit 1, bits.testBit 2⟩

end ReadOptions

/-- The names of the tables behind the code that are decoded. -/
inductive CodeTable where
  | lines
  | localVariables
  | variableTypes
  | frames
deriving DecidableEq, Repr

/-- The table with a given attribute name. -/
def CodeTable.ofName? : String → Option CodeTable
  | "LineNumberTable" => some .lines
  | "LocalVariableTable" => some .localVariables
  | "LocalVariableTypeTable" => some .variableTypes
  | "StackMapTable" => some .frames
  | _ => none

/-- The attribute name of a table. -/
def CodeTable.name : CodeTable → String
  | .lines => "LineNumberTable"
  | .localVariables => "LocalVariableTable"
  | .variableTypes => "LocalVariableTypeTable"
  | .frames => "StackMapTable"

/-- Whether a table is read at all. -/
def CodeTable.isRead (options : ReadOptions) : CodeTable → Bool
  | .frames => !options.skipFrames
  | _ => !options.skipDebug

namespace Code

/-! ### Entries of the tables -/

/-- An exception range; the labels are byte offsets. -/
def decodeRange (ctx : BytecodeContext) : Decoder ExceptionRange := do
  let start ← ctx.targetAt
  let finish ← ctx.targetAt
  let handler ← ctx.targetAt
  let index ← Decoder.word
  let catchType ← Decoder.ofExcept (ctx.pool.optionalClassName index)
  return ⟨start, finish, handler, catchType⟩

/-- A source line and the offset where it starts. -/
def decodeLine (ctx : BytecodeContext) (marks : Marks) : Decoder Marks := do
  let start ← Decoder.word (α := UInt16)
  let line ← Decoder.word
  let label ← Decoder.ofExcept (ctx.target start.toNat)
  return { marks with
    mentioned := label.index :: marks.mentioned
    lines := (label.index, line) :: marks.lines }

/-- The text whose index comes next. -/
def decodeName (ctx : BytecodeContext) : Decoder String := do
  let index ← Decoder.word
  Decoder.ofExcept (ctx.pool.utf8 index)

/-- A local variable with its scope and slot. -/
def decodeVariable (ctx : BytecodeContext) (marks : Marks) : Decoder Marks := do
  let start ← Decoder.word (α := UInt16)
  let length ← Decoder.word (α := UInt16)
  let name ← decodeName ctx
  let desc ← decodeName ctx
  let index ← Decoder.word
  let first ← Decoder.ofExcept (ctx.target start.toNat)
  let finish ← Decoder.ofExcept (ctx.target (start.toNat + length.toNat : Nat))
  let found : LocalVariable := { name, desc, signature := none, start := first, finish, index }
  return { marks with
    mentioned := finish.index :: first.index :: marks.mentioned
    localVariables := ((start, length, index), found) :: marks.localVariables }

/-- The generic signature of a scope and slot. -/
def decodeSignature (ctx : BytecodeContext) (marks : Marks) : Decoder Marks := do
  let start ← Decoder.word (α := UInt16)
  let length ← Decoder.word (α := UInt16)
  Decoder.skip 2
  let signature ← decodeName ctx
  let index ← Decoder.word (α := UInt16)
  return { marks with signatures := marks.signatures.insert (start, length, index) signature }

/-- The rows of a table, each adding to the marks. -/
def decodeRows (row : Marks → Decoder Marks) (marks : Marks) : Decoder Marks := do
  let count ← Decoder.word (α := UInt16)
  Decoder.iterate row count.toNat marks

/-- Frames replace those of an earlier table, but what that mentioned stays mentioned. -/
def addFrames (marks : Marks) (table : StackMap) : Marks :=
  { marks with mentioned := table.mentioned ++ marks.mentioned, frames := table.frames }

/-! ### Tables -/

/-- One table behind the code. -/
def decodeTable (ctx : BytecodeContext) (header : MethodHeader) (marks : Marks) (body : Bytes) :
    CodeTable → Except Failure Marks
  | .lines => (decodeRows (decodeLine ctx) marks).onBytes body
  | .localVariables => (decodeRows (decodeVariable ctx) marks).onBytes body
  | .variableTypes => (decodeRows (decodeSignature ctx) marks).onBytes body
  | .frames => do
    let entry ← header.entryFrame
    let table ← (StackMap.decode ctx entry).onBytes body
    .ok (addFrames marks table)

/-- The next attribute behind the code; those that are no table to be read are left out. -/
def decodeAttribute (ctx : BytecodeContext) (header : MethodHeader) (options : ReadOptions)
    (marks : Marks) : Decoder Marks := do
  let name ← decodeName ctx
  let length ← Decoder.word (α := UInt32)
  let body ← Decoder.take length.toNat
  match CodeTable.ofName? name with
  | some table =>
    if table.isRead options then Decoder.ofExcept (decodeTable ctx header marks body table)
    else return marks
  | none => return marks

/-! ### The whole attribute -/

/-- The offsets that instructions and exception ranges mention, in their order. -/
def mentions (code : List (Nat × Instruction)) (ranges : List ExceptionRange) : List Nat :=
  (code.flatMap fun (_, insn) => insn.targets.map Label.index)
    ++ ranges.flatMap fun r => [r.start.index, r.finish.index, r.handler.index]

/-- Put a body together, once all its tables are read. -/
def assemble (maxStack maxLocals : UInt16) (length : Nat) (code : List (Nat × Instruction))
    (ranges : List ExceptionRange) (marks : Marks) : Except Failure Code :=
  match marks.strayOffset? length (code.map (·.1)) with
  | some offset => .error (.malformed (.labelOffBoundary offset))
  | none =>
    let numbering := Numbering.ofMentions marks.mentioned.reverse
    .ok
      { maxStack, maxLocals
        instructions := marks.sequence numbering length code
        handlers := ranges.map (·.mapLabels numbering.label)
        localVariables := marks.variablesWithSignatures.map (·.mapLabels numbering.label) }

/-- The body in a `Code` attribute. -/
def decoder (pool : Pool) (bootstrap : BootstrapTable) (header : MethodHeader)
    (options : ReadOptions) : Decoder Code := do
  let maxStack ← Decoder.word
  let maxLocals ← Decoder.word
  let length ← Decoder.word (α := UInt32)
  if length == 0 || 65535 < length then Decoder.malformed (.codeLength length)
  else
    let bytes ← Decoder.take length.toNat
    let ctx : BytecodeContext := ⟨pool, bootstrap, length.toNat⟩
    let code ← Decoder.ofExcept (ctx.instructions bytes)
    let ranges ← Decoder.table (decodeRange ctx)
    let count ← Decoder.word (α := UInt16)
    let marks ← Decoder.iterate (decodeAttribute ctx header options) count.toNat
      (Marks.start (mentions code ranges).reverse)
    Decoder.ofExcept (assemble maxStack maxLocals length.toNat code ranges marks)

/-- The body that a `Code` attribute holds. -/
def decode (pool : Pool) (bootstrap : BootstrapTable) (header : MethodHeader)
    (options : ReadOptions) (bytes : Bytes) : Except Failure Code :=
  (decoder pool bootstrap header options).onBytes bytes

end Code

end ClassInstrument
