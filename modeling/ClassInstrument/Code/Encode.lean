import ClassInstrument.ClassFile.Basic
import ClassInstrument.Code.Emit

/-!
# Encoding method bodies

The `Code` attribute of a method: the constants that instructions refer to are added first, then
the body is laid out and written, and the tables refer to the offsets of its labels.

* `Code.resolve` — the instructions with the constant pool indices in their operands;
* `Assembly` — the bytes of a body with the offsets of labels and frames;
* `Code.encode` — the whole attribute.  Exception ranges without instructions are left out, and
  every frame is written in full.
-/

namespace ClassInstrument

/-! ### References to constants -/

/-- The constant pool index in an operand; 0 for one that has none. -/
def Operand.addConstants : Operand → Builder UInt16
  | .load constant => Builder.addConstant constant
  | .type name => Builder.addClass name
  | .field member => Builder.addFieldRef member
  | .method member onInterface => Builder.addMethodRef member onInterface
  | .invokeDynamic call => Builder.addInvokeDynamic call
  | .multiArray desc _ => Builder.addClass desc
  | _ => pure 0

/-- An instruction as it is laid out at first, with a narrow distance. -/
def Instruction.toItem (insn : Instruction) : Builder Item := do
  let index ← match insn with
    | .op _ operand => operand.addConstants
    | _ => pure 0
  return ⟨insn, index, false⟩

/-- A body that is laid out and written. -/
structure Assembly where
  bytes : Bytes
  labels : LabelTable
  /-- The frames by their offset, in ascending order. -/
  frames : List (Nat × Frame)

namespace Assembly

/-- Add a frame; of several frames at an offset the last one counts. -/
def keepLast (frames : List (Nat × Frame)) (offset : Nat) (frame : Frame) :
    List (Nat × Frame) :=
  match frames with
  | (known, other) :: rest =>
    if known == offset then (offset, frame) :: rest else (offset, frame) :: (known, other) :: rest
  | [] => [(offset, frame)]

/-- The frames of a layout.  One behind the last instruction is left out. -/
def framesOf (layout : Layout) : List (Nat × Frame) :=
  let frames := layout.placed.foldl (fun frames (offset, item) =>
    match item.insn with
    | .frame frame => if offset < layout.length then keepLast frames offset frame else frames
    | _ => frames) []
  frames.reverse

/-- Write a body that is laid out. -/
def ofLayout (layout : Layout) : Except Failure Assembly := do
  let bytes ← layout.code
  .ok ⟨bytes, layout.labels, framesOf layout⟩

/-- Lay a body out and write it. -/
def ofItems (items : List Item) : Except Failure Assembly := do
  let layout ← Layout.settle items
  ofLayout layout

end Assembly

/-! ### Attributes -/

-- Powers of numbers are those of the core library, whatever algebra is imported beside them.
attribute [local instance (high)] instPowNat

/-- The bytes of some attributes, their count in front. -/
def Attribute.encodeAll (attributes : List Attribute) : Builder Bytes := do
  let count ← Builder.count "attributes" attributes.length
  let body ← Builder.concat (fun a => do
    let name ← Builder.addUtf8 a.name
    if a.body.length < 2 ^ (32 : Nat) then
      return Word.encode name ++ Word.encode (UInt32.ofNat a.body.length) ++ a.body
    else throw (.encoding (.attributeTooLong a.name))) attributes
  return count ++ body

namespace Code

/-! ### Tables -/

/-- A label as a two-byte offset. -/
def offsetBytes (offset : Nat) : Bytes := Bytes.ofNat 2 offset

/-- An exception range; nothing if it has no instructions. -/
def encodeRange (labels : LabelTable) (r : ExceptionRange) : Builder (Option Bytes) := do
  let start ← Builder.ofExcept (labels.offset r.start)
  let finish ← Builder.ofExcept (labels.offset r.finish)
  if finish ≤ start then return none
  else
    let handler ← Builder.ofExcept (labels.offset r.handler)
    let catchType ← Builder.addOptionalClass r.catchType
    return some (offsetBytes start ++ offsetBytes finish ++ offsetBytes handler
      ++ Word.encode catchType)

/-- The exception ranges with their count. -/
def encodeRanges (labels : LabelTable) (ranges : List ExceptionRange) : Builder Bytes := do
  let rows ← ranges.mapM (encodeRange labels)
  let rows := rows.filterMap id
  let count ← Builder.count "exception handlers" rows.length
  return count ++ rows.flatten

/-- The line marks of a body. -/
def lines (instructions : List Instruction) : List (UInt16 × Label) :=
  instructions.filterMap fun
    | .line number start => some (number, start)
    | _ => none

/-- The table of source lines, if there are any. -/
def encodeLines (labels : LabelTable) (instructions : List Instruction) :
    Builder (List Attribute) := do
  let rows ← Builder.ofExcept ((lines instructions).mapM fun (number, start) =>
    (labels.offset start).map fun offset => offsetBytes offset ++ Word.encode number)
  if rows.isEmpty then return []
  else
    let count ← Builder.count "line numbers" rows.length
    return [⟨"LineNumberTable", count ++ rows.flatten⟩]

/-- The rows of a local variable in the two tables, the second only for a generic one. -/
def encodeVariable (labels : LabelTable) (v : LocalVariable) : Builder (Bytes × Option Bytes) := do
  let start ← Builder.ofExcept (labels.offset v.start)
  let finish ← Builder.ofExcept (labels.offset v.finish)
  if finish < start then throw (.encoding (.variableBackwards v.name))
  else
    let scope := offsetBytes start ++ offsetBytes (finish - start)
    let name ← Builder.addUtf8 v.name
    let desc ← Builder.addUtf8 v.desc
    let row := scope ++ Word.encode name ++ Word.encode desc ++ Word.encode v.index
    match v.signature with
    | none => return (row, none)
    | some text =>
      let signature ← Builder.addUtf8 text
      return (row, some
        (scope ++ Word.encode name ++ Word.encode signature ++ Word.encode v.index))

/-- The two tables of local variables, as far as there is something in them. -/
def encodeVariables (labels : LabelTable) (localVariables : List LocalVariable) :
    Builder (List Attribute) := do
  if localVariables.isEmpty then return []
  else
    let count ← Builder.count "local variables" localVariables.length
    let rows ← localVariables.mapM (encodeVariable labels)
    let table : Attribute := ⟨"LocalVariableTable", count ++ (rows.map (·.1)).flatten⟩
    let generic := rows.filterMap (·.2)
    if generic.isEmpty then return [table]
    else
      let count ← Builder.count "local variable types" generic.length
      return [table, ⟨"LocalVariableTypeTable", count ++ generic.flatten⟩]

/-! ### Frames -/

/-- The tag byte of a verification type and what follows it. -/
def encodeType (labels : LabelTable) : VerificationType → Builder Bytes
  | .top => pure [0]
  | .integer => pure [1]
  | .float => pure [2]
  | .double => pure [3]
  | .long => pure [4]
  | .null => pure [5]
  | .uninitializedThis => pure [6]
  | .object name => do
    let index ← Builder.addClass name
    return 7 :: Word.encode index
  | .uninitialized site => do
    let offset ← Builder.ofExcept (labels.offset site)
    return 8 :: offsetBytes offset

/-- A full frame behind its distance from the one before. -/
def encodeFrame (labels : LabelTable) (delta : Nat) (frame : Frame) : Builder Bytes := do
  let localCount ← Builder.count "frame locals" frame.locals.length
  let locals ← Builder.concat (encodeType labels) frame.locals
  let stackCount ← Builder.count "frame stack entries" frame.stack.length
  let stack ← Builder.concat (encodeType labels) frame.stack
  return 255 :: offsetBytes delta ++ localCount ++ locals ++ stackCount ++ stack

/-- The distance of a frame from the one before: the first is counted from the start of the code,
every other one from the instruction behind the frame before it. -/
def delta (previous : Option Nat) (offset : Nat) : Nat :=
  match previous with
  | none => offset
  | some known => offset - known - 1

/-- Frames with their distances. -/
def withDeltas (frames : List (Nat × Frame)) : List (Nat × Frame) :=
  List.zipWith (fun previous (offset, frame) => (delta previous offset, frame))
    (none :: frames.map fun (offset, _) => some offset) frames

/-- The oldest version with stack map frames. -/
def firstMajorWithFrames : UInt16 := 50

/-- The table of frames, if there are any and the version has them. -/
def encodeFrames (labels : LabelTable) (major : UInt16) (frames : List (Nat × Frame)) :
    Builder (List Attribute) := do
  if major < firstMajorWithFrames || frames.isEmpty then return []
  else
    let count ← Builder.count "stack map frames" frames.length
    let body ← Builder.concat (fun (delta, frame) => encodeFrame labels delta frame)
      (withDeltas frames)
    return [⟨"StackMapTable", count ++ body⟩]

/-! ### The whole attribute -/

/-- The bytes of the `Code` attribute in a class of a given version. -/
def encode (major : UInt16) (code : Code) : Builder Bytes := do
  let instructions := code.instructions.toList
  let items ← instructions.mapM Instruction.toItem
  let assembly ← Builder.ofExcept (Assembly.ofItems items)
  let labels := assembly.labels
  let ranges ← encodeRanges labels code.handlers
  let lines ← encodeLines labels instructions
  let localVariables ← encodeVariables labels code.localVariables
  let frames ← encodeFrames labels major assembly.frames
  let attributes ← Attribute.encodeAll (lines ++ localVariables ++ frames)
  return Word.encode code.maxStack ++ Word.encode code.maxLocals
    ++ Word.encode (UInt32.ofNat assembly.bytes.length) ++ assembly.bytes
    ++ ranges ++ attributes

end Code

end ClassInstrument
