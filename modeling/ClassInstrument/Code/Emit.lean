import ClassInstrument.Bytes.Basic
import ClassInstrument.Code.Layout

/-!
# Writing bytecode

The bytes of single instructions, in their shortest form.

* `Item.bytes` — the bytes of an item at an offset; the operand has to be one that the form of
  the opcode takes;
* `Layout.code` — the bytes of a whole body.
-/

namespace ClassInstrument

namespace Item

/-- The operand is none that the opcode takes. -/
def mismatch {α : Type} (insn : Instruction) : Except Failure α :=
  .error (.encoding (.operandMismatch insn))

/-- The shorter opcode that tells a low variable by itself: four for each of the five types. -/
def shortOpcode (opcode : Opcode) (index : UInt16) : Opcode :=
  (if opcode ≤ Opcode.aload then Opcode.iload0 + (opcode - Opcode.iload) * 4
    else Opcode.istore0 + (opcode - Opcode.istore) * 4) + index.toUInt8

/-- The access of a variable. -/
def variableBytes (opcode : Opcode) (index : UInt16) : Bytes :=
  if opcode != Opcode.ret && index ≤ 3 then [shortOpcode opcode index]
  else if index ≤ 255 then [opcode, index.toUInt8]
  else Opcode.wide :: opcode :: Word.encode index

/-- The addition to a variable. -/
def incrementBytes (index : UInt16) (amount : Int16) : Bytes :=
  if index ≤ 255 && fitsByte amount.toInt then
    Opcode.iinc :: index.toUInt8 :: Word.encode amount.toInt8
  else Opcode.wide :: Opcode.iinc :: (Word.encode index ++ Word.encode amount)

/-- The load of a constant. -/
def loadBytes (constant : Constant) (index : UInt16) : Bytes :=
  if constant.isWide then Opcode.ldc2W :: Word.encode index
  else if index ≤ 255 then [Opcode.ldc, index.toUInt8]
  else Opcode.ldcW :: Word.encode index

/-- The distance of a label in four bytes. -/
def farBytes (labels : LabelTable) (offset : Nat) (target : Label) : Except Failure Bytes := do
  let distance ← labels.distance offset target
  .ok (Word.encode (Int32.ofInt distance))

/-- A jump in one of its two forms. -/
def jumpBytes (labels : LabelTable) (offset : Nat) (far : Bool) (opcode : Opcode)
    (target : Label) : Except Failure Bytes := do
  let distance ← labels.distance offset target
  if far then
    let wide := if opcode == Opcode.goto then Opcode.gotoW else Opcode.jsrW
    .ok (wide :: Word.encode (Int32.ofInt distance))
  else .ok (opcode :: Word.encode (Int16.ofInt distance))

/-- The opcode of a switch and the zeros behind it. -/
def switchHead (opcode : Opcode) (offset : Nat) : Bytes :=
  opcode :: List.replicate (switchPadding offset) 0

/-- A switch with a target for every key of a range. -/
def tableBytes (labels : LabelTable) (offset : Nat) (default : Label) (low high : Int32)
    (targets : List Label) : Except Failure Bytes :=
  if high.toInt - low.toInt + 1 ≠ targets.length then
    .error (.encoding (.tableTargets low high targets.length))
  else do
    let default ← farBytes labels offset default
    let entries ← targets.mapM (farBytes labels offset)
    .ok (switchHead Opcode.tableswitch offset ++ default ++ Word.encode low ++ Word.encode high
      ++ entries.flatten)

/-- A switch with pairs of keys and targets, in the order of the keys. -/
def lookupBytes (labels : LabelTable) (offset : Nat) (default : Label)
    (pairs : List (Int32 × Label)) : Except Failure Bytes := do
  let default ← farBytes labels offset default
  let sorted := pairs.mergeSort fun a b => a.1 ≤ b.1
  let entries ← sorted.mapM fun (key, target) =>
    (farBytes labels offset target).map (Word.encode key ++ ·)
  .ok (switchHead Opcode.lookupswitch offset ++ default
    ++ Word.encode (Int32.ofNat pairs.length) ++ entries.flatten)

/-- The call of an interface method, which repeats the number of argument slots, added in two bytes
to that of the receiver. -/
def interfaceBytes (opcode : Opcode) (member : MemberRef) (index : UInt16) :
    Except Failure Bytes := do
  let type ← methodType member.desc
  let slots := (type.argumentSlots + 1).toNat
  if slots < 256 then .ok (opcode :: Word.encode index ++ [UInt8.ofNat slots, 0])
  else .error (.encoding (.tooManyArguments member))

/-- The bytes of an executable instruction at an offset. -/
def opBytes (labels : LabelTable) (offset : Nat) (index : UInt16) (far : Bool) (opcode : Opcode)
    (operand : Operand) : Except Failure Bytes :=
  match opcode.form?, operand with
  | some .signedByte, .int value =>
    if fitsByte value.toInt then .ok (opcode :: Word.encode value.toInt8)
    else .error (.encoding (.byteRange value))
  | some .signedShort, .int value =>
    if fitsShort value.toInt then .ok (opcode :: Word.encode value.toInt16)
    else .error (.encoding (.shortRange value))
  | some .elementType, .int value =>
    if 0 ≤ value.toInt && value.toInt < 256 then .ok [opcode, UInt8.ofNat value.toInt.toNat]
    else mismatch (.op opcode operand)
  | some .narrowConstant, .load constant => .ok (loadBytes constant index)
  | some .variable, .var v => .ok (variableBytes opcode v)
  | some .increment, .increment v amount => .ok (incrementBytes v amount)
  | some .branch, .jump target => jumpBytes labels offset far opcode target
  | some .tableSwitch, .tableSwitch default low high targets =>
    tableBytes labels offset default low high targets
  | some .lookupSwitch, .lookupSwitch default pairs => lookupBytes labels offset default pairs
  | some .type, .type _ | some .field, .field _ | some .method, .method .. =>
    .ok (opcode :: Word.encode index)
  | some .interfaceMethod, .method member _ => interfaceBytes opcode member index
  | some .callSite, .invokeDynamic _ => .ok (opcode :: Word.encode index ++ [0, 0])
  | some .multiArray, .multiArray _ dims => .ok (opcode :: Word.encode index ++ [dims])
  | some .plain, .none | some (.shortVariable ..), .none | none, .none => .ok [opcode]
  | _, _ => mismatch (.op opcode operand)

/-- The bytes of an item at an offset; marks have none. -/
def bytes (labels : LabelTable) : Placed → Except Failure Bytes
  | (offset, ⟨.op opcode operand, index, far⟩) =>
    opBytes labels offset index far opcode operand
  | _ => .ok []

end Item

/-- The bytes of a body that is laid out. -/
def Layout.code (layout : Layout) : Except Failure Bytes := do
  let labels := layout.labels
  let chunks ← layout.placed.mapM (Item.bytes labels)
  .ok chunks.flatten

end ClassInstrument
