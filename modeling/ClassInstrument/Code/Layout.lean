import Std.Data.HashMap
import ClassInstrument.Code.Basic
import ClassInstrument.Code.Form

/-!
# Layout of encoded bodies

Where every instruction of a body starts.  A jump takes a two-byte distance unless it has been
widened; widening one jump moves what comes behind it, so jumps are widened until all distances
fit.

* `Item` — an instruction with what its length depends on;
* `Item.size` — the bytes it takes at an offset;
* `Layout.place` — the offsets of items one after the other, at most `Layout.maxLength` bytes;
* `Layout.widen` — the items with the jumps widened whose distance does not fit;
* `Layout.settle` — a layout in which every distance fits.  Only `goto` and `jsr` have a wide
  form; each round but the last widens one, so there are no more rounds than jumps.
-/

namespace ClassInstrument

/-- An instruction that is laid out. -/
structure Item where
  insn : Instruction
  /-- The constant pool index in its operand, if it has one. -/
  index : UInt16
  /-- Whether its distance takes four bytes. -/
  far : Bool
deriving Inhabited

/-- The zero bytes behind a switch opcode, up to the next multiple of four. -/
def switchPadding (offset : Nat) : Nat := (4 - (offset + 1) % 4) % 4

/-- Whether a number fits a signed byte. -/
def fitsByte (value : Int) : Bool := -128 ≤ value && value < 128

/-- Whether a number fits a signed two-byte word. -/
def fitsShort (value : Int) : Bool := -32768 ≤ value && value < 32768

namespace Item

/-- The bytes that an executable instruction takes at an offset. -/
def opSize (offset : Nat) (index : UInt16) (far : Bool) (opcode : Opcode) : Operand → Nat
  | .none => 1
  | .int _ => if opcode == Opcode.sipush then 3 else 2
  | .var v => if opcode != Opcode.ret && v ≤ 3 then 1 else if v ≤ 255 then 2 else 4
  | .increment v amount => if v ≤ 255 && fitsByte amount.toInt then 3 else 6
  | .load constant => if !constant.isWide && index ≤ 255 then 2 else 3
  | .type _ | .field _ => 3
  | .method .. => if opcode == Opcode.invokeinterface then 5 else 3
  | .invokeDynamic _ => 5
  | .multiArray .. => 4
  | .jump _ => if far then 5 else 3
  | .tableSwitch _ _ _ targets => 1 + switchPadding offset + 12 + 4 * targets.length
  | .lookupSwitch _ pairs => 1 + switchPadding offset + 8 + 8 * pairs.length

/-- The bytes that an item takes at an offset; marks take none. -/
def size (offset : Nat) (item : Item) : Nat :=
  match item.insn with
  | .op opcode operand => opSize offset item.index item.far opcode operand
  | _ => 0

end Item

/-- An item with its offset. -/
abbrev Placed := Nat × Item

/-- The offsets of labels. -/
abbrev LabelTable := Std.HashMap Label Nat

/-- Where every item of a body is. -/
structure Layout where
  placed : List Placed
  /-- The length of the code. -/
  length : Nat
deriving Inhabited

namespace Layout

/-- No body has more bytes than this. -/
def maxLength : Nat := 65535

/-! ### Offsets -/

/-- Place items from an offset on, behind those already placed (last first). -/
def placeOnto (offset : Nat) (placed : List Placed) : List Item → Except Failure Layout
  | [] => .ok ⟨placed.reverse, offset⟩
  | item :: items =>
    let next := offset + item.size offset
    if maxLength < next then .error (.encoding (.bodyTooLong next))
    else placeOnto next ((offset, item) :: placed) items

/-- Place items one after the other. -/
def place (items : List Item) : Except Failure Layout := placeOnto 0 [] items

/-- The offset of every label; a label that is placed several times counts where it is placed
last. -/
def labels (layout : Layout) : LabelTable :=
  layout.placed.foldl (fun table (offset, item) =>
    match item.insn with
    | .label l => table.insert l offset
    | _ => table) ∅

end Layout

namespace LabelTable

/-- The offset of a label that has to be placed. -/
def offset (table : LabelTable) (label : Label) : Except Failure Nat :=
  match table[label]? with
  | some offset => .ok offset
  | none => .error (.encoding (.unplacedLabel label))

/-- How far a label is from an offset. -/
def distance (table : LabelTable) (source : Nat) (label : Label) : Except Failure Int := do
  let target ← table.offset label
  .ok ((target : Int) - source)

end LabelTable

namespace Layout

/-! ### Widening -/

/-- Widen one jump, if it is none of the wide ones and its distance needs it. -/
def widenItem (labels : LabelTable) : Placed → Except Failure Item
  | (offset, ⟨.op opcode (.jump target), index, false⟩) => do
    let distance ← labels.distance offset target
    if fitsShort distance then .ok ⟨.op opcode (.jump target), index, false⟩
    else if opcode == Opcode.goto || opcode == Opcode.jsr then
      .ok ⟨.op opcode (.jump target), index, true⟩
    else .error (.encoding (.branchTooFar distance (.op opcode (.jump target))))
  | (_, item) => .ok item

/-- Widen the jumps whose distance does not fit. -/
def widen (layout : Layout) : Except Failure (List Item) :=
  let labels := layout.labels
  layout.placed.mapM (widenItem labels)

/-- How many items are not widened. -/
def narrowCount (items : List Item) : Nat := items.countP (!·.far)

/-- Widen and lay out again until nothing changes. -/
def settle (items : List Item) : Except Failure Layout :=
  match place items with
  | .error e => .error e
  | .ok layout =>
    match layout.widen with
    | .error e => .error e
    | .ok widened =>
      if narrowCount widened < narrowCount items then settle widened else .ok layout
termination_by narrowCount items

end Layout

end ClassInstrument
