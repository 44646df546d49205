import Std.Data.HashMap
import ClassInstrument.Code.Basic

/-!
# Marks between instructions

Tables of a method body refer to byte offsets.  Once all of them are read, the offsets that were
mentioned become labels, numbered in the order in which they were mentioned first, and labels,
lines and frames are put in front of the instructions they belong to.

* `Numbering` — the labels of the offsets mentioned so far;
* `Marks` — what the tables of a body say, in terms of offsets;
* `Marks.variablesWithSignatures` — the variables, each with its generic signature;
* `Marks.strayOffset?` — the first mentioned offset where no instruction starts;
* `Marks.sequence` — the instructions with their marks.
-/

namespace ClassInstrument

/-! ### Labels for offsets -/

/-- The label numbers of offsets. -/
abbrev Numbering := Std.HashMap Nat Nat

namespace Numbering

/-- Give an offset the next number, unless it has one. -/
def mention (numbering : Numbering) (offset : Nat) : Numbering :=
  numbering.insertIfNew offset numbering.size

/-- The numbering of offsets in the order of their first mention. -/
def ofMentions (offsets : List Nat) : Numbering := offsets.foldl mention ∅

/-- The label of an offset that was mentioned. -/
def label (numbering : Numbering) (offset : Label) : Label := ⟨numbering.getD offset.index 0⟩

end Numbering

/-! ### What the tables say -/

/-- A scope and slot, by which entries of the two tables of local variables are matched. -/
abbrev VariableKey := UInt16 × UInt16 × UInt16

/-- What the tables behind the code say; labels are byte offsets, lists are last first. -/
structure Marks where
  /-- The offsets that were mentioned. -/
  mentioned : List Nat
  /-- Offsets with the source lines that start there. -/
  lines : List (Nat × UInt16)
  /-- Frames by their offset. -/
  frames : List (Nat × Frame)
  /-- Local variables with start, length and slot. -/
  localVariables : List (VariableKey × LocalVariable)
  /-- Generic signatures by start, length and slot; a later one replaces an earlier one. -/
  signatures : Std.HashMap VariableKey String

namespace Marks

/-- Only the offsets that instructions and exception ranges mention, last first. -/
def start (mentioned : List Nat) : Marks := ⟨mentioned, [], [], [], ∅⟩

/-- Take the signature of a variable out of those not used yet. -/
def takeSignature (state : Std.HashMap VariableKey String × List LocalVariable)
    (entry : VariableKey × LocalVariable) : Std.HashMap VariableKey String × List LocalVariable :=
  let (signatures, settled) := state
  let (key, found) := entry
  (signatures.erase key, { found with signature := signatures[key]? } :: settled)

/-- The variables in the order of their table.  A signature goes to the first variable of its
scope and slot only. -/
def variablesWithSignatures (m : Marks) : List LocalVariable :=
  (m.localVariables.reverse.foldl takeSignature (m.signatures, [])).2.reverse

/-- The lines that start at each offset, in the order of their tables. -/
def linesByOffset (m : Marks) : Std.HashMap Nat (List UInt16) :=
  m.lines.foldl
    (fun map (offset, line) => map.insert offset (line :: map.getD offset [])) ∅

/-- The smallest offset that was mentioned though no instruction starts there; the end of the
code is no such offset. -/
def strayOffset? (m : Marks) (length : Nat) (starts : List Nat) : Option Nat :=
  let boundaries := Std.HashSet.ofList starts
  (m.mentioned.filter fun offset => offset != length && !boundaries.contains offset).min?

/-! ### Putting a body together -/

/-- The label, lines and frame in front of an offset; only offsets that were mentioned can have
lines or a frame. -/
def marksAt (numbering : Numbering) (lines : Std.HashMap Nat (List UInt16))
    (frames : Std.HashMap Nat Frame) (offset : Nat) : List Instruction :=
  match numbering[offset]? with
  | none => []
  | some number =>
    .label ⟨number⟩ :: (lines.getD offset []).map (Instruction.line · ⟨number⟩)
      ++ (frames[offset]?.map fun frame => .frame (frame.mapLabels numbering.label)).toList

/-- The instructions with their marks in front of them, and the label at the end of the code. -/
def sequence (m : Marks) (numbering : Numbering) (length : Nat)
    (code : List (Nat × Instruction)) : Sequence :=
  let lines := m.linesByOffset
  let frames := Std.HashMap.ofList m.frames
  let body := code.flatMap fun (offset, insn) =>
    marksAt numbering lines frames offset ++ [insn.mapLabels numbering.label]
  let finish := (numbering[length]?.map fun number => Instruction.label ⟨number⟩).toList
  Sequence.ofList (body ++ finish) numbering.size

end Marks

end ClassInstrument
