import Std.Data.HashMap
import ClassInstrument.Code.Basic

/-!
# Bodies as steps

Control flow goes from one executable instruction to the next; marks only say where labels are.
An analysis sees a body as its executable instructions by number, each with the marks in front
of it.

* `Step` — an executable instruction with its marks;
* `Steps` — a whole body; `Steps.toList_ofList` says that nothing is lost;
* `Steps.positions` — the number of the step that each label stands before.
-/

namespace ClassInstrument

/-- An executable instruction and the marks in front of it. -/
structure Step where
  marks : List Instruction
  opcode : Opcode
  operand : Operand
deriving Inhabited

/-- The instruction without its marks. -/
def Step.insn (s : Step) : Instruction := .op s.opcode s.operand

/-- A body as its executable instructions. -/
structure Steps where
  steps : List Step
  /-- The marks behind the last instruction. -/
  tail : List Instruction
deriving Inhabited

/-- For each label the number of the step it stands before; a label at the end of the body has
the number of all steps. -/
abbrev Positions := Std.HashMap Label Nat

namespace Steps

/-- Steps and marks already seen (last first), and the instructions behind them. -/
def split (steps : List Step) (marks : List Instruction) : List Instruction → Steps
  | [] => ⟨steps.reverse, marks.reverse⟩
  | .op opcode operand :: rest => split (⟨marks.reverse, opcode, operand⟩ :: steps) [] rest
  | mark :: rest => split steps (mark :: marks) rest

/-- The steps of a body. -/
def ofList (insns : List Instruction) : Steps := split [] [] insns

/-- The instructions of a body. -/
def toList (s : Steps) : List Instruction :=
  s.steps.flatMap (fun step => step.marks ++ [step.insn]) ++ s.tail

theorem toList_split (steps : List Step) (marks insns : List Instruction) :
    (split steps marks insns).toList
      = (steps.reverse.flatMap fun step => step.marks ++ [step.insn]) ++ marks.reverse ++ insns := by
  fun_induction split steps marks insns <;> simp_all [toList, Step.insn]

/-- Nothing is lost. -/
@[simp] theorem toList_ofList (insns : List Instruction) : (ofList insns).toList = insns := by
  simp [ofList, toList_split]

/-! ### Labels -/

/-- The labels that some marks place. -/
def labelsOf (marks : List Instruction) : List Label := marks.filterMap Instruction.label?

/-- Give labels a position, in place of one they had. -/
def placeAll (position : Nat) (table : Positions) (marks : List Instruction) : Positions :=
  (labelsOf marks).foldl (fun table label => table.insert label position) table

/-- The positions of all labels; a label that is placed several times counts where it is placed
last. -/
def positions (s : Steps) : Positions :=
  let (count, table) := s.steps.foldl
    (fun (count, table) step => (count + 1, placeAll count table step.marks)) (0, ∅)
  placeAll count table s.tail

end Steps

/-- The position of a label that has to be placed. -/
def Positions.get (positions : Positions) (label : Label) : Except Failure Nat :=
  match positions[label]? with
  | some position => .ok position
  | none => .error (.encoding (.unplacedLabel label))

end ClassInstrument
