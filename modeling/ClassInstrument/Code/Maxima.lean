import ClassInstrument.Code.StackEffect
import ClassInstrument.Code.Steps

/-!
# Sizes of the operand stack and of the locals

How many slots a body needs, found by following every path through it once.

* `DepthSearch` — the depths found so far, and where to go on;
* `DepthSearch.run` — go on until nothing is left: every round either gives a depth to a step that
  had none, or drops a path that joins a known one;
* `Code.stackSize` — the greatest depth, starting at 0 and at 1 in every handler;
* `Code.localSize` — the slots of the arguments and of every variable that is used.
-/

namespace ClassInstrument

/-- A body as the search sees it. -/
structure DepthGraph where
  steps : Array Step
  positions : Positions

/-- The depths found so far. -/
structure DepthSearch where
  /-- The depth before each step that was reached. -/
  depths : Array (Option Nat)
  /-- Steps to go on with, and the depths they are reached with; the last one found comes
  first. -/
  paths : List (Nat × Nat)
  greatest : Nat

namespace DepthSearch

/-- No operand stack is deeper than this. -/
def limit : Nat := 65535

/-- The depths before and after a step. -/
def depthAfter (step : Step) (depth : Nat) : Except Failure Nat := do
  let effect ← stackEffect step.opcode step.operand
  if depth < effect.pop then .error (.encoding (.underflowAt step.insn))
  else if limit < depth - effect.pop + effect.push then .error (.encoding .stackTooDeep)
  else .ok (depth - effect.pop + effect.push)

/-- Where control goes on behind a step that leaves a depth: behind it first, then at its targets
from the last to the first.  The return address of a subroutine is gone when it comes back. -/
def successors (g : DepthGraph) (position : Nat) (step : Step) (depth : Nat) :
    Except Failure (List (Nat × Nat)) := do
  let targets ← step.operand.targets.mapM g.positions.get
  let next :=
    if step.opcode.isUnconditional then []
    else [(position + 1, if step.opcode == Opcode.jsr then depth - 1 else depth)]
  .ok (next ++ (targets.map fun target => (target, depth)).reverse)

/-- The number of steps without a depth. -/
def unknownCount (depths : Array (Option Nat)) : Nat := depths.count none

/-- Each step whose depth becomes known leaves one fewer without a depth. -/
theorem unknownCount_set_lt {depths : Array (Option Nat)} {i depth : Nat} (h : i < depths.size)
    (unknown : depths[i] = none) : unknownCount (depths.set i (some depth) h) < unknownCount depths := by
  have positive : 0 < depths.count none := Array.count_pos_iff.2 (unknown ▸ Array.getElem_mem h)
  have before : ((none : Option Nat) == none) = true := rfl
  have after : (some depth == (none : Option Nat)) = false := rfl
  simp only [unknownCount, Array.count_set, unknown, before, after, Bool.false_eq_true, if_true,
    if_false]
  omega

/-- Follow all paths. -/
def run (g : DepthGraph) (s : DepthSearch) : Except Failure DepthSearch :=
  match s with
  | ⟨depths, paths, greatest⟩ =>
  match paths with
  | [] => .ok ⟨depths, [], greatest⟩
  | (position, depth) :: rest =>
    if h : position < depths.size then
      if unknown : depths[position] = none then
        match g.steps[position]? with
        | none => run g ⟨depths.set position (some depth), rest, greatest⟩
        | some step =>
          match depthAfter step depth with
          | .error e => .error e
          | .ok after =>
            match successors g position step after with
            | .error e => .error e
            | .ok found =>
              run g ⟨depths.set position (some depth), found ++ rest, max greatest after⟩
      else run g ⟨depths, rest, greatest⟩
    else run g ⟨depths, rest, greatest⟩
termination_by (unknownCount s.depths, s.paths.length)
decreasing_by
  · exact Prod.Lex.left _ _ (unknownCount_set_lt h unknown)
  · exact Prod.Lex.left _ _ (unknownCount_set_lt h unknown)
  · exact Prod.Lex.right _ (Nat.lt_succ_self _)
  · exact Prod.Lex.right _ (Nat.lt_succ_self _)

end DepthSearch

namespace Code

/-- The slots that the operand stack of a body needs. -/
def stackSize (code : Code) : Except Failure Nat := do
  let view := Steps.ofList code.instructions.toList
  let g : DepthGraph := ⟨view.steps.toArray, view.positions⟩
  let handlers ← code.handlers.mapM fun r => g.positions.get r.handler
  let result ← DepthSearch.run g
    { depths := Array.replicate g.steps.size none
      paths := (handlers.map fun position => (position, 1)).reverse ++ [(0, 0)]
      greatest := if handlers.isEmpty then 0 else 1 }
  .ok result.greatest

/-- The first slot behind the variable that an instruction uses. -/
def slotsUsed : Instruction → Option Nat
  | .op opcode (.var index) =>
    let wide := [Opcode.lload, Opcode.dload, Opcode.lstore, Opcode.dstore].contains opcode
    some (index.toNat + if wide then 2 else 1)
  | .op _ (.increment index _) => some (index.toNat + 1)
  | _ => none

/-- The slots that the locals of a method need.  Those of the receiver and the arguments are added
in two bytes. -/
def localSize (header : MethodHeader) (instructions : List Instruction) : Except Failure Nat := do
  let type ← methodType header.desc
  let arguments := (type.argumentSlots + if header.access.isStatic then 0 else 1).toNat
  let used := instructions.filterMap slotsUsed
  if used.any (65535 < ·) then .error (.encoding .tooManyLocals)
  else .ok (used.foldl max arguments)

/-- Both sizes, the operand stack first. -/
def sizes (header : MethodHeader) (code : Code) : Except Failure (Nat × Nat) := do
  let stack ← code.stackSize
  let locals ← localSize header code.instructions.toList
  .ok (stack, locals)

/-- The body with the sizes that it needs. -/
def withSizes (header : MethodHeader) (code : Code) : Except Failure Code := do
  let (stack, locals) ← code.sizes header
  .ok { code with maxStack := UInt16.ofNat stack, maxLocals := UInt16.ofNat locals }

end Code

end ClassInstrument
