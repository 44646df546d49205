import Std.Data.HashSet
import ClassInstrument.Typing.Solve

/-!
# Computing stack map frames

A body with frames made anew from its typing: one at every target of a jump or handler and behind
every instruction that control does not pass.  Instructions that are never reached are replaced by
ones that can be typed, and taken out of the exception ranges.

* `TypingProblem.ofCode` — the problem to solve for a method;
* `FramePlan` — what the typing says about a body: where frames go, and what is dead;
* `FramePlan.instructions` — the new body;
* `DeadRun.cutAll` — the parts of a range outside of dead runs;
* `Code.withFrames` — all of it.
-/

namespace ClassInstrument

/-- The class of everything that can be thrown. -/
def throwableClass : String := "java/lang/Throwable"

/-- Whether an instruction is a frame. -/
def Instruction.isFrame : Instruction → Bool
  | .frame _ => true
  | _ => false

/-! ### The problem -/

namespace TypingProblem

/-- An exception range in terms of steps. -/
def handlerRange (positions : Positions) (size : Nat) (r : ExceptionRange) :
    Except Failure HandlerRange := do
  let start ← positions.get r.start
  let finish ← positions.get r.finish
  let target ← positions.get r.handler
  if target < size then
    .ok ⟨start, finish, target, .object (r.catchType.getD throwableClass)⟩
  else .error (.encoding (.labelAtEnd r.handler))

/-- The problem that a body poses. -/
def ofSteps (hierarchy : Hierarchy) (owner : String) (view : Steps)
    (ranges : List ExceptionRange) : Except Failure TypingProblem := do
  let positions := view.positions
  let steps := view.steps.toArray
  let handlers ← ranges.mapM (handlerRange positions steps.size)
  .ok ⟨⟨owner, steps⟩, hierarchy, positions, handlers⟩

/-- The state at the start of a method with a number of local slots.  The slots of the entry frame
are cut off or filled up to that number. -/
def entryState (header : MethodHeader) (locals : Nat) : Except Failure State := do
  let frame ← header.entryFrame
  let slots := Slot.expand (frame.locals.map Slot.declared)
  .ok ⟨slots.take locals ++ List.replicate (locals - slots.length) .top, []⟩

/-- The steps that need a frame because of one step. -/
def pointsOf (p : TypingProblem) (position : Nat) (step : Step) : Except Failure (List Nat) := do
  let targets ← step.operand.targets.mapM p.target
  let behind := step.opcode.isUnconditional && position + 1 < p.size
  .ok (if behind then targets ++ [position + 1] else targets)

/-- The steps that need a frame, if they are reached. -/
def points (p : TypingProblem) : Except Failure (List Nat) := do
  let found ← p.context.steps.toList.zipIdx.mapM fun (step, position) => p.pointsOf position step
  .ok (found.flatten ++ p.handlers.map HandlerRange.target)

end TypingProblem

/-! ### Dead runs -/

/-- Neighbouring steps that are never reached. -/
structure DeadRun where
  start : Nat
  /-- The first step behind the run. -/
  finish : Nat
deriving DecidableEq, Inhabited, Repr

namespace DeadRun

/-- Extend the runs found so far (last first) by a dead step. -/
def extend (runs : List DeadRun) (position : Nat) : List DeadRun :=
  match runs with
  | ⟨start, finish⟩ :: rest =>
    if finish = position then ⟨start, position + 1⟩ :: rest
    else ⟨position, position + 1⟩ :: ⟨start, finish⟩ :: rest
  | [] => [⟨position, position + 1⟩]

/-- The maximal runs of dead steps. -/
def all (states : Array (Option State)) : List DeadRun :=
  let dead := (states.toList.zipIdx.filter (·.1.isNone)).map (·.2)
  (dead.foldl extend []).reverse

/-- The parts of a range before and behind a run. -/
def cut (run : DeadRun) (range : Nat × Nat) : List (Nat × Nat) :=
  let (start, finish) := range
  let before := (start, min run.start finish)
  let behind := (max run.finish start, finish)
  [before, behind].filter fun (start, finish) => start < finish

/-- The parts of a range outside of all runs.  Without runs a range stays as it is. -/
def cutAll (runs : List DeadRun) (range : Nat × Nat) : List (Nat × Nat) :=
  runs.foldl (fun pieces run => pieces.flatMap run.cut) [range]

end DeadRun

/-! ### The plan -/

/-- What the typing says about a body. -/
structure FramePlan where
  /-- The states at the steps that get a frame, ascending. -/
  frames : List (Nat × State)
  dead : List DeadRun

namespace FramePlan

/-- The plan for a typing and the steps that need frames. -/
def ofTyping (t : Typing) (points : List Nat) : FramePlan :=
  let marked := Std.HashSet.ofList points
  { frames := t.states.toList.zipIdx.filterMap fun (state, position) =>
      if marked.contains position then state.map fun s => (position, s) else none
    dead := DeadRun.all t.states }

/-- The allocation site that a slot refers to. -/
def siteOf : Slot → Option Nat
  | .uninitialized site => some site.index
  | _ => none

/-- The allocation sites that frames refer to. -/
def sites (plan : FramePlan) : Std.HashSet Nat :=
  Std.HashSet.ofList
    (plan.frames.flatMap fun (_, state) => (state.locals ++ state.stack).filterMap siteOf)

/-- New labels for some steps, in their order, from a number on. -/
def label (first : Nat) (positions : List Nat) : Std.HashMap Nat Label :=
  Std.HashMap.ofList (positions.zipIdx.map fun (position, i) => (position, ⟨first + i⟩))

/-- The steps that create an object which a frame refers to. -/
def siteSteps (plan : FramePlan) (steps : Array Step) : List Nat :=
  let sites := plan.sites
  (steps.toList.zipIdx.filter fun (step, position) =>
    step.opcode == Opcode.new && sites.contains position).map (·.2)

/-- The ends of all dead runs. -/
def boundaries (plan : FramePlan) : List Nat :=
  plan.dead.flatMap fun run => [run.start, run.finish]

/-! ### Frames -/

/-- An entry of a frame, its allocation site as a label. -/
def entry (labels : Std.HashMap Nat Label) : Slot → Except Failure VerificationType
  | .uninitialized site =>
    match labels[site.index]? with
    | some label => .ok (.uninitialized label)
    | none => .error (.encoding .unknownSite)
  | type => .ok type

/-- Entries without the ones at the end that hold nothing. -/
def trim (entries : List VerificationType) : List VerificationType :=
  (entries.reverse.dropWhile (· = .top)).reverse

/-- The frame that a state is. -/
def frame (labels : Std.HashMap Nat Label) (s : State) : Except Failure Frame := do
  let locals ← (Slot.collapse s.locals).mapM (entry labels)
  let stack ← (Slot.collapse s.stack.reverse).mapM (entry labels)
  .ok ⟨trim locals, stack⟩

/-- The frame of a dead run: an exception that can be thrown. -/
def deadFrame : Frame := ⟨[], [.object throwableClass]⟩

/-! ### The new body -/

/-- What is put around the steps of a body. -/
structure Insertions where
  /-- Labels of allocation sites. -/
  sites : Std.HashMap Nat Label
  /-- Labels at the ends of dead runs. -/
  boundaries : Std.HashMap Nat Label
  frames : Std.HashMap Nat Frame
  /-- The dead steps; the last of each run throws. -/
  dead : Std.HashMap Nat Instruction

/-- The dead steps with what replaces them. -/
def replacements (run : DeadRun) : List (Nat × Instruction) :=
  (List.range' run.start (run.finish - run.start)).map fun position =>
    (position, .simple (if position + 1 = run.finish then Opcode.athrow else Opcode.nop))

/-- All insertions of a plan; new labels are numbered from the number of labels on. -/
def insertions (plan : FramePlan) (steps : Array Step) (labelCount : Nat) :
    Except Failure Insertions := do
  let siteSteps := plan.siteSteps steps
  let sites := label labelCount siteSteps
  let frames ← plan.frames.mapM fun (position, s) =>
    (frame sites s).map fun f => (position, f)
  .ok
    { sites
      boundaries := label (labelCount + siteSteps.length) plan.boundaries
      frames := Std.HashMap.ofList
        (frames ++ plan.dead.map fun run => (run.start, deadFrame))
      dead := Std.HashMap.ofList (plan.dead.flatMap replacements) }

/-- The label that a table gives to a step, as a mark. -/
def mark (labels : Std.HashMap Nat Label) (position : Nat) : List Instruction :=
  (labels[position]?.map Instruction.label).toList

/-- A step with its marks and the new ones: the end of a dead run before all marks, the label of
an allocation site and then a frame behind them. -/
def stepWith (ins : Insertions) (position : Nat) (step : Step) : List Instruction :=
  mark ins.boundaries position ++ step.marks ++ mark ins.sites position
    ++ (ins.frames[position]?.map Instruction.frame).toList
    ++ [ins.dead.getD position step.insn]

/-- The new body. -/
def instructions (ins : Insertions) (view : Steps) : List Instruction :=
  view.steps.zipIdx.flatMap (fun (step, position) => stepWith ins position step)
    ++ view.tail ++ mark ins.boundaries view.steps.length

/-! ### The new exception ranges -/

/-- The label at one end of a part of a range: the old one at its own end, otherwise the end of
a dead run. -/
def endLabel (boundaries : Std.HashMap Nat Label) (old : Label) (ownEnd position : Nat) :
    Except Failure Label :=
  if position = ownEnd then .ok old
  else
    match boundaries[position]? with
    | some label => .ok label
    | none => .error (.encoding .rangeSplit)

/-- The parts of an exception range that can be reached. -/
def splitRange (dead : List DeadRun) (boundaries : Std.HashMap Nat Label) (old : ExceptionRange)
    (r : HandlerRange) : Except Failure (List ExceptionRange) :=
  (DeadRun.cutAll dead (r.start, r.finish)).mapM fun (start, finish) => do
    let first ← endLabel boundaries old.start r.start start
    let last ← endLabel boundaries old.finish r.finish finish
    .ok { old with start := first, finish := last }

/-- The exception ranges of the new body. -/
def ranges (plan : FramePlan) (boundaries : Std.HashMap Nat Label) (old : List ExceptionRange)
    (resolved : List HandlerRange) : Except Failure (List ExceptionRange) :=
  if plan.dead.isEmpty then .ok old
  else do
    let pieces ← (old.zip resolved).mapM fun (old, r) => splitRange plan.dead boundaries old r
    .ok pieces.flatten

end FramePlan

/-! ### All of it -/

/-- Whether a method of a class gets frames at all. -/
def framesSupported (major : UInt16) (access : Access) : Bool :=
  50 ≤ major && !access.isBodiless

/-- The body with frames made anew, and with the sizes that it needs. -/
def Code.withFrames (hierarchy : Hierarchy) (header : MethodHeader) (code : Code) :
    Except Failure Code := do
  let insns := code.instructions.toList.filter (!·.isFrame)
  let locals ← Code.localSize header insns
  let view := Steps.ofList insns
  let problem ← TypingProblem.ofSteps hierarchy header.owner view code.handlers
  let entry ← TypingProblem.entryState header locals
  let typing ← problem.solve entry
  let points ← problem.points
  let plan := FramePlan.ofTyping typing points
  let ins ← plan.insertions problem.context.steps code.instructions.labelCount
  let handlers ← plan.ranges ins.boundaries code.handlers problem.handlers
  if 65535 < typing.height then .error (.encoding .stackTooDeep)
  else
    let labels := code.instructions.labelCount + ins.sites.size + ins.boundaries.size
    .ok { code with
      maxStack := UInt16.ofNat (if plan.dead.isEmpty then typing.height else max typing.height 1)
      maxLocals := UInt16.ofNat locals
      instructions := Sequence.ofList (FramePlan.instructions ins view) labels
      handlers }

end ClassInstrument
