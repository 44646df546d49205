import ClassInstrument.Code.Maxima
import ClassInstrument.Typing.Merge
import ClassInstrument.Typing.Transfer

/-!
# Typing whole bodies

The states before all instructions that control can reach.  Starting from the entry, an instruction
is executed whenever the state before it has changed, and the state behind it is merged into what
is known wherever control goes on.

* `TypingProblem` — a body with the positions of its labels and exception ranges;
* `Typing` — the states known so far, and the instructions to execute again;
* `TypingProblem.round` — execute one instruction;
* `TypingProblem.solve` — go on until no state changes.  A type moves up each time it changes, so
  the height of the hierarchy bounds the rounds.
-/

namespace ClassInstrument

/-- An exception range in terms of steps. -/
structure HandlerRange where
  start : Nat
  /-- The first step behind the range. -/
  finish : Nat
  target : Nat
  /-- What the handler finds on the operand stack. -/
  caught : Slot
deriving Inhabited, Repr

/-- Whether a step is in the range. -/
def HandlerRange.covers (r : HandlerRange) (position : Nat) : Bool :=
  r.start ≤ position && position < r.finish

/-- A body to be typed. -/
structure TypingProblem where
  context : TypingContext
  hierarchy : Hierarchy
  positions : Positions
  handlers : List HandlerRange

/-- The states known so far. -/
structure Typing where
  /-- The state before each step that was reached. -/
  states : Array (Option State)
  /-- The steps to execute again; the last one found comes first. -/
  pending : List Nat
  /-- The greatest height of an operand stack. -/
  height : Nat
deriving Inhabited

namespace TypingProblem

variable (p : TypingProblem)

/-- The number of steps. -/
def size : Nat := p.context.steps.size

/-- The position of a label that control goes to, which has to stand before a step. -/
def target (label : Label) : Except Failure Nat := do
  let position ← p.positions.get label
  if position < p.size then .ok position else .error (.encoding (.labelAtEnd label))

/-! ### One round -/

/-- Merge a state into what is known before a step, and execute the step again if that changed. -/
def mergeInto (t : Typing) (position : Nat) (incoming : State) : Except Failure Typing :=
  match t with
  | ⟨states, pending, height⟩ =>
    match states[position]?.join with
    | none =>
      .ok ⟨states.setIfInBounds position (some incoming), position :: pending,
        max height incoming.stack.length⟩
    | some current =>
      if current.stack.length ≠ incoming.stack.length then
        let insn := (p.context.steps[position]?.map Step.insn).getD default
        .error (.encoding
          (.stackHeights current.stack.length incoming.stack.length insn))
      else
        let merged := State.merge p.hierarchy current incoming
        if merged = current then .ok ⟨states, pending, height⟩
        else
          .ok ⟨states.setIfInBounds position (some merged), position :: pending,
            max height merged.stack.length⟩

/-- Merge the locals before and behind a step into the handlers that cover it. -/
def mergeHandlers (position : Nat) (before behind : State) (t : Typing) :
    Except Failure Typing :=
  (p.handlers.filter (·.covers position)).foldlM (fun t r => do
    let t ← p.mergeInto t r.target ⟨before.locals, [r.caught]⟩
    p.mergeInto t r.target ⟨behind.locals, [r.caught]⟩) t

/-- Where control goes on behind a step. -/
def successors (position : Nat) (step : Step) : Except Failure (List Nat) := do
  let targets ← step.operand.targets.mapM p.target
  if step.opcode.isUnconditional then .ok targets
  else if position + 1 < p.size then .ok (targets ++ [position + 1])
  else .error (.encoding .fallsOffEnd)

/-- Execute a step in the state before it. -/
def round (t : Typing) (position : Nat) (step : Step) (before : State) :
    Except Failure Typing := do
  let behind ← p.context.execute position step before
  let t ← p.mergeHandlers position before behind
    { t with height := max t.height behind.stack.length }
  let next ← p.successors position step
  next.foldlM (fun t position => p.mergeInto t position behind) t

/-! ### All rounds -/

/-- Execute what is pending, at most a number of times. -/
def run : Nat → Typing → Except Failure Typing
  | rounds, ⟨states, pending, height⟩ =>
    match rounds, pending with
    | _, [] => .ok ⟨states, [], height⟩
    | 0, _ :: _ => .error (.encoding .unsettled)
    | rounds + 1, position :: pending =>
      match states[position]?.join, p.context.steps[position]? with
      | some before, some step =>
        match p.round ⟨states, pending, height⟩ position step before with
        | .ok t => run rounds t
        | .error e => .error e
      | _, _ => run rounds ⟨states, pending, height⟩

/-- Rounds enough for a number of locals, and for all that instructions can name: a state changes
once when it is found, and then each slot moves up through the hierarchy, from `null` and to `top`.
An operand stack grows by two slots at most with each step. -/
def rounds (locals : Nat) : Nat :=
  1 + p.size * (1 + (p.hierarchy.height + 2) * (max locals 65535 + 2 * p.size + 2))

/-- The states before all steps that are reached from an entry state. -/
def solve (entry : State) : Except Failure Typing :=
  let unknown : Typing := ⟨Array.replicate p.size none, [], 0⟩
  if p.size = 0 then .ok unknown
  else do
    let t ← p.mergeInto unknown 0 entry
    p.run (p.rounds entry.locals.length) t

end TypingProblem

end ClassInstrument
