import ClassInstrument.Proofs.Code.Steps
import ClassInstrument.Proofs.Typing.Solve
import ClassInstrument.Typing.Frames

/-!
# Control flow of a body

Where control goes in a body is said here in terms of the body alone.  The problem that is solved
for it says the same in terms of numbers.

* `Code.steps`, `Code.at?` — the instructions, and the number of the one a label stands before;
* `Code.protects`, `Code.handlersAt` — the handlers around an instruction;
* `Code.Reached` — **the instructions that control can reach**;
* `Code.Poses` — a problem is the one of a body;
* `Code.Poses.state_iff` — **in a settled typing exactly the reached instructions have states**.
-/

namespace ClassInstrument

namespace Code

variable (code : Code)

/-- A body by its steps, without its frames. -/
def unframed : Steps := Steps.ofList (code.instructions.toList.filter (!·.isFrame))

/-- The executable instructions of a body, each with the labels and lines in front of it. -/
def steps : List Step := code.unframed.steps

/-- The number of the instruction that a label stands in front of. -/
def at? (l : Label) : Option Nat := Steps.positionOf? l code.instructions.toList

/-- Whether a range covers an instruction. -/
def protects (i : Nat) (r : ExceptionRange) : Bool :=
  match code.at? r.start, code.at? r.finish with
  | some start, some finish => start ≤ i && i < finish
  | _, _ => false

/-- The handlers of the ranges around an instruction, in their order, with what they catch. -/
def handlersAt (i : Nat) : List (Option Nat × Option String) :=
  (code.handlers.filter (code.protects i)).map fun r => (code.at? r.handler, r.catchType)

/-- The instructions that control can reach: the first one, and those it goes to from one that is
reached, to its targets, behind it, or to a handler around it. -/
inductive Reached : Nat → Prop
  | start (some : 0 < code.steps.length) : Reached 0
  | jump {i j : Nat} {step : Step} {l : Label} (reached : Reached i)
      (here : code.steps[i]? = some step) (target : l ∈ step.operand.targets)
      (place : code.at? l = some j) : Reached j
  | next {i : Nat} {step : Step} (reached : Reached i) (here : code.steps[i]? = some step)
      (on : step.opcode.isUnconditional = false) : Reached (i + 1)
  | handler {i j : Nat} {r : ExceptionRange} (reached : Reached i) (range : r ∈ code.handlers)
      (covered : code.protects i r = true) (place : code.at? r.handler = some j) : Reached j

/-- A problem is the one of a body. -/
structure Poses (hierarchy : Hierarchy) (owner : String) (p : TypingProblem) : Prop where
  hierarchy : p.hierarchy = hierarchy
  context : p.context = ⟨owner, code.steps.toArray⟩
  positions : ∀ l, p.positions[l]? = code.at? l
  handlers : List.Forall₂ (fun r r' => code.at? r.start = some r'.start
    ∧ code.at? r.finish = some r'.finish ∧ code.at? r.handler = some r'.target
    ∧ r'.target < code.steps.length ∧ r'.caught = .object (r.catchType.getD throwableClass))
    code.handlers p.handlers

/-- Frames have nothing to do with where labels stand. -/
theorem at?_unframed (l : Label) : Steps.positionOf? l code.unframed.toList = code.at? l := by
  rw [unframed, Steps.toList_ofList]
  refine Steps.positionOf?_filter l (fun insn drops => ?_) _
  cases insn with
  | frame frame => exact ⟨frame, rfl⟩
  | _ => cases drops

/-- Where the labels of a body stand. -/
theorem getElem?_positions_unframed (l : Label) :
    code.unframed.positions[l]? = code.at? l :=
  (Steps.getElem?_positions (Steps.tidy_ofList _) l).trans (code.at?_unframed l)

/-- The problem of a body. -/
theorem ofSteps_outcome (hierarchy : Hierarchy) (owner : String) :
    Ends (code.Poses hierarchy owner)
      (TypingProblem.ofSteps hierarchy owner code.unframed code.handlers) := by
  have get : ∀ l, Ends (fun i => code.at? l = some i) (code.unframed.positions.get l) := by
    intro l
    unfold Positions.get
    rw [getElem?_positions_unframed]
    cases code.at? l with
    | none => exact trivial
    | some i => exact rfl
  refine Ends.bind (Ends.mapM (R := fun r r' => code.at? r.start = some r'.start
    ∧ code.at? r.finish = some r'.finish ∧ code.at? r.handler = some r'.target
    ∧ r'.target < code.steps.length ∧ r'.caught = .object (r.catchType.getD throwableClass))
    fun r _ => ?_) fun handlers found =>
      ⟨rfl, rfl, code.getElem?_positions_unframed, found⟩
  refine (get r.start).bind fun start first => ?_
  refine (get r.finish).bind fun finish last => ?_
  refine (get r.handler).bind fun target place => ?_
  split
  · next less =>
    rw [List.size_toArray] at less
    exact ⟨first, last, place, less, rfl⟩
  · exact trivial

/-- An exception range whose labels are all placed, in terms of steps. -/
theorem handlerRange_eq_ok {r : ExceptionRange} {start finish target size : Nat}
    (first : code.at? r.start = some start) (last : code.at? r.finish = some finish)
    (place : code.at? r.handler = some target) (less : target < size) :
    TypingProblem.handlerRange code.unframed.positions size r
      = .ok ⟨start, finish, target, .object (r.catchType.getD throwableClass)⟩ := by
  have get : ∀ {l i}, code.at? l = some i → code.unframed.positions.get l = .ok i := fun place =>
    Positions.get_eq_ok_iff.2 ((code.getElem?_positions_unframed _).trans place)
  exact Traverse.bind_eq_ok_iff.2 ⟨start, get first, Traverse.bind_eq_ok_iff.2 ⟨finish, get last,
    Traverse.bind_eq_ok_iff.2 ⟨target, get place, if_pos less⟩⟩⟩

/-- A body poses a problem if all labels of its exception ranges are placed, those of handlers in
front of instructions. -/
theorem exists_ofSteps (hierarchy : Hierarchy) (owner : String)
    (placed : ∀ r ∈ code.handlers, ∃ r' : HandlerRange, code.at? r.start = some r'.start
      ∧ code.at? r.finish = some r'.finish ∧ code.at? r.handler = some r'.target
      ∧ r'.target < code.steps.length) :
    ∃ p, TypingProblem.ofSteps hierarchy owner code.unframed code.handlers = .ok p := by
  obtain ⟨handlers, resolved⟩ := Traverse.exists_mapM (l := code.handlers)
    (f := TypingProblem.handlerRange code.unframed.positions code.unframed.steps.toArray.size)
    fun r member => by
      obtain ⟨r', first, last, place, less⟩ := placed r member
      exact ⟨_, code.handlerRange_eq_ok first last place less⟩
  exact ⟨_, Traverse.bind_eq_ok_iff.2 ⟨handlers, resolved, rfl⟩⟩

/-- A range covers the same instructions in both. -/
theorem protects_eq {code : Code} {r : ExceptionRange} {r' : HandlerRange}
    (first : code.at? r.start = some r'.start) (last : code.at? r.finish = some r'.finish)
    (i : Nat) : code.protects i r = r'.covers i := by
  unfold protects
  rw [first, last]
  rfl

namespace Poses

variable {code} {hierarchy : Hierarchy} {owner : String} {p : TypingProblem}
  (poses : code.Poses hierarchy owner p)

include poses

theorem size : p.size = code.steps.length := by
  rw [TypingProblem.size, poses.context]
  exact List.size_toArray

theorem getElem?_steps (i : Nat) : p.context.steps[i]? = code.steps[i]? := by
  rw [poses.context]
  exact List.getElem?_toArray

theorem posed : p.Posed where
  target r member := by
    obtain ⟨old, -, -, -, -, less, -⟩ := Traverse.exists_of_mem_right poses.handlers member
    rw [poses.size]
    exact less
  caught r member := by
    obtain ⟨old, -, -, -, -, -, caught⟩ := Traverse.exists_of_mem_right poses.handlers member
    exact ⟨_, caught⟩

theorem target_eq_ok {l : Label} {j : Nat} (h : p.target l = .ok j) :
    code.at? l = some j ∧ j < code.steps.length := by
  obtain ⟨k, place, rest⟩ := Traverse.bind_eq_ok_iff.1 h
  rw [Positions.get_eq_ok_iff, poses.positions] at place
  split at rest
  · next less =>
    cases rest
    exact ⟨place, poses.size ▸ less⟩
  · cases rest

theorem target_of_at? {l : Label} {j : Nat} (place : code.at? l = some j)
    (less : j < code.steps.length) : p.target l = .ok j := by
  refine Traverse.bind_eq_ok_iff.2 ⟨j, ?_, if_pos (poses.size ▸ less)⟩
  rw [Positions.get_eq_ok_iff, poses.positions, place]

/-- The handlers around an instruction, in terms of numbers. -/
theorem handlersAt_eq (i : Nat) :
    (p.handlers.filter (·.covers i)).map (fun r => (some r.target, r.caught))
      = (code.handlersAt i).map fun entry =>
        (entry.1, .object (entry.2.getD throwableClass)) := by
  have resolved := poses.handlers
  unfold handlersAt
  generalize code.handlers = olds at resolved ⊢
  generalize p.handlers = news at resolved ⊢
  induction resolved with
  | nil => rfl
  | @cons old r olds news own _ ih =>
    obtain ⟨first, last, place, -, caught⟩ := own
    rw [List.filter_cons, List.filter_cons, protects_eq first last]
    split
    · rw [List.map_cons, List.map_cons, List.map_cons, ih, place, caught]
    · exact ih

/-- What the problem says is reached, is reached. -/
theorem reached {i : Nat} (h : p.Reached i) : code.Reached i := by
  induction h with
  | start some => exact .start (poses.size ▸ some)
  | jump _ here target place ih =>
    rw [poses.getElem?_steps] at here
    exact .jump ih here target (poses.target_eq_ok place).1
  | next _ here on _ ih =>
    rw [poses.getElem?_steps] at here
    exact .next ih here on
  | handler _ range covered ih =>
    obtain ⟨r, member, first, last, place, -, -⟩ :=
      Traverse.exists_of_mem_right poses.handlers range
    exact .handler ih member (by rw [protects_eq first last, covered]) place

variable {le : String → String → Prop} {count : Nat} {entry : State} {t : Typing}
  (solved : p.Solved le count entry t)

include solved

/-- What is reached has a state once the typing is settled. -/
theorem state_of_reached {i : Nat} (h : code.Reached i) : ∃ s, t.state? i = some s := by
  induction h with
  | start some =>
    obtain ⟨s, known, -⟩ := solved.accepts (poses.size ▸ some)
    exact ⟨s, known⟩
  | jump _ here target place ih =>
    obtain ⟨s, known⟩ := ih
    obtain ⟨step, behind, flows⟩ := solved.flows known
    obtain ⟨k, place', s', known', -⟩ := flows.jump _ (by
      rw [← poses.getElem?_steps, flows.here] at here
      cases here
      exact target)
    have same := (poses.target_eq_ok place').1
    rw [place] at same
    cases same
    exact ⟨s', known'⟩
  | next _ here on ih =>
    obtain ⟨s, known⟩ := ih
    obtain ⟨step, behind, flows⟩ := solved.flows known
    obtain ⟨s', known', -⟩ := flows.next (by
      rw [← poses.getElem?_steps, flows.here] at here
      cases here
      exact on)
    exact ⟨s', known'⟩
  | handler _ range covered place ih =>
    obtain ⟨s, known⟩ := ih
    obtain ⟨step, behind, flows⟩ := solved.flows known
    obtain ⟨r', member, first, last, place', -, -⟩ :=
      Traverse.exists_of_mem_right poses.handlers.flip range
    obtain ⟨⟨s', known', -⟩, -⟩ := flows.caught r' member (by
      rw [← protects_eq first last]
      exact covered)
    rw [place] at place'
    cases place'
    exact ⟨s', known'⟩

/-- What is reached is an instruction of the body. -/
theorem less_of_reached {i : Nat} (reached : code.Reached i) : i < code.steps.length := by
  obtain ⟨s, known⟩ := poses.state_of_reached solved reached
  rw [← poses.size, ← solved.sane.size]
  exact (Array.getElem?_eq_some_iff.1 (Option.join_eq_some_iff.1 known)).1

/-- **In a settled typing exactly the reached instructions have states.** -/
theorem state_iff {i : Nat} : code.Reached i ↔ ∃ s, t.state? i = some s :=
  ⟨poses.state_of_reached solved, fun ⟨s, known⟩ => poses.reached (solved.sane.reached i s known)⟩

end Poses

end Code

end ClassInstrument
