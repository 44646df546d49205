import ClassInstrument.Proofs.Typing.NewLocals
import ClassInstrument.Proofs.Typing.Sizes

/-!
# Frames that are computed again

Frames can be computed again for a body that they were computed for.  The second analysis sees
other instructions where the code was dead, other exception ranges and fewer locals.  It still goes
the same way step by step and finds the same states, but for the locals that are gone.

* `Frame.located` — a frame by the instructions that its labels stand in front of;
* `Code.StoresNarrow` — no half of a value is stored on the way to a typing;
* `Code.Computation.again` — what is computed the second time;
* `Code.Restated` — **a body with the same instructions, ranges and frames**;
* `Code.withFrames_stable` — **computing frames is stable**;
* `Code.not_stable_wavering` — a half that is stored on the way can be in the way of a second time.
-/

namespace ClassInstrument

/-! ### Frames without names -/

/-- The type with the number of the instruction that its label stands in front of. -/
def VerificationType.located (at? : Label → Option Nat) :
    VerificationType → Option VerificationType
  | .uninitialized site => (at? site).map fun i => .uninitialized ⟨i⟩
  | type => some type

/-- The frame with the numbers of the instructions that its labels stand in front of. -/
def Frame.located (at? : Label → Option Nat) (frame : Frame) : Option Frame := do
  let locals ← frame.locals.mapM (·.located at?)
  let stack ← frame.stack.mapM (·.located at?)
  some ⟨locals, stack⟩

theorem VerificationType.located_mapLabels {at? : Label → Option Nat} {name : Label → Label}
    {type : VerificationType}
    (sites : ∀ site, type = .uninitialized site → at? (name site) = some site.index) :
    (type.mapLabels name).located at? = some type := by
  cases type with
  | uninitialized site =>
    show (at? (name site)).map _ = _
    rw [sites site rfl]
    rfl
  | _ => rfl

/-- Names that stand for numbers stand where the numbers say. -/
theorem Frame.located_mapLabels {at? : Label → Option Nat} {name : Label → Label} {frame : Frame}
    (sites : ∀ site, .uninitialized site ∈ frame.locals ++ frame.stack →
      at? (name site) = some site.index) :
    (frame.mapLabels name).located at? = some frame := by
  have each : ∀ types : List VerificationType,
      (∀ type ∈ types, type ∈ frame.locals ++ frame.stack) →
      (types.map (·.mapLabels name)).mapM (·.located at?) = some types := by
    intro types inside
    induction types with
    | nil => rfl
    | cons type types ih =>
      rw [List.map_cons, List.mapM_cons, ih fun other member => inside other (.tail _ member),
        VerificationType.located_mapLabels fun site same =>
          sites site (same ▸ inside type List.mem_cons_self)]
      rfl
  unfold located mapLabels
  dsimp only
  rw [each _ fun type member => List.mem_append_left _ member,
    each _ fun type member => List.mem_append_right _ member]
  rfl

/-- The frame of a state names what is in the state. -/
theorem State.mem_frame {s : State} {type : VerificationType}
    (h : type ∈ s.frame.locals ++ s.frame.stack) : type ∈ s.locals ++ s.stack := by
  rcases List.mem_append.1 h with local' | operand
  · refine List.mem_append_left _ (Slot.mem_collapse ?_)
    have kept := List.mem_reverse.1 local'
    exact List.mem_reverse.1 ((List.dropWhile_sublist _).subset kept)
  · exact List.mem_append_right _ (List.mem_reverse.1 (Slot.mem_collapse operand))

namespace Code

/-! ### The second time -/

/-- On the way to the typing of a body, no `istore`, `fstore` or `astore` is executed that takes a
slot of a `long` or `double` from the operand stack. -/
def StoresNarrow (hierarchy : Hierarchy) (header : MethodHeader) (code : Code) : Prop :=
  ∀ locals p entry,
    Code.localSize header (code.instructions.toList.filter (!·.isFrame)) = .ok locals →
    TypingProblem.ofSteps hierarchy header.owner code.unframed code.handlers = .ok p →
    TypingProblem.entryState header locals = .ok entry →
    ∀ i step before, p.Executes entry i step before → step.StoresNarrow before

section Again

variable {hierarchy : Hierarchy} {header : MethodHeader} {code : Code} {locals : Nat}
  {p : TypingProblem} {entry : State} {t : Typing} {points : List Nat}
  {ins : FramePlan.Insertions} {handlers : List ExceptionRange}

/-- **What is computed the second time.**  The states are the same with fewer locals. -/
theorem Computation.again
    (all : Computation hierarchy header code locals p entry t points ins handlers)
    (fits : header.Fits) (below : code.LabelsBelow) (narrow : code.StoresNarrow hierarchy header)
    {code' : Code} (new : code' = code.reframed locals t ins handlers) :
    ∃ fewer q entry' t' points' ins' more,
      Computation hierarchy header code' fewer q entry' t' points' ins' code'.handlers
        ∧ t = t'.pad more ∧ fewer ≤ locals := by
  have computed := all.computed hierarchy.goesBy_true
  rw [← new] at computed
  obtain ⟨q, problem⟩ := computed.exists_problem below hierarchy header.owner
  have poses := (code'.ofSteps_outcome hierarchy header.owner).of_ok problem
  have agrees := computed.agrees below poses
  obtain ⟨fewer, size, le, names⟩ := computed.exists_localSize all.size
  obtain ⟨frame, first, -⟩ := Traverse.bind_eq_ok_iff.1 all.enters
  obtain ⟨type, parsed, -⟩ := Traverse.bind_eq_ok_iff.1 first
  have room := (entrySlots_le_iff size parsed).2 (fits type parsed)
  rw [← MethodHeader.length_entryFrame parsed first] at room
  obtain ⟨entry', enters, rfl, paired, length⟩ := exists_entryState first all.enters room le
  have low := localSize_le all.size
  have rounds : max (entry'.pad (locals - fewer)).locals.length 65535
      = max entry'.locals.length 65535 := by
    rw [State.pad, List.length_append, List.length_replicate, length]
    omega
  have tracked := (entryState_outcome p.Creates header fewer).of_ok enters
  have tracked' := (entryState_outcome q.Creates header fewer).of_ok enters
  -- the old problem with fewer locals comes between the two
  have padded := TypingProblem.solve_pad computed.poses.posed tracked paired
    (fun i step reached here used named => by
      have kept := computed.kept (computed.poses.reached reached)
      rw [computed.poses.getElem?_steps] at here
      rw [here] at kept
      obtain ⟨step', there, insn⟩ := Option.map_eq_some_iff.1 kept
      rw [length]
      exact names step' (List.mem_of_getElem? there) used (insn ▸ named))
    (narrow locals p _ all.size all.problem all.enters)
    (by rw [TypingProblem.rounds, TypingProblem.rounds, rounds])
  rw [all.settled] at padded
  obtain ⟨t', solved, rfl⟩ := Traverse.map_eq_ok_iff.1 padded.symm
  have settled := TypingProblem.solve_persists agrees computed.poses.posed tracked t' solved
  obtain ⟨points', marked⟩ := computed.exists_points below poses
  have sane := ((TypingProblem.solve_outcome q.hierarchy.goesBy_true poses.posed
    tracked').of_ok settled).sane
  obtain ⟨ins', tables, -⟩ := FramePlan.insertions_eq sane points' code'.instructions.labelCount
  have runs : DeadRun.all t'.states = DeadRun.all (t'.pad (locals - fewer)).states :=
    (DeadRun.all_map _ _).symm
  exact ⟨fewer, q, entry', t', points', ins', _, ⟨size, problem, enters, settled, marked, tables,
    computed.ranges_again below poses runs points' _, all.shallow⟩, rfl, le⟩

end Again

/-- **A body with the same instructions, ranges and frames.**  It has no more locals.  Labels stand
where they stood.  A frame stands only where there was one, and it says the same: the same types,
and labels in front of the same instructions. -/
structure Restated (code code' : Code) : Prop where
  insns : code'.steps.map Step.insn = code.steps.map Step.insn
  labels : ∀ l i, code.at? l = some i → code'.at? l = some i
  handlers : code'.handlers = code.handlers
  scopes : code'.localVariables = code.localVariables
  maxStack : code'.maxStack = code.maxStack
  maxLocals : code'.maxLocals ≤ code.maxLocals
  frames : ∀ i, (code'.marksBefore i).filter Instruction.isFrame = [] ∨ ∃ f f' types,
    (code.marksBefore i).filter Instruction.isFrame = [.frame f]
      ∧ (code'.marksBefore i).filter Instruction.isFrame = [.frame f']
      ∧ f.located code.at? = some types ∧ f'.located code'.at? = some types
  tail : (Steps.ofList code'.instructions.toList).tail.filter Instruction.isFrame = []

namespace Computed

/-- The frame of a state names the instructions that the state names. -/
theorem located_frame {le : String → String → Prop} {hierarchy : Hierarchy} {header : MethodHeader}
    {code code' : Code} {p : TypingProblem} {entry : State} {t : Typing} {points : List Nat}
    {ins : FramePlan.Insertions}
    (computed : Computed le hierarchy header code p entry t points ins code')
    (below : code.LabelsBelow) {i : Nat} {s : State} (known : t.state? i = some s)
    (need : code.NeedsFrame i) :
    (s.frame.mapLabels (FramePlan.siteLabel ins.sites)).located code'.at? = some s.frame := by
  refine Frame.located_mapLabels fun site inside => ?_
  exact (computed.framed.names i s known need site (State.mem_frame inside)).2 below

variable {le le' : String → String → Prop} {hierarchy : Hierarchy} {header : MethodHeader}
  {code code' code'' : Code} {p q : TypingProblem} {entry entry' : State} {t : Typing}
  {points points' : List Nat} {ins ins' : FramePlan.Insertions} {more : Nat}
  (first : Computed le hierarchy header code p entry (t.pad more) points ins code')
  (second : Computed le' hierarchy header code' q entry' t points' ins' code'')

include first second

/-- Nothing is replaced any more. -/
theorem insns_again : code''.steps.map Step.insn = code'.steps.map Step.insn := by
  apply List.ext_getElem?
  intro i
  rw [List.getElem?_map, List.getElem?_map]
  by_cases less : i < code'.steps.length
  · by_cases dead : ∃ run ∈ DeadRun.all t.states, run.Holds i
    · obtain ⟨run, member, holds⟩ := dead
      have member' : run ∈ DeadRun.all (t.pad more).states := by
        rw [Typing.pad, DeadRun.all_map]
        exact member
      rw [second.replaced less member holds,
        first.replaced (first.rebuilt.length_steps ▸ less) member' holds]
    · refine second.kept ((second.reached_iff less).2 fun run member holds => ?_)
      exact dead ⟨run, member, holds⟩
  · rw [List.getElem?_eq_none (Nat.not_lt.1 less),
      List.getElem?_eq_none (second.rebuilt.length_steps ▸ Nat.not_lt.1 less)]

/-- A frame stands only where there was one, and it says the same. -/
theorem frames_again (below : code.LabelsBelow) (below' : code'.LabelsBelow) (i : Nat) :
    (code''.marksBefore i).filter Instruction.isFrame = [] ∨ ∃ f f' types,
      (code'.marksBefore i).filter Instruction.isFrame = [.frame f]
        ∧ (code''.marksBefore i).filter Instruction.isFrame = [.frame f']
        ∧ f.located code'.at? = some types ∧ f'.located code''.at? = some types := by
  rcases Nat.lt_or_ge i code.steps.length with less | outside
  · have less' : i < code'.steps.length := first.rebuilt.length_steps.symm ▸ less
    have marks := first.filter_marksBefore (List.getElem?_eq_getElem less)
    have marks' := second.filter_marksBefore (List.getElem?_eq_getElem less')
    cases frame : ins'.frames[i]? with
    | none =>
      rw [frame] at marks'
      exact .inl marks'
    | some f' =>
      rw [frame] at marks'
      refine .inr ?_
      rcases (second.rebuilt.made.frames i f').1 frame with ⟨s, known, point, rfl⟩ | ⟨dead, rfl⟩
      · have known' : (t.pad more).state? i = some (s.pad more) := by
          rw [Typing.state?_pad, known]
          rfl
        have need' := (second.marked i less').1 point
        have reached := (first.poses.state_iff first.solved).2 ⟨_, known'⟩
        have need := first.needsFrame below reached need'
        rw [(first.getElem?_frames known' _).2 ⟨need, rfl⟩] at marks
        exact ⟨_, _, s.frame, marks, marks',
          s.frame_pad more ▸ first.located_frame below known' need,
          second.located_frame below' known need'⟩
      · rw [(first.rebuilt.made.frames i _).2 (.inr ⟨?_, rfl⟩)] at marks
        · exact ⟨_, _, FramePlan.deadFrame, marks, marks', rfl, rfl⟩
        · rw [Typing.pad, DeadRun.all_map]
          exact dead
  · refine .inl ?_
    rw [marksBefore, second.rebuilt.ofList_eq, FramePlan.Insertions.getElem?_body,
      show code'.unframed.steps = code'.steps from rfl,
      List.getElem?_eq_none (first.rebuilt.length_steps.symm ▸ outside)]
    rfl

omit first in
/-- Behind the last instruction stands no frame. -/
theorem tail_again : (Steps.ofList code''.instructions.toList).tail.filter Instruction.isFrame
    = [] := by
  rw [second.rebuilt.ofList_eq]
  refine List.filter_eq_nil_iff.2 fun insn member => ?_
  rcases List.mem_append.1 member with old | boundary
  · have inside : insn ∈ code'.unframed.toList := List.mem_append_right _ old
    rw [unframed, Steps.toList_ofList] at inside
    simpa using List.of_mem_filter inside
  · obtain ⟨l, -, rfl⟩ := FramePlan.Insertions.mem_mark.1 boundary
    exact Bool.false_ne_true

end Computed

/-- **Computing frames is stable.**  If frames were computed for a body whose labels were given out
before, whose receiver and arguments can be counted, and no half of a value was stored on the way,
they can be computed again, and the body says the same as before. -/
theorem withFrames_stable {hierarchy : Hierarchy} {header : MethodHeader} {code code' : Code}
    (fits : header.Fits) (below : code.LabelsBelow) (narrow : code.StoresNarrow hierarchy header)
    (computed : code.withFrames hierarchy header = .ok code') :
    ∃ code'', code'.withFrames hierarchy header = .ok code'' ∧ code'.Restated code'' := by
  obtain ⟨locals, p, entry, t, points, ins, handlers, all, new⟩ := withFrames_eq_ok_iff.1 computed
  obtain ⟨fewer, q, entry', t', points', ins', more, all', rfl, le⟩ :=
    all.again fits below narrow new
  have first := all.computed hierarchy.goesBy_true
  have second := all'.computed hierarchy.goesBy_true
  rw [← new] at first
  have below' := first.labelsBelow below (by rw [new]; exact Nat.le_refl _)
  refine ⟨_, withFrames_eq_ok_iff.2
    ⟨fewer, q, entry', t', points', ins', code'.handlers, all', rfl⟩,
    { insns := first.insns_again second
      labels := fun l i place => second.at?_placed below' place
      handlers := rfl
      scopes := rfl
      maxStack := ?_
      maxLocals := ?_
      frames := first.frames_again second below below'
      tail := second.tail_again }⟩
  · rw [new, reframed, reframed, Typing.pad, DeadRun.all_map]
  · rw [new]
    show UInt16.ofNat fewer ≤ UInt16.ofNat locals
    have few := Nat.lt_succ_of_le (localSize_le all.size)
    rw [UInt16.le_iff_toNat_le, UInt16.toNat_ofNat_of_lt' (Nat.lt_of_le_of_lt le few),
      UInt16.toNat_ofNat_of_lt' few]
    exact le

/-- A body that stores a number.  Behind its return it names a local that nothing else names. -/
def trailing : Code where
  maxStack := 1
  maxLocals := 6
  instructions := .ofList [.op Opcode.iconst0 .none, .op Opcode.istore (.var 0),
    .op Opcode.vreturn .none, .op Opcode.iload (.var 5), .op Opcode.pop .none,
    .op Opcode.vreturn .none] 0
  handlers := []
  localVariables := []

/-- A static method without parameters and result. -/
def trailingHeader : MethodHeader := ⟨"Trailing", 0x0009, "run", "()V"⟩

/-- The method has no arguments that could be too many. -/
theorem fits_trailing : trailingHeader.Fits := by
  intro type parsed
  cases parsed
  decide

/-- The problem that the body poses. -/
def trailingProblem : TypingProblem where
  context := ⟨"Trailing", trailing.unframed.steps.toArray⟩
  hierarchy := .flat
  positions := ∅
  handlers := []

/-- Its locals, the first one with what is stored there. -/
def trailingLocals (stored : Slot) : List Slot := stored :: List.replicate 5 .top

/-- What is known of it round after round. -/
def trailingStages : List Typing :=
  [⟨#[some ⟨trailingLocals .top, []⟩, none, none, none, none, none], [0], 0⟩,
    ⟨#[some ⟨trailingLocals .top, []⟩, some ⟨trailingLocals .top, [.integer]⟩, none, none, none,
      none], [1], 1⟩,
    ⟨#[some ⟨trailingLocals .top, []⟩, some ⟨trailingLocals .top, [.integer]⟩,
      some ⟨trailingLocals .integer, []⟩, none, none, none], [2], 1⟩,
    ⟨#[some ⟨trailingLocals .top, []⟩, some ⟨trailingLocals .top, [.integer]⟩,
      some ⟨trailingLocals .integer, []⟩, none, none, none], [], 1⟩]

theorem mem_trailingStages {t : Typing}
    (stage : trailingProblem.Stage ⟨trailingLocals .top, []⟩ t) : t ∈ trailingStages := by
  induction stage with
  | start merged =>
    cases merged
    exact List.mem_cons_self
  | round stage known here done ih =>
    simp only [trailingStages, List.mem_cons, List.not_mem_nil, or_false] at ih
    rcases ih with same | same | same | same
    · cases same
      cases known
      cases here
      cases done
      exact .tail _ (.head _)
    · cases same
      cases known
      cases here
      cases done
      exact .tail _ (.tail _ (.head _))
    · cases same
      cases known
      cases here
      cases done
      exact .tail _ (.tail _ (.tail _ (.head _)))
    · cases same
  | skip stage absent ih =>
    simp only [trailingStages, List.mem_cons, List.not_mem_nil, or_false] at ih
    rcases ih with same | same | same | same <;> cases same <;>
      rcases absent with absent | absent <;> cases absent

theorem storesNarrow_trailing : trailing.StoresNarrow .flat trailingHeader := by
  intro locals p entry size problem enters i step before executes
  cases size
  cases problem
  cases enters
  obtain ⟨states, pending, height, stage, known, here⟩ := executes
  have inside := mem_trailingStages stage
  simp only [trailingStages, List.mem_cons, List.not_mem_nil, or_false] at inside
  rcases inside with same | same | same | same
  · cases same
    cases known
    exact fun _ slot top => (nomatch top)
  · cases same
    cases known
    rintro - slot ⟨⟩
    rfl
  · cases same
    cases known
    exact fun _ slot top => (nomatch top)
  · cases same

theorem withFrames_stable_trailing : ∃ code' code'', trailing.withFrames .flat trailingHeader
    = .ok code' ∧ code'.withFrames .flat trailingHeader = .ok code'' ∧ code'.Restated code'' := by
  have settled : trailingProblem.solve ⟨trailingLocals .top, []⟩
      = .ok (trailingStages.getLast (List.cons_ne_nil _ _)) := rfl
  have marked : trailingProblem.points = .ok [3] := rfl
  have size : localSize trailingHeader (trailing.instructions.toList.filter (!·.isFrame)) = .ok 6 :=
    rfl
  have problem : TypingProblem.ofSteps .flat trailingHeader.owner trailing.unframed
      trailing.handlers = .ok trailingProblem := rfl
  have enters : TypingProblem.entryState trailingHeader 6 = .ok ⟨trailingLocals .top, []⟩ := rfl
  obtain ⟨code', computed⟩ := exists_withFrames size problem enters settled marked (by decide)
  have below : trailing.LabelsBelow := fun _ placed => nomatch placed
  obtain ⟨code'', again, restated⟩ :=
    withFrames_stable fits_trailing below storesNarrow_trailing computed
  exact ⟨code', code'', computed, again, restated⟩

/-! ### Halves on the way -/

/-- Steps are told by their instructions, but for the marks in front of them. -/
theorem exists_marks {steps : List Step} {insns : List (Opcode × Operand)}
    (same : steps.map Step.insn = insns.map fun insn => .op insn.1 insn.2) :
    ∃ marks : Nat → List Instruction,
      steps = insns.mapIdx fun i insn => ⟨marks i, insn.1, insn.2⟩ := by
  refine ⟨fun i => (steps[i]?.map Step.marks).getD [], List.ext_getElem? fun i => ?_⟩
  have here := congrArg (·[i]?) same
  simp only [List.getElem?_map] at here
  rw [List.getElem?_mapIdx]
  cases there : steps[i]? with
  | none =>
    rw [there, Option.map_none] at here
    rw [Option.map_eq_none_iff.1 here.symm]
    rfl
  | some step =>
    rw [there, Option.map_some] at here
    obtain ⟨insn, known, alike⟩ := Option.map_eq_some_iff.1 here.symm
    obtain ⟨marks, op, operand⟩ := step
    cases alike
    rw [known, Option.map_some]
    dsimp only
    rw [there]
    rfl

/-- A body that stores half of a number at first.  When an exception takes the way from behind the
store back to it, nothing is known any more of what is stored.  Behind its return the body names a
second local. -/
def wavering : Code where
  maxStack := 2
  maxLocals := 2
  instructions := .ofList [.op Opcode.lconst0 .none, .op Opcode.pop .none, .label ⟨0⟩,
    .op Opcode.istore (.var 0), .label ⟨1⟩, .op Opcode.vreturn .none, .label ⟨2⟩,
    .op Opcode.iload (.var 1), .op Opcode.pop .none, .op Opcode.vreturn .none] 3
  handlers := [⟨⟨1⟩, ⟨2⟩, ⟨0⟩, none⟩]
  localVariables := []

/-- Its exception range. -/
def waveringRange : HandlerRange := ⟨3, 4, 2, .object throwableClass⟩

/-- The problem that the body poses. -/
def waveringProblem : TypingProblem where
  context := ⟨"Trailing", wavering.unframed.steps.toArray⟩
  hierarchy := .flat
  positions := wavering.unframed.positions
  handlers := [waveringRange]

/-- Its typing, with nothing left of the half. -/
def waveringTyping : Typing where
  states := #[some ⟨[.top, .top], []⟩, some ⟨[.top, .top], [.top, .long]⟩,
    some ⟨[.top, .top], [.top]⟩, some ⟨[.top, .top], []⟩, none, none, none]
  pending := []
  height := 2

theorem ofSteps_wavering : TypingProblem.ofSteps .flat trailingHeader.owner wavering.unframed
    wavering.handlers = .ok waveringProblem := by
  have range : TypingProblem.handlerRange wavering.unframed.positions 7 ⟨⟨1⟩, ⟨2⟩, ⟨0⟩, none⟩
      = .ok waveringRange := wavering.handlerRange_eq_ok rfl rfl rfl (by decide)
  refine Traverse.bind_eq_ok_iff.2 ⟨[waveringRange], ?_, rfl⟩
  exact Traverse.mapM_eq_ok_iff.2 (.cons range .nil)

theorem solve_wavering : waveringProblem.solve ⟨[.top, .top], []⟩ = .ok waveringTyping := rfl

/-- In the typing no half is stored. -/
theorem storesNarrow_wavering {i : Nat} {step : Step} {s : State}
    (here : wavering.steps[i]? = some step) (known : waveringTyping.state? i = some s) :
    step.StoresNarrow s := by
  have less : i < 7 := (List.getElem?_eq_some_iff.1 here).1
  intro stores slot top
  match i, less with
  | 0, _ | 1, _ | 3, _ =>
    cases here
    exact absurd stores (by decide)
  | 2, _ =>
    cases known
    cases top
    rfl
  | 4, _ | 5, _ | 6, _ => cases known

/-- The steps of the new body, but for the marks in front of them. -/
def waveringSteps (marks : Nat → List Instruction) : List Step :=
  [⟨marks 0, Opcode.lconst0, .none⟩, ⟨marks 1, Opcode.pop, .none⟩,
    ⟨marks 2, Opcode.istore, .var 0⟩, ⟨marks 3, Opcode.vreturn, .none⟩,
    ⟨marks 4, Opcode.nop, .none⟩, ⟨marks 5, Opcode.nop, .none⟩, ⟨marks 6, Opcode.athrow, .none⟩]

/-- With one local there is no room for the half. -/
theorem solve_wavering_again (marks : Nat → List Instruction) (positions : Positions) :
    TypingProblem.solve
      ⟨⟨"Trailing", (waveringSteps marks).toArray⟩, .flat, positions, [waveringRange]⟩ ⟨[.top], []⟩
      = .error (.encoding (.localRange 0)) := rfl

section Wavering

variable {code' : Code} {points : List Nat} {ins : FramePlan.Insertions}
  (computed : Computed (fun _ _ => True) .flat trailingHeader wavering waveringProblem
    ⟨[.top, .top], []⟩ waveringTyping points ins code')

include computed

/-- Behind the return the new body has other instructions. -/
theorem insns_wavering :
    code'.steps.map Step.insn = [(Opcode.lconst0, Operand.none), (Opcode.pop, .none),
      (Opcode.istore, .var 0), (Opcode.vreturn, .none), (Opcode.nop, .none), (Opcode.nop, .none),
      (Opcode.athrow, .none)].map fun insn => .op insn.1 insn.2 := by
  have kept : ∀ {i : Nat} {s : State}, waveringTyping.state? i = some s →
      code'.steps[i]?.map Step.insn = wavering.steps[i]?.map Step.insn := fun known =>
    computed.kept ((computed.poses.state_iff computed.solved).2 ⟨_, known⟩)
  have dead : ⟨4, 7⟩ ∈ DeadRun.all waveringTyping.states := List.mem_cons_self
  have length : code'.steps.length = 7 := computed.rebuilt.length_steps
  apply List.ext_getElem?
  intro i
  rw [List.getElem?_map]
  by_cases less : i < 7
  · match i, less with
    | 0, _ | 1, _ | 2, _ | 3, _ => exact kept rfl
    | 4, less | 5, less | 6, less => exact computed.replaced less dead ⟨by decide, by decide⟩
  · rw [List.getElem?_eq_none (length ▸ Nat.not_lt.1 less)]
    exact (List.getElem?_eq_none (Nat.not_lt.1 less)).symm

/-- One local is left. -/
theorem localSize_wavering :
    localSize trailingHeader (code'.instructions.toList.filter (!·.isFrame)) = .ok 1 := by
  have named : code'.slotsNamed = [1] := by
    rw [slotsNamed_eq, insns_wavering computed]
    rfl
  refine localSize_eq_ok_iff.2 ⟨⟨[], none⟩, rfl, ?_, ?_⟩
  · rw [named]
    decide
  · rw [named]
    rfl

/-- The exception range stands where it stood. -/
theorem eq_waveringRange (below : wavering.LabelsBelow) {r : HandlerRange}
    (alike : code'.at? ⟨1⟩ = some r.start ∧ code'.at? ⟨2⟩ = some r.finish
      ∧ code'.at? ⟨0⟩ = some r.target ∧ r.target < code'.steps.length
      ∧ r.caught = .object throwableClass) : r = waveringRange := by
  obtain ⟨start, finish, target, caught⟩ := r
  obtain ⟨first, last, handler, -, rfl⟩ := alike
  cases (computed.at?_placed below (l := ⟨1⟩) (i := 3) rfl).symm.trans first
  cases (computed.at?_placed below (l := ⟨2⟩) (i := 4) rfl).symm.trans last
  cases (computed.at?_placed below (l := ⟨0⟩) (i := 2) rfl).symm.trans handler
  rfl

/-- The new body gets no frames. -/
theorem withFrames_wavering_again (below : wavering.LabelsBelow)
    (same : code'.handlers = wavering.handlers) :
    code'.withFrames .flat trailingHeader = .error (.encoding (.localRange 0)) := by
  obtain ⟨q, problem⟩ := computed.exists_problem below .flat trailingHeader.owner
  have poses := (code'.ofSteps_outcome .flat trailingHeader.owner).of_ok problem
  have enters : TypingProblem.entryState trailingHeader 1 = .ok ⟨[.top], []⟩ := rfl
  refine withFrames_eq_error (localSize_wavering computed) problem enters ?_
  obtain ⟨marks, steps⟩ := exists_marks (insns_wavering computed)
  have covers := poses.handlers
  rw [same] at covers
  obtain ⟨r, others, alike, rest, known⟩ := List.forall₂_cons_left_iff.1 covers
  rw [List.forall₂_nil_left_iff.1 rest, eq_waveringRange computed below alike] at known
  obtain ⟨context, hierarchy, positions, handlers⟩ := q
  cases poses.hierarchy
  cases poses.context
  cases known
  rw [steps]
  exact solve_wavering_again marks positions

end Wavering

/-- **A half that is stored on the way can be in the way of a second time.**  In the typing no half
is stored.  But the first time one is stored on the way, there is room for it among the locals, and
the second time there is none. -/
theorem not_stable_wavering : ∃ t code', wavering.LabelsBelow ∧ trailingHeader.Fits
    ∧ wavering.typing .flat trailingHeader = .ok t
    ∧ (∀ i step s, wavering.steps[i]? = some step → t.state? i = some s → step.StoresNarrow s)
    ∧ wavering.withFrames .flat trailingHeader = .ok code'
    ∧ code'.withFrames .flat trailingHeader = .error (.encoding (.localRange 0)) := by
  have size : localSize trailingHeader (wavering.instructions.toList.filter (!·.isFrame)) = .ok 2 :=
    rfl
  have enters : TypingProblem.entryState trailingHeader 2 = .ok ⟨[.top, .top], []⟩ := rfl
  have marked : waveringProblem.points = .ok [4, 2] := rfl
  have below : wavering.LabelsBelow := by
    unfold LabelsBelow
    decide
  have typed : wavering.typing .flat trailingHeader = .ok waveringTyping :=
    Traverse.bind_eq_ok_iff.2 ⟨2, size, Traverse.bind_eq_ok_iff.2 ⟨_, ofSteps_wavering,
      Traverse.bind_eq_ok_iff.2 ⟨_, enters, solve_wavering⟩⟩⟩
  obtain ⟨ins, handlers, all⟩ :=
    exists_computation size ofSteps_wavering enters solve_wavering marked (by decide)
  have ranges : wavering.handlers = handlers := Except.ok.inj all.ranges
  have computed := all.computed Hierarchy.flat.goesBy_true
  exact ⟨waveringTyping, _, below, fits_trailing, typed,
    fun i step s here known => storesNarrow_wavering here known,
    withFrames_eq_ok_iff.2 ⟨_, _, _, _, _, _, _, all, rfl⟩,
    withFrames_wavering_again computed below ranges.symm⟩

end Code

end ClassInstrument
