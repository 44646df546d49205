import ClassInstrument.Proofs.Typing.Sound

/-!
# Dead code is cut out

Instructions that are never reached are replaced when frames are computed, and they are taken out
of the exception ranges.  Nothing else changes: what is reached stays as it is, with its marks and
its handlers.

* `Code.Pruned` — **a body without its dead code**;
* `Code.Computed.handlersAt_eq` — the handlers around an instruction, in their order;
* `Code.withFrames_prunes` — **a body that frames are computed for is the old one without its dead
  code**, and the computation never loses track of where it cuts.
-/

namespace ClassInstrument

namespace Code

/-- **A body without its dead code.**  It has as many instructions as the old one.  Those that are
reached are the same with the same handlers around them.  The others are replaced, run by run: by
`nop`, the last one of a run by `athrow`, with a frame in front of the first one and none in front
of the others, and without any handler.  All marks of the old body but its frames and with them all
labels stand where they stood, and the variables have not changed. -/
structure Pruned (code code' : Code) : Prop where
  count : code'.steps.length = code.steps.length
  kept : ∀ i, code.Reached i → code'.steps[i]?.map Step.insn = code.steps[i]?.map Step.insn
  inside : ∀ i, i + 1 < code.steps.length → ¬code.Reached i → ¬code.Reached (i + 1) →
    code'.steps[i]?.map Step.insn = some (.simple Opcode.nop)
  last : ∀ i < code.steps.length, ¬code.Reached i →
    (i + 1 < code.steps.length → code.Reached (i + 1)) →
    code'.steps[i]?.map Step.insn = some (.simple Opcode.athrow)
  first : ∀ i < code.steps.length, ¬code.Reached i → (0 < i → code.Reached (i - 1)) →
    ∃ front, code'.marksBefore i = front ++ [.frame FramePlan.deadFrame]
      ∧ front.filter Instruction.isFrame = []
  others : ∀ i, i + 1 < code.steps.length → ¬code.Reached i → ¬code.Reached (i + 1) →
    (code'.marksBefore (i + 1)).filter Instruction.isFrame = []
  marks : ∀ (i : Nat) (step : Step), code.steps[i]? = some step →
    step.marks.Sublist (code'.marksBefore i)
  labels : ∀ l ∈ Steps.labelsOf code.instructions.toList, code'.at? l = code.at? l
  scopes : code'.localVariables = code.localVariables
  covered : ∀ i, code.Reached i → code'.handlersAt i = code.handlersAt i
  uncovered : ∀ i < code.steps.length, ¬code.Reached i → code'.handlersAt i = []

/-- Elements that give the same are given as often as they are kept. -/
theorem map_filter_of_forall₂ {α β γ : Type} {keep : α → Bool} {keep' : β → Bool} {value : β → γ}
    {c : γ} {l : List α} {r : List β}
    (h : List.Forall₂ (fun a b => keep' b = keep a ∧ value b = c) l r) :
    (r.filter keep').map value = List.replicate (l.countP keep) c := by
  induction h with
  | nil => rfl
  | @cons a b l r own _ ih =>
    rw [List.filter_cons, own.1, List.countP_cons]
    cases keep a with
    | false => exact ih
    | true =>
      rw [if_pos rfl, if_pos rfl, List.map_cons, ih, own.2]
      rfl

namespace Computed

variable {le : String → String → Prop} {hierarchy : Hierarchy} {header : MethodHeader}
  {code code' : Code} {p : TypingProblem} {entry : State} {t : Typing} {points : List Nat}
  {ins : FramePlan.Insertions}
  (computed : Computed le hierarchy header code p entry t points ins code')

include computed

/-- What is reached is in no dead run. -/
theorem reached_iff {i : Nat} (less : i < code.steps.length) :
    code.Reached i ↔ ∀ run ∈ DeadRun.all t.states, ¬run.Holds i := by
  have dead := (DeadRun.partition_all t.states).dead_iff i
  rw [computed.poses.state_iff computed.solved, Typing.state?]
  have inside : i < t.states.size := by rw [computed.rebuilt.size]; exact less
  rw [Array.getElem?_eq_getElem inside] at dead ⊢
  cases state : t.states[i] with
  | none =>
    obtain ⟨run, member, holds⟩ := dead.1 (by rw [state])
    refine iff_of_false ?_ fun alive => alive run member holds
    rintro ⟨s, known⟩
    cases known
  | some s =>
    refine ⟨fun _ run member holds => ?_, fun _ => ⟨s, rfl⟩⟩
    have death := dead.2 ⟨run, member, holds⟩
    rw [state] at death
    cases death

/-- What is reached is an instruction of the body. -/
theorem less_of_reached {i : Nat} (reached : code.Reached i) : i < code.steps.length :=
  computed.poses.less_of_reached computed.solved reached

/-- What is not reached is in a dead run. -/
theorem exists_run {i : Nat} (less : i < code.steps.length) (dead : ¬code.Reached i) :
    ∃ run ∈ DeadRun.all t.states, run.Holds i := by
  rw [computed.reached_iff less] at dead
  simpa using dead

/-! ### Instructions -/

/-- An instruction that is reached stays. -/
theorem kept {i : Nat} (reached : code.Reached i) :
    code'.steps[i]?.map Step.insn = code.steps[i]?.map Step.insn := by
  have alive := (computed.reached_iff (computed.less_of_reached reached)).1 reached
  have same : ins.dead[i]? = none := by
    refine Option.eq_none_iff_forall_not_mem.2 fun insn replaced => ?_
    obtain ⟨run, member, holds, -⟩ := (computed.rebuilt.made.dead i insn).1 replaced
    exact alive run member holds
  rw [computed.rebuilt.getElem?_steps]
  congr 1
  funext step
  unfold FramePlan.Insertions.step
  rw [same]
  rfl

/-- An instruction in a dead run is replaced. -/
theorem replaced {i : Nat} (less : i < code.steps.length) {run : DeadRun}
    (member : run ∈ DeadRun.all t.states) (holds : run.Holds i) :
    code'.steps[i]?.map Step.insn
      = some (.simple (if i + 1 = run.finish then Opcode.athrow else Opcode.nop)) := by
  have replaced := (computed.rebuilt.made.dead i _).2 ⟨run, member, holds, rfl⟩
  rw [computed.rebuilt.getElem?_steps, List.getElem?_eq_getElem less, Option.map_some]
  unfold FramePlan.Insertions.step
  rw [replaced]
  rfl

/-- A run ends where the next instruction is reached, or with the body. -/
theorem finish_iff {i : Nat} {run : DeadRun} (member : run ∈ DeadRun.all t.states)
    (holds : run.Holds i) :
    i + 1 = run.finish ↔ (i + 1 < code.steps.length → code.Reached (i + 1)) := by
  have partition := DeadRun.partition_all t.states
  constructor
  · intro finish less
    rw [computed.reached_iff less]
    intro other member' holds'
    refine partition.alive_finish member ((partition.dead_iff _).2 ⟨other, member', ?_⟩)
    rw [← finish]
    exact holds'
  · intro next
    by_contra more
    have inside : run.Holds (i + 1) := by
      have := holds.2
      exact ⟨Nat.le_succ_of_le holds.1, by omega⟩
    have less : i + 1 < code.steps.length := by
      have there := (partition.dead_iff _).2 ⟨run, member, inside⟩
      rw [← computed.rebuilt.size]
      exact (Array.getElem?_eq_some_iff.1 there).1
    exact (computed.reached_iff less).1 (next less) run member inside

/-- A run starts where the instruction before is reached, or with the body. -/
theorem start_iff {i : Nat} (less : i < code.steps.length) (dead : ¬code.Reached i) :
    (∃ run ∈ DeadRun.all t.states, run.start = i) ↔ (0 < i → code.Reached (i - 1)) := by
  have partition := DeadRun.partition_all t.states
  constructor
  · rintro ⟨run, member, rfl⟩ later
    rw [computed.reached_iff (by omega)]
    intro other member' holds
    exact partition.alive_before member later ((partition.dead_iff _).2 ⟨other, member', holds⟩)
  · intro before
    obtain ⟨run, member, holds⟩ := computed.exists_run less dead
    refine ⟨run, member, ?_⟩
    by_contra other
    have inside : run.Holds (i - 1) := by
      have := holds.1
      have := holds.2
      constructor <;> omega
    have later : 0 < i := by
      have := holds.1
      omega
    exact (computed.reached_iff (by omega)).1 (before later) run member inside

/-! ### Frames -/

/-- In front of a dead run stands a frame. -/
theorem first {i : Nat} (less : i < code.steps.length) (dead : ¬code.Reached i)
    (before : 0 < i → code.Reached (i - 1)) :
    ∃ front, code'.marksBefore i = front ++ [.frame FramePlan.deadFrame]
      ∧ front.filter Instruction.isFrame = [] := by
  have here := List.getElem?_eq_getElem less
  have frame := (computed.rebuilt.made.frames i _).2
    (.inr ⟨(computed.start_iff less dead).2 before, rfl⟩)
  refine ⟨_, ?_, filter_front ins here⟩
  rw [computed.rebuilt.marksBefore_eq here, FramePlan.Insertions.marks, frame]
  rfl

/-- Inside of a dead run stands no frame. -/
theorem others {i : Nat} (less : i + 1 < code.steps.length) (before : ¬code.Reached i)
    (dead : ¬code.Reached (i + 1)) :
    (code'.marksBefore (i + 1)).filter Instruction.isFrame = [] := by
  rw [computed.filter_marksBefore (List.getElem?_eq_getElem less)]
  cases frame : ins.frames[i + 1]? with
  | none => rfl
  | some f =>
    rcases (computed.rebuilt.made.frames (i + 1) f).1 frame with ⟨s, known, -⟩ | ⟨start, -⟩
    · exact absurd ((computed.poses.state_iff computed.solved).2 ⟨s, known⟩) dead
    · exact absurd ((computed.start_iff less dead).1 start (Nat.succ_pos i)) before

/-! ### Handlers -/

/-- Labels that are placed stand where they stood. -/
theorem at?_placed (below : code.LabelsBelow) {l : Label} {i : Nat} (place : code.at? l = some i) :
    code'.at? l = some i := by
  have placed : l ∈ Steps.labelsOf code.instructions.toList :=
    Steps.isSome_positionOf?.1 (by rw [← at?, place]; rfl)
  rw [computed.rebuilt.at?_old (below l placed), place]

/-- The end of a part of a range stands where the range was cut. -/
theorem at?_endLabel (below : code.LabelsBelow) {old new : Label} {own i : Nat}
    (place : code.at? old = some own)
    (h : FramePlan.endLabel ins.boundaries old own i = .ok new) : code'.at? new = some i := by
  unfold FramePlan.endLabel at h
  split at h
  · next same =>
    cases h
    rw [same]
    exact computed.at?_placed below place
  · cases label : ins.boundaries[i]? with
    | none =>
      rw [label] at h
      cases h
    | some l =>
      rw [label] at h
      cases h
      exact computed.rebuilt.at?_boundary below label

/-- The handlers around an instruction that the parts of one range give. -/
theorem handlers_splitRange (below : code.LabelsBelow) {i : Nat} (less : i < code.steps.length)
    {alive : Bool} (reached : alive = true ↔ code.Reached i)
    {old : ExceptionRange} {r : HandlerRange} (first : code.at? old.start = some r.start)
    (last : code.at? old.finish = some r.finish) (place : code.at? old.handler = some r.target)
    {parts : List ExceptionRange}
    (split : FramePlan.splitRange (DeadRun.all t.states) ins.boundaries old r = .ok parts) :
    (parts.filter (code'.protects i)).map (fun r => (code'.at? r.handler, r.catchType))
      = ([old].filter fun r => code.protects i r && alive).map
        fun r => (code.at? r.handler, r.catchType) := by
  have pieces : List.Forall₂ (fun piece (part : ExceptionRange) =>
      code'.protects i part = DeadRun.within i piece
        ∧ (code'.at? part.handler, part.catchType) = (code.at? old.handler, old.catchType))
      (DeadRun.cutAll (DeadRun.all t.states) (r.start, r.finish)) parts := by
    refine (Traverse.mapM_eq_ok_iff.1 split).imp fun piece part cut => ?_
    obtain ⟨start, hstart, cut⟩ := Traverse.bind_eq_ok_iff.1 cut
    obtain ⟨finish, hfinish, cut⟩ := Traverse.bind_eq_ok_iff.1 cut
    cases cut
    refine ⟨?_, ?_⟩
    · rw [protects, computed.at?_endLabel below first hstart,
        computed.at?_endLabel below last hfinish]
      rfl
    · rw [computed.at?_placed below place, place]
  have covers : code.protects i old = DeadRun.within i (r.start, r.finish) := by
    rw [protects, first, last]
    rfl
  have once := DeadRun.countP_cutAll (DeadRun.partition_all t.states).proper i (r.start, r.finish)
  simp only [← reached.trans (computed.reached_iff less), ← covers, ← Bool.and_eq_true] at once
  rw [map_filter_of_forall₂ pieces, once, List.filter_singleton]
  cases code.protects i old && alive <;> rfl

/-- **The handlers around an instruction**: those that were there, if it is reached. -/
theorem handlersAt_eq (below : code.LabelsBelow) {i : Nat} (less : i < code.steps.length)
    (alive : Bool) (reached : alive = true ↔ code.Reached i) :
    code'.handlersAt i = (code.handlers.filter fun r => code.protects i r && alive).map
      fun r => (code.at? r.handler, r.catchType) := by
  have ranges := computed.handlers
  have resolved := computed.poses.handlers
  unfold FramePlan.ranges at ranges
  unfold handlersAt
  split at ranges
  · next none =>
    -- without dead runs the ranges stay as they are, even those that cover nothing
    have empty : DeadRun.all t.states = [] := List.isEmpty_iff.1 none
    have lives : alive = true := by
      rw [reached, computed.reached_iff less, empty]
      exact fun _ h => (nomatch h)
    have same : ∀ r ∈ code.handlers, code'.protects i r = (code.protects i r && alive)
        ∧ code'.at? r.handler = code.at? r.handler := by
      intro r member
      obtain ⟨r', -, first, last, place, -, -⟩ :=
        Traverse.exists_of_mem_right resolved.flip member
      refine ⟨?_, by rw [computed.at?_placed below place, place]⟩
      rw [lives, Bool.and_true, protects, protects, computed.at?_placed below first,
        computed.at?_placed below last, first, last]
    rw [← Except.ok.inj ranges, List.filter_congr fun r member => (same r member).1]
    refine List.map_congr_left fun r member => ?_
    rw [(same r (List.mem_of_mem_filter member)).2]
  · obtain ⟨pieces, all, whole⟩ := Traverse.bind_eq_ok_iff.1 ranges
    rw [← Except.ok.inj whole]
    have split := Traverse.mapM_eq_ok_iff.1 all
    clear ranges all whole
    generalize code.handlers = olds at resolved split ⊢
    generalize p.handlers = news at resolved split
    induction resolved generalizing pieces with
    | nil =>
      cases split
      rfl
    | @cons old r olds news own _ ih =>
      obtain ⟨first, last, place, -, -⟩ := own
      cases split with
      | @cons _ parts _ pieces cut split =>
        rw [List.flatten_cons, List.filter_append, List.map_append, ih pieces split,
          computed.handlers_splitRange below less reached first last place cut,
          ← List.map_append, ← List.filter_append]
        rfl

/-- The same handlers are around an instruction that is reached. -/
theorem handlersAt_of_reached (below : code.LabelsBelow) {i : Nat} (reached : code.Reached i) :
    code'.handlersAt i = code.handlersAt i := by
  have all := computed.handlersAt_eq below (computed.less_of_reached reached) true
    (iff_of_true rfl reached)
  simp only [Bool.and_true] at all
  exact all

end Computed

/-- **A body that frames are computed for is the old one without its dead code**, if all of its
labels were given out before.  The computation never loses track of allocation sites or of the ends
of dead code. -/
theorem withFrames_prunes (hierarchy : Hierarchy) (header : MethodHeader) (code : Code) :
    (∀ code', code.LabelsBelow → code.withFrames hierarchy header = .ok code' →
        code.Pruned code')
      ∧ code.withFrames hierarchy header ≠ .error (.encoding .rangeSplit)
      ∧ code.withFrames hierarchy header ≠ .error (.encoding .unknownSite) := by
  have outcome := withFrames_outcome hierarchy.goesBy_true header code
  refine ⟨fun code' below done => ?_, fun failed => outcome.ordinary failed,
    fun failed => outcome.ordinary failed⟩
  obtain ⟨p, entry, t, points, ins, computed⟩ := outcome.of_ok done
  exact
    { count := computed.rebuilt.length_steps
      kept := fun i reached => computed.kept reached
      inside := fun i less dead next => by
        obtain ⟨run, member, holds⟩ := computed.exists_run (Nat.lt_of_succ_lt less) dead
        rw [computed.replaced (Nat.lt_of_succ_lt less) member holds, if_neg]
        exact fun finish => next ((computed.finish_iff member holds).1 finish less)
      last := fun i less dead next => by
        obtain ⟨run, member, holds⟩ := computed.exists_run less dead
        rw [computed.replaced less member holds, if_pos]
        exact (computed.finish_iff member holds).2 next
      first := fun i less dead before => computed.first less dead before
      others := fun i less before dead => computed.others less before dead
      marks := fun i step here => by
        rw [computed.rebuilt.marksBefore_eq here, FramePlan.Insertions.marks, List.append_assoc,
          List.append_assoc]
        exact (List.sublist_append_left _ _).trans (List.sublist_append_right _ _)
      labels := fun l placed => computed.rebuilt.at?_old (below l placed)
      scopes := computed.scopes
      covered := fun i reached => computed.handlersAt_of_reached below reached
      uncovered := fun i less dead => by
        have none := computed.handlersAt_eq below less false
          (iff_of_false Bool.false_ne_true dead)
        simpa using none }

theorem withFrames_prunes_leaping :
    ∃ code', leaping.withFrames .flat leapingHeader = .ok code' ∧ leaping.Pruned code' := by
  have below : leaping.LabelsBelow := by
    unfold LabelsBelow
    decide
  obtain ⟨code', computed⟩ := exists_withFrames_leaping
  exact ⟨code', computed, (withFrames_prunes .flat leapingHeader leaping).1 code' below computed⟩

end Code

end ClassInstrument
