import ClassInstrument.Proofs.Typing.Computed

/-!
# Computed frames are sound

The states that frames are made from are a typing of the body: every instruction that is reached
can be executed in its state, and wherever control goes on, what is behind it can stand for what is
expected there.

* `Code.Typed` — **a typing of a body**;
* `Code.Framed` — the frames of a body are those of a typing;
* `Code.frames_sound` — **computed frames are those of a typing**, in every hierarchy that goes by
  an order of classes.
-/

namespace ClassInstrument

namespace Code

/-- **A typing of a body**, with no operand stack higher than a limit.  Exactly the instructions
that are reached have states, the entry fits the first one, every instruction can be executed in
its state, and what is behind it fits wherever control goes on: at each target, behind an
instruction that control passes, and, with the locals before and behind it, in each handler around
it. -/
structure Typed (le : String → String → Prop) (header : MethodHeader) (code : Code) (limit : Nat)
    (states : Nat → Option State) : Prop where
  reached : ∀ i, code.Reached i ↔ ∃ s, states i = some s
  entry : ∃ locals entry, Code.localSize header (code.instructions.toList.filter (!·.isFrame))
    = .ok locals ∧ TypingProblem.entryState header locals = .ok entry
    ∧ (0 < code.steps.length → entry.Fits le (states 0))
  low : ∀ i s, states i = some s → s.stack.length ≤ limit
  flow : ∀ i s, states i = some s → ∃ step behind, code.steps[i]? = some step
    ∧ TypingContext.execute ⟨header.owner, code.steps.toArray⟩ i step s = .ok behind
    ∧ behind.stack.length ≤ limit
    ∧ (∀ l ∈ step.operand.targets, ∃ j, code.at? l = some j ∧ behind.Fits le (states j))
    ∧ (step.opcode.isUnconditional = false → behind.Fits le (states (i + 1)))
    ∧ ∀ r ∈ code.handlers, code.protects i r = true → ∃ j, code.at? r.handler = some j
      ∧ State.Fits le ⟨s.locals, [.object (r.catchType.getD throwableClass)]⟩ (states j)
      ∧ State.Fits le ⟨behind.locals, [.object (r.catchType.getD throwableClass)]⟩ (states j)

/-- **The frames of a body are those of a typing** of another one.  An instruction that is reached
has a frame in front of it exactly if it needs one, and that is its state.  An allocation site in
it goes by the name of a label, which stands in front of the instruction that creates the object. -/
structure Framed (code code' : Code) (states : Nat → Option State) (name : Label → Label) :
    Prop where
  frame : ∀ i s, states i = some s → code.NeedsFrame i →
    (code'.marksBefore i).filter Instruction.isFrame = [.frame (s.frame.mapLabels name)]
  none : ∀ i s, states i = some s → ¬code.NeedsFrame i →
    (code'.marksBefore i).filter Instruction.isFrame = []
  creates : ∀ i s, states i = some s → ∀ site, .uninitialized site ∈ s.locals ++ s.stack →
    ∃ step, code.steps[site.index]? = some step ∧ step.opcode = Opcode.new
  names : ∀ i s, states i = some s → code.NeedsFrame i →
    ∀ site, .uninitialized site ∈ s.locals ++ s.stack →
      .label (name site) ∈ code'.marksBefore site.index
        ∧ (code.LabelsBelow → code'.at? (name site) = some site.index)

namespace Computed

variable {le : String → String → Prop} {hierarchy : Hierarchy} {header : MethodHeader}
  {code code' : Code} {p : TypingProblem} {entry : State} {t : Typing} {points : List Nat}
  {ins : FramePlan.Insertions}
  (computed : Computed le hierarchy header code p entry t points ins code')

/-- Only the table puts frames in front of a step. -/
theorem filter_front (ins : FramePlan.Insertions) {i : Nat} {step : Step}
    (here : code.steps[i]? = some step) :
    (FramePlan.mark ins.boundaries i ++ step.marks ++ FramePlan.mark ins.sites i).filter
      Instruction.isFrame = [] := by
  have table : ∀ labels : Std.HashMap Nat Label,
      (FramePlan.mark labels i).filter Instruction.isFrame = [] := by
    intro labels
    refine List.filter_eq_nil_iff.2 fun insn member => ?_
    obtain ⟨l, -, rfl⟩ := FramePlan.Insertions.mem_mark.1 member
    exact Bool.false_ne_true
  have old : step.marks.filter Instruction.isFrame = [] := by
    refine List.filter_eq_nil_iff.2 fun insn member => ?_
    have inside : insn ∈ code.unframed.toList := List.mem_append_left _ (List.mem_flatMap.2
      ⟨step, List.mem_of_getElem? here, List.mem_append_left _ member⟩)
    rw [unframed, Steps.toList_ofList] at inside
    simpa using List.of_mem_filter inside
  simp only [List.filter_append, table, old, List.nil_append]

include computed

/-- The states are a typing. -/
theorem typed : code.Typed le header code'.maxStack.toNat t.state? where
  reached _ := computed.poses.state_iff computed.solved
  entry := by
    obtain ⟨locals, size, enters⟩ := computed.enters
    refine ⟨locals, entry, size, enters, fun some => computed.solved.accepts ?_⟩
    rw [computed.poses.size]
    exact some
  low i s known := Nat.le_trans (computed.solved.sane.height i s known) computed.height
  flow i s known := by
    obtain ⟨step, behind, flows⟩ := computed.solved.flows known
    have executed := flows.executed
    rw [computed.poses.context] at executed
    refine ⟨step, behind, computed.poses.getElem?_steps i ▸ flows.here, executed,
      Nat.le_trans flows.height computed.height, fun l target => ?_, flows.next,
      fun r range covered => ?_⟩
    · obtain ⟨j, place, fits⟩ := flows.jump l target
      exact ⟨j, (computed.poses.target_eq_ok place).1, fits⟩
    · obtain ⟨r', member, first, last, place, -, caught⟩ :=
        Traverse.exists_of_mem_right computed.poses.handlers.flip range
      have fits := flows.caught r' member (by rw [← protects_eq first last]; exact covered)
      rw [Typing.Catches, caught] at fits
      exact ⟨_, place, fits⟩

/-- The frames in front of a step are those of the table. -/
theorem filter_marksBefore {i : Nat} {step : Step} (here : code.steps[i]? = some step) :
    (code'.marksBefore i).filter Instruction.isFrame
      = (ins.frames[i]?.map Instruction.frame).toList := by
  rw [computed.rebuilt.marksBefore_eq here, FramePlan.Insertions.marks, List.filter_append,
    filter_front ins here, List.nil_append]
  cases ins.frames[i]? <;> rfl

/-- A state says where its objects are created. -/
theorem creates {i : Nat} {s : State} (known : t.state? i = some s) {site : Label}
    (inside : .uninitialized site ∈ s.locals ++ s.stack) :
    ∃ step, code.steps[site.index]? = some step ∧ step.opcode = Opcode.new := by
  have tracked := computed.solved.sane.tracked i s known
  have created : Slot.MadeBy p.Creates (.uninitialized site) :=
    (List.mem_append.1 inside).elim (tracked.locals _) (tracked.stack _)
  obtain ⟨-, step, here, new⟩ := created
  exact ⟨step, computed.poses.getElem?_steps site.index ▸ here, new⟩

/-- An instruction that is reached gets a frame exactly if it needs one. -/
theorem getElem?_frames {i : Nat} {s : State} (known : t.state? i = some s) (f : Frame) :
    ins.frames[i]? = some f
      ↔ code.NeedsFrame i ∧ f = s.frame.mapLabels (FramePlan.siteLabel ins.sites) := by
  have less : i < code.steps.length := by
    rw [← computed.rebuilt.size]
    exact (Array.getElem?_eq_some_iff.1 (Option.join_eq_some_iff.1 known)).1
  have alive : ¬∃ run ∈ DeadRun.all t.states, run.start = i := by
    rintro ⟨run, member, rfl⟩
    have partition := DeadRun.partition_all t.states
    have unknown := (partition.dead_iff run.start).2
      ⟨run, member, Nat.le_refl _, partition.proper run member⟩
    rw [Typing.state?, unknown] at known
    cases known
  rw [computed.rebuilt.made.frames, computed.marked i less, known]
  constructor
  · rintro (⟨_, same, point, rfl⟩ | ⟨start, -⟩)
    · cases same
      exact ⟨point, rfl⟩
    · exact absurd start alive
  · rintro ⟨point, rfl⟩
    exact .inl ⟨s, rfl, point, rfl⟩

/-- The frames are those of the states. -/
theorem framed : code.Framed code' t.state? (FramePlan.siteLabel ins.sites) where
  frame i s known point := by
    obtain ⟨step, behind, flows⟩ := computed.solved.flows known
    rw [computed.filter_marksBefore (computed.poses.getElem?_steps i ▸ flows.here),
      (computed.getElem?_frames known _).2 ⟨point, rfl⟩]
    rfl
  none i s known point := by
    obtain ⟨step, behind, flows⟩ := computed.solved.flows known
    rw [computed.filter_marksBefore (computed.poses.getElem?_steps i ▸ flows.here)]
    cases frame : ins.frames[i]? with
    | none => rfl
    | some f => exact absurd ((computed.getElem?_frames known f).1 frame).1 point
  creates i s known site inside := computed.creates known inside
  names i s known point site inside := by
    obtain ⟨step, here, -⟩ := computed.creates known inside
    obtain ⟨_, _, flows⟩ := computed.solved.flows known
    have less : i < code.steps.length :=
      (List.getElem?_eq_some_iff.1 (computed.poses.getElem?_steps i ▸ flows.here)).1
    obtain ⟨l, there⟩ := FramePlan.exists_siteLabel computed.solved.sane
      code.instructions.labelCount known ((computed.marked i less).2 point) inside
    rw [computed.poses.context, ← computed.rebuilt.made.sites] at there
    have named : FramePlan.siteLabel ins.sites site = l := by
      rw [FramePlan.siteLabel, Std.HashMap.getD_eq_getD_getElem?, there, Option.getD_some]
    rw [named, computed.rebuilt.marksBefore_eq here]
    refine ⟨?_, fun below => computed.rebuilt.at?_site below there⟩
    refine List.mem_append_left _ (List.mem_append_right _ ?_)
    exact FramePlan.Insertions.mem_mark.2 ⟨l, there, rfl⟩

end Computed

/-- **Computed frames are sound.**  If frames are computed for a body in a hierarchy that goes by
an order of classes, they are those of a typing of the body. -/
theorem frames_sound {le : String → String → Prop} {hierarchy : Hierarchy}
    (order : hierarchy.GoesBy le) {header : MethodHeader} {code code' : Code}
    (computed : code.withFrames hierarchy header = .ok code') :
    ∃ states name, code.Typed le header code'.maxStack.toNat states
      ∧ code.Framed code' states name := by
  obtain ⟨p, entry, t, points, ins, all⟩ := (withFrames_outcome order header code).of_ok computed
  exact ⟨t.state?, FramePlan.siteLabel ins.sites, all.typed, all.framed⟩

theorem frames_sound_leaping : ∃ code', leaping.withFrames .flat leapingHeader = .ok code'
    ∧ ∃ states name,
      leaping.Typed (fun a b => a = b ∨ b = objectClass) leapingHeader code'.maxStack.toNat states
        ∧ leaping.Framed code' states name := by
  obtain ⟨code', computed⟩ := exists_withFrames_leaping
  exact ⟨code', computed, frames_sound Hierarchy.flat_goesBy computed⟩

end Code

end ClassInstrument
