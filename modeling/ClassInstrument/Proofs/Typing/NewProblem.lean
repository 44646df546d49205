import ClassInstrument.Proofs.Typing.Agreement
import ClassInstrument.Proofs.Typing.DeadCode

/-!
# The problem that a new body poses

A body that frames were computed for can be analysed again.  It poses a problem that agrees with
the old one wherever control goes, and no dead code cuts its exception ranges again.

* `Code.Computed.mem_handlers` — the ranges of the new body;
* `Code.Computed.ranges_again` — **they are not cut again**;
* `Code.Computed.agrees` — **both problems agree**;
* `Code.Computed.needsFrame` — what needs a frame in the new body needed one before;
* `Code.Computed.labelsBelow` — all labels of the new body were given out.
-/

namespace ClassInstrument

namespace Code

/-- An instruction that is reached stands behind dead code only if control jumps there. -/
theorem needsFrame_of_reached {code : Code} {k : Nat}
    (reached : code.Reached (k + 1)) (dead : ¬code.Reached k) : code.NeedsFrame (k + 1) := by
  generalize same : k + 1 = i at reached ⊢
  cases reached with
  | start some => cases same
  | jump reached here target place => exact .target here target place
  | next reached here on =>
    cases same
    exact absurd reached dead
  | handler reached range covered place => exact .handler range place

namespace Computed

variable {le : String → String → Prop} {hierarchy : Hierarchy} {header : MethodHeader}
  {code code' : Code} {p : TypingProblem} {entry : State} {t : Typing} {points : List Nat}
  {ins : FramePlan.Insertions}
  (computed : Computed le hierarchy header code p entry t points ins code')

include computed

/-! ### Exception ranges -/

/-- A range of the new body is one of the old body or a part of it.  No dead run cuts it. -/
theorem mem_handlers (below : code.LabelsBelow) {part : ExceptionRange}
    (member : part ∈ code'.handlers) :
    ∃ old ∈ code.handlers, ∃ start finish target, part.handler = old.handler
      ∧ code.at? old.handler = some target ∧ target < code.steps.length
      ∧ code'.at? part.start = some start ∧ code'.at? part.finish = some finish
      ∧ DeadRun.Clear (DeadRun.all t.states) (start, finish) := by
  have ranges := computed.handlers
  unfold FramePlan.ranges at ranges
  split at ranges
  · next none =>
    have empty : DeadRun.all t.states = [] := List.isEmpty_iff.1 none
    rw [← Except.ok.inj ranges] at member
    obtain ⟨r, -, first, last, place, less, -⟩ :=
      Traverse.exists_of_mem_right computed.poses.handlers.flip member
    refine ⟨part, member, r.start, r.finish, r.target, rfl, place, less,
      computed.at?_placed below first, computed.at?_placed below last, ?_⟩
    rw [empty]
    exact ⟨fun some => absurd rfl some, fun _ h => (nomatch h)⟩
  · obtain ⟨pieces, all, whole⟩ := Traverse.bind_eq_ok_iff.1 ranges
    rw [← Except.ok.inj whole] at member
    obtain ⟨parts, inside, here⟩ := List.mem_flatten.1 member
    obtain ⟨⟨old, r⟩, pair, split⟩ :=
      Traverse.exists_of_mem_right (Traverse.mapM_eq_ok_iff.1 all) inside
    obtain ⟨⟨start, finish⟩, piece, cut⟩ :=
      Traverse.exists_of_mem_right (Traverse.mapM_eq_ok_iff.1 split) here
    obtain ⟨first, hfirst, cut⟩ := Traverse.bind_eq_ok_iff.1 cut
    obtain ⟨last, hlast, cut⟩ := Traverse.bind_eq_ok_iff.1 cut
    cases cut
    obtain ⟨start', finish', place, less, -⟩ :=
      (List.forall₂_iff_zip.1 computed.poses.handlers).2 pair
    exact ⟨old, (List.of_mem_zip pair).1, start, finish, r.target, rfl, place, less,
      computed.at?_endLabel below start' hfirst, computed.at?_endLabel below finish' hlast,
      DeadRun.clear_of_mem_cutAll piece⟩

/-- **The ranges of the new body are not cut again.** -/
theorem ranges_again (below : code.LabelsBelow) {owner : String} {q : TypingProblem}
    (poses : code'.Poses hierarchy owner q) {t' : Typing}
    (same : DeadRun.all t'.states = DeadRun.all t.states) (points' : List Nat)
    (boundaries : Std.HashMap Nat Label) :
    (FramePlan.ofTyping t' points').ranges boundaries code'.handlers q.handlers
      = .ok code'.handlers := by
  have dead : (FramePlan.ofTyping t' points').dead = DeadRun.all t.states := same
  unfold FramePlan.ranges
  rw [dead]
  split
  · rfl
  · have whole : (code'.handlers.zip q.handlers).mapM
        (fun entry => FramePlan.splitRange (DeadRun.all t.states) boundaries entry.1 entry.2)
        = .ok ((code'.handlers.zip q.handlers).map fun entry => [entry.1]) := by
      refine Traverse.mapM_eq_ok_map fun ⟨part, r⟩ pair => ?_
      obtain ⟨first, last, -⟩ := (List.forall₂_iff_zip.1 poses.handlers).2 pair
      obtain ⟨-, -, start, finish, -, -, -, -, first', last', clear⟩ :=
        computed.mem_handlers below (List.of_mem_zip pair).1
      cases first.symm.trans first'
      cases last.symm.trans last'
      have one := DeadRun.cutAll_of_clear (DeadRun.partition_all t.states).proper clear
      refine Traverse.mapM_eq_ok_iff.2 ?_
      rw [one]
      refine .cons ?_ .nil
      exact Traverse.bind_eq_ok_iff.2 ⟨part.start, if_pos rfl,
        Traverse.bind_eq_ok_iff.2 ⟨part.finish, if_pos rfl, rfl⟩⟩
    refine Traverse.bind_eq_ok_iff.2 ⟨_, whole, congrArg Except.ok ?_⟩
    have long := poses.handlers.length_eq
    rw [← List.flatMap_def, ← List.map_eq_flatMap, List.map_fst_zip (Nat.le_of_eq long)]

/-- The new body poses a problem. -/
theorem exists_problem (below : code.LabelsBelow) (hierarchy : Hierarchy) (owner : String) :
    ∃ q, TypingProblem.ofSteps hierarchy owner code'.unframed code'.handlers = .ok q := by
  refine exists_ofSteps code' hierarchy owner fun part member => ?_
  obtain ⟨old, -, start, finish, target, handler, place, less, first, last, -⟩ :=
    computed.mem_handlers below member
  refine ⟨⟨start, finish, target, .top⟩, first, last, ?_, ?_⟩
  · rw [handler]
    exact computed.at?_placed below place
  · rw [computed.rebuilt.length_steps]
    exact less

/-! ### Where control goes -/

/-- **Both problems agree.** -/
theorem agrees (below : code.LabelsBelow) {q : TypingProblem}
    (poses : code'.Poses hierarchy header.owner q) : p.Agrees q where
  hierarchy := poses.hierarchy.trans computed.poses.hierarchy.symm
  owner := by rw [poses.context, computed.poses.context]
  size := by rw [poses.size, computed.poses.size, computed.rebuilt.length_steps]
  insn i reached := by
    rw [poses.getElem?_steps, computed.poses.getElem?_steps]
    exact computed.kept (computed.poses.reached reached)
  target l j place := by
    obtain ⟨place, less⟩ := computed.poses.target_eq_ok place
    exact poses.target_of_at? (computed.at?_placed below place)
      (computed.rebuilt.length_steps.symm ▸ less)
  handlers i reached := by
    have same : (q.handlers.filter (·.covers i)).map (fun r => (some r.target, r.caught))
        = (p.handlers.filter (·.covers i)).map fun r => (some r.target, r.caught) := by
      rw [poses.handlersAt_eq, computed.poses.handlersAt_eq,
        computed.handlersAt_of_reached below (computed.poses.reached reached)]
    have apart : Function.Injective fun entry : Nat × Slot => (some entry.1, entry.2) := by
      rintro ⟨target, caught⟩ ⟨target', caught'⟩ same
      cases same
      rfl
    refine List.map_injective_iff.2 apart ?_
    rw [List.map_map, List.map_map]
    exact same

/-- An instruction of the new body is one of the old body that is reached, or one that goes to no
label. -/
theorem reached_or_simple {k : Nat} {step : Step} (here : code'.steps[k]? = some step) :
    (∃ old, code.Reached k ∧ code.steps[k]? = some old ∧ old.insn = step.insn)
      ∨ ¬code.Reached k ∧ ∃ op, step.insn = .simple op := by
  have less : k < code.steps.length := by
    rw [← computed.rebuilt.length_steps]
    exact (List.getElem?_eq_some_iff.1 here).1
  by_cases reached : code.Reached k
  · have kept := computed.kept reached
    rw [here, List.getElem?_eq_getElem less] at kept
    exact .inl ⟨_, reached, List.getElem?_eq_getElem less, (Option.some.inj kept).symm⟩
  · obtain ⟨run, member, holds⟩ := computed.exists_run less reached
    have replaced := computed.replaced less member holds
    rw [here] at replaced
    exact .inr ⟨reached, _, Option.some.inj replaced⟩

/-- What is reached jumps to labels that are placed. -/
theorem exists_at? {k : Nat} {step : Step} (reached : code.Reached k)
    (here : code.steps[k]? = some step) {l : Label} (target : l ∈ step.operand.targets) :
    ∃ j, code.at? l = some j ∧ j < code.steps.length := by
  obtain ⟨s, known⟩ := computed.poses.state_of_reached computed.solved reached
  obtain ⟨step', behind, flows⟩ := computed.solved.flows known
  have there := flows.here
  rw [computed.poses.getElem?_steps, here] at there
  cases there
  obtain ⟨j, place, -⟩ := flows.jump l target
  exact ⟨j, computed.poses.target_eq_ok place⟩

/-- **What needs a frame in the new body needed one before.** -/
theorem needsFrame (below : code.LabelsBelow) {i : Nat} (reached : code.Reached i)
    (need : code'.NeedsFrame i) : code.NeedsFrame i := by
  cases need with
  | @target k _ step l here target place =>
    rcases computed.reached_or_simple here with ⟨old, reached', there, same⟩ | ⟨-, op, simple⟩
    · obtain ⟨marks, opcode, operand⟩ := step
      obtain ⟨marks', opcode', operand'⟩ := old
      cases same
      obtain ⟨j, place', -⟩ := computed.exists_at? reached' there target
      rw [computed.at?_placed below place'] at place
      cases place
      exact .target there target place'
    · obtain ⟨marks, opcode, operand⟩ := step
      cases simple
      cases target
  | @behind k step here off =>
    rcases computed.reached_or_simple here with ⟨old, reached', there, same⟩ | ⟨dead, -⟩
    · obtain ⟨marks, opcode, operand⟩ := step
      obtain ⟨marks', opcode', operand'⟩ := old
      cases same
      exact .behind there off
    · exact needsFrame_of_reached reached dead
  | @handler _ r range place =>
    obtain ⟨old, member, -, -, target, handler, place', -⟩ := computed.mem_handlers below range
    rw [handler, computed.at?_placed below place'] at place
    cases place
    exact .handler member place'

/-- The steps of the new body that need frames are found. -/
theorem exists_points (below : code.LabelsBelow) {owner : String} {q : TypingProblem}
    (poses : code'.Poses hierarchy owner q) : ∃ points, q.points = .ok points := by
  have jump : ∀ entry ∈ q.context.steps.toList.zipIdx,
      ∃ found, q.pointsOf entry.2 entry.1 = .ok found := by
    intro ⟨step, k⟩ member
    rw [List.mem_zipIdx_iff_getElem?, Array.getElem?_toList, poses.getElem?_steps] at member
    obtain ⟨targets, found⟩ := Traverse.exists_mapM (l := step.operand.targets) (f := q.target)
      fun l target => by
        obtain ⟨marks, opcode, operand⟩ := step
        rcases computed.reached_or_simple member with
          ⟨⟨marks', opcode', operand'⟩, reached, there, same⟩ | ⟨-, op, simple⟩
        · cases same
          obtain ⟨j, place, less⟩ := computed.exists_at? reached there target
          exact ⟨j, poses.target_of_at? (computed.at?_placed below place)
            (computed.rebuilt.length_steps.symm ▸ less)⟩
        · cases simple
          cases target
    exact ⟨_, Traverse.bind_eq_ok_iff.2 ⟨targets, found, rfl⟩⟩
  obtain ⟨found, all⟩ := Traverse.exists_mapM jump
  exact ⟨_, Traverse.bind_eq_ok_iff.2 ⟨found, all, rfl⟩⟩

/-! ### Labels -/

/-- **All labels of the new body were given out**, if there are as many as it needs. -/
theorem labelsBelow (below : code.LabelsBelow) (count : code.instructions.labelCount
    + ins.sites.size + ins.boundaries.size ≤ code'.instructions.labelCount) :
    code'.LabelsBelow := by
  have sites := FramePlan.size_label
    (FramePlan.nodup_siteSteps (FramePlan.ofTyping t points) code.steps.toArray)
    code.instructions.labelCount
  rw [← computed.rebuilt.made.sites] at sites
  have distinct : (FramePlan.ofTyping t points).boundaries.Nodup := FramePlan.nodup_boundaries
  have boundaries := FramePlan.size_label distinct (code.instructions.labelCount
    + ((FramePlan.ofTyping t points).siteSteps code.steps.toArray).length)
  rw [← computed.rebuilt.made.boundaries] at boundaries
  have site : ∀ {i : Nat} {l : Label}, ins.sites[i]? = some l →
      l.index < code'.instructions.labelCount := by
    intro i l there
    have := (computed.rebuilt.sites_index there).2
    omega
  have boundary : ∀ {i : Nat} {l : Label}, ins.boundaries[i]? = some l →
      l.index < code'.instructions.labelCount := by
    intro i l there
    rw [computed.rebuilt.made.boundaries] at there
    obtain ⟨k, inside, rfl⟩ := (FramePlan.getElem?_label FramePlan.nodup_boundaries).1 there
    have := (List.getElem?_eq_some_iff.1 inside).1
    dsimp only
    omega
  have old : ∀ {l : Label}, l ∈ Steps.labelsOf code.unframed.toList →
      l.index < code'.instructions.labelCount := by
    intro l placed
    obtain ⟨insn, member, label⟩ := List.mem_filterMap.1 placed
    rw [unframed, Steps.toList_ofList] at member
    have := below l (List.mem_filterMap.2 ⟨insn, List.mem_of_mem_filter member, label⟩)
    omega
  intro l placed
  rw [← Steps.toList_ofList code'.instructions.toList, computed.rebuilt.ofList_eq,
    Steps.mem_labelsOf_toList] at placed
  rcases placed with ⟨step, member, marked⟩ | last
  · obtain ⟨i, there⟩ := List.mem_iff_getElem?.1 member
    rw [FramePlan.Insertions.getElem?_body] at there
    obtain ⟨before, here, rfl⟩ := Option.map_eq_some_iff.1 there
    rw [FramePlan.Insertions.marks_step, FramePlan.Insertions.mem_labelsOf_marks] at marked
    rcases marked with dead | own | new
    · exact boundary dead
    · exact old (Steps.mem_labelsOf_toList.2 (.inl ⟨before, List.mem_of_getElem? here, own⟩))
    · exact site new
  · rcases FramePlan.Insertions.mem_labelsOf_tail.1 last with own | dead
    · exact old (Steps.mem_labelsOf_toList.2 (.inr own))
    · exact boundary dead

end Computed

end Code

end ClassInstrument
