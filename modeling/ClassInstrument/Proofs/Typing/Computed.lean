import ClassInstrument.Proofs.Typing.NewBody
import ClassInstrument.Proofs.Typing.Turns

/-!
# Computed frames

What is done for a body on the way to its frames, and what comes of it.

* `Code.NeedsFrame` — the instructions that get a frame if they are reached;
* `Code.Computation`, `Code.withFrames_eq_ok_iff` — everything that is computed on the way;
* `Code.Computed` — **a body for which frames were computed**, and what is known of it;
* `Code.withFrames_outcome` — every body is such a body, or it has an ordinary fault.
-/

namespace ClassInstrument

namespace Code

/-- The instructions that get a frame if they are reached: the targets of jumps, those behind an
instruction that control does not pass, and handlers. -/
inductive NeedsFrame (code : Code) : Nat → Prop
  | target {k i : Nat} {step : Step} {l : Label} (here : code.steps[k]? = some step)
      (target : l ∈ step.operand.targets) (place : code.at? l = some i) : NeedsFrame code i
  | behind {k : Nat} {step : Step} (here : code.steps[k]? = some step)
      (off : step.opcode.isUnconditional = true) : NeedsFrame code (k + 1)
  | handler {i : Nat} {r : ExceptionRange} (range : r ∈ code.handlers)
      (place : code.at? r.handler = some i) : NeedsFrame code i

/-- **A body for which frames were computed**, with everything that was made on the way. -/
structure Computed (le : String → String → Prop) (hierarchy : Hierarchy) (header : MethodHeader)
    (code : Code) (p : TypingProblem) (entry : State) (t : Typing) (points : List Nat)
    (ins : FramePlan.Insertions) (code' : Code) : Prop where
  enters : ∃ locals, Code.localSize header (code.instructions.toList.filter (!·.isFrame))
    = .ok locals ∧ TypingProblem.entryState header locals = .ok entry
  poses : code.Poses hierarchy header.owner p
  solved : p.Solved le entry.locals.length entry t
  marked : ∀ i < code.steps.length, i ∈ points ↔ code.NeedsFrame i
  rebuilt : code.Rebuilt t points ins code'
  handlers : (FramePlan.ofTyping t points).ranges ins.boundaries code.handlers p.handlers
    = .ok code'.handlers
  scopes : code'.localVariables = code.localVariables
  height : t.height ≤ code'.maxStack.toNat

/-! ### The parts -/

theorem localSize_outcome (header : MethodHeader) (insns : List Instruction) :
    Ends (fun _ => True) (Code.localSize header insns) := by
  refine (methodType_outcome header.desc).bind fun type _ => ?_
  dsimp only
  split <;> exact trivial

/-- No local of the entry holds an object whose constructor has still to run, but the receiver. -/
theorem entryState_outcome (made : Nat → Prop) (header : MethodHeader) (locals : Nat) :
    Ends (fun entry => entry.Tracked made entry.locals.length)
      (TypingProblem.entryState header locals) := by
  have frame : Ends (fun _ => True) header.entryFrame :=
    (methodType_outcome header.desc).bind fun type _ => trivial
  refine frame.bind fun frame _ => ⟨rfl, fun slot member => ?_, fun _ h => (nomatch h)⟩
  rcases List.mem_append.1 member with argument | other
  · obtain ⟨entry, inside, half⟩ := List.mem_flatMap.1 (List.mem_of_mem_take argument)
    obtain ⟨type, -, rfl⟩ := List.mem_map.1 inside
    unfold Slot.widen at half
    split at half
    · rcases List.mem_cons.1 half with rfl | second
      · exact Slot.madeBy_declared type
      · rw [List.mem_singleton.1 second]
        exact trivial
    · rw [List.mem_singleton.1 half]
      exact Slot.madeBy_declared type
  · rw [List.eq_of_mem_replicate other]
    exact trivial

/-- The operand stack of a method is empty at first. -/
theorem stack_entryState {header : MethodHeader} {locals : Nat} {entry : State}
    (enters : TypingProblem.entryState header locals = .ok entry) : entry.stack = [] := by
  obtain ⟨frame, -, rest⟩ := Traverse.bind_eq_ok_iff.1 enters
  cases rest
  rfl

section Points

variable {code : Code} {hierarchy : Hierarchy} {owner : String} {p : TypingProblem}
  (poses : code.Poses hierarchy owner p)

include poses

/-- The steps that need frames because of one step. -/
theorem pointsOf_outcome {k : Nat} {step : Step} :
    Ends (fun found => ∀ i < code.steps.length, i ∈ found ↔
      (∃ l ∈ step.operand.targets, code.at? l = some i)
        ∨ step.opcode.isUnconditional = true ∧ i = k + 1) (p.pointsOf k step) := by
  have all : Ends (List.Forall₂ (fun l j => p.target l = .ok j) step.operand.targets)
      (step.operand.targets.mapM p.target) :=
    Ends.mapM fun l _ => (TypingProblem.target_outcome l).self.imp fun j ⟨_, place⟩ => place
  refine all.bind fun targets found => ?_
  have jump : ∀ i, i ∈ targets ↔ ∃ l ∈ step.operand.targets, code.at? l = some i := by
    intro i
    constructor
    · intro member
      obtain ⟨l, target, place⟩ := Traverse.exists_of_mem_right found member
      exact ⟨l, target, (poses.target_eq_ok place).1⟩
    · rintro ⟨l, target, place⟩
      obtain ⟨j, member, place'⟩ := Traverse.exists_of_mem_right found.flip target
      have same := (poses.target_eq_ok place').1
      rw [place] at same
      cases same
      exact member
  intro i less
  rw [← jump i]
  split
  · next stops =>
    rw [Bool.and_eq_true] at stops
    rw [List.mem_append, List.mem_singleton]
    simp only [stops.1, true_and]
  · next stops =>
    rw [Bool.and_eq_true, decide_eq_true_eq, poses.size] at stops
    refine ⟨.inl, fun h => h.resolve_right ?_⟩
    rintro ⟨off, rfl⟩
    exact stops ⟨off, less⟩

/-- The steps that need frames are found. -/
theorem points_outcome :
    Ends (fun points => ∀ i < code.steps.length, i ∈ points ↔ code.NeedsFrame i) p.points := by
  have all : Ends (List.Forall₂ (fun (entry : Step × Nat) found =>
      ∀ i < code.steps.length, i ∈ found ↔
        (∃ l ∈ entry.1.operand.targets, code.at? l = some i)
          ∨ entry.1.opcode.isUnconditional = true ∧ i = entry.2 + 1)
      p.context.steps.toList.zipIdx)
      (p.context.steps.toList.zipIdx.mapM fun entry => p.pointsOf entry.2 entry.1) :=
    Ends.mapM fun entry _ => pointsOf_outcome poses
  have numbered : ∀ entry : Step × Nat, entry ∈ p.context.steps.toList.zipIdx
      ↔ code.steps[entry.2]? = some entry.1 := by
    intro entry
    rw [List.mem_zipIdx_iff_getElem?, Array.getElem?_toList, poses.getElem?_steps]
  refine all.bind fun found each i less => ?_
  rw [List.mem_append, List.mem_flatten, List.mem_map]
  constructor
  · rintro (⟨own, member, inside⟩ | ⟨r', range, rfl⟩)
    · obtain ⟨entry, there, same⟩ := Traverse.exists_of_mem_right each member
      rw [numbered] at there
      rcases (same i less).1 inside with ⟨l, target, place⟩ | ⟨off, rfl⟩
      · exact .target there target place
      · exact .behind there off
    · obtain ⟨r, member, -, -, place, -, -⟩ := Traverse.exists_of_mem_right poses.handlers range
      exact .handler member place
  · intro need
    have own : ∀ (k : Nat) (step : Step), code.steps[k]? = some step →
        (∃ l ∈ step.operand.targets, code.at? l = some i)
          ∨ step.opcode.isUnconditional = true ∧ i = k + 1 → ∃ l ∈ found, i ∈ l := by
      intro k step here because
      obtain ⟨own, member, same⟩ :=
        Traverse.exists_of_mem_right each.flip ((numbered (step, k)).2 here)
      exact ⟨own, member, (same i less).2 because⟩
    cases need with
    | target here target place => exact .inl (own _ _ here (.inl ⟨_, target, place⟩))
    | behind here off => exact .inl (own _ _ here (.inr ⟨off, rfl⟩))
    | handler range place =>
      obtain ⟨r', member, -, -, place', -, -⟩ :=
        Traverse.exists_of_mem_right poses.handlers.flip range
      rw [place] at place'
      cases place'
      exact .inr ⟨r', member, rfl⟩

end Points

/-! ### Exception ranges -/

/-- A range can be cut if the ends of all runs have labels. -/
theorem exists_splitRange {runs : List DeadRun} {boundaries : Std.HashMap Nat Label}
    (ends : ∀ run ∈ runs, (∃ l, boundaries[run.start]? = some l)
      ∧ ∃ l, boundaries[run.finish]? = some l)
    (old : ExceptionRange) (r : HandlerRange) :
    ∃ parts, FramePlan.splitRange runs boundaries old r = .ok parts := by
  have label : ∀ (l : Label) (own i : Nat), (i = own ∨ ∃ l, boundaries[i]? = some l) →
      ∃ new, FramePlan.endLabel boundaries l own i = .ok new := by
    intro l own i known
    unfold FramePlan.endLabel
    split
    · exact ⟨l, rfl⟩
    · next other =>
      obtain ⟨new, here⟩ := known.resolve_left other
      rw [here]
      exact ⟨new, rfl⟩
  refine Traverse.exists_mapM fun part member => ?_
  obtain ⟨first, last⟩ := DeadRun.ends_cutAll member
  obtain ⟨start, hstart⟩ := label old.start r.start part.1 (first.imp_right
    fun ⟨run, inside, same⟩ => same ▸ (ends run inside).2)
  obtain ⟨finish, hfinish⟩ := label old.finish r.finish part.2 (last.imp_right
    fun ⟨run, inside, same⟩ => same ▸ (ends run inside).1)
  exact ⟨_, Traverse.bind_eq_ok_iff.2 ⟨start, hstart,
    Traverse.bind_eq_ok_iff.2 ⟨finish, hfinish, rfl⟩⟩⟩

/-- **The exception ranges are always cut outside of dead code.** -/
theorem exists_ranges {t : Typing} {points : List Nat} {steps : Array Step} {labelCount : Nat}
    {ins : FramePlan.Insertions} (made : FramePlan.Made t points steps labelCount ins)
    (old : List ExceptionRange) (resolved : List HandlerRange) :
    ∃ handlers, (FramePlan.ofTyping t points).ranges ins.boundaries old resolved
      = .ok handlers := by
  have ends : ∀ run ∈ DeadRun.all t.states, ∀ i ∈ [run.start, run.finish],
      ∃ l, ins.boundaries[i]? = some l := by
    intro run member i inside
    rw [made.boundaries]
    exact FramePlan.exists_label FramePlan.nodup_boundaries _
      (List.mem_flatMap.2 ⟨run, member, inside⟩)
  unfold FramePlan.ranges
  split
  · exact ⟨old, rfl⟩
  · obtain ⟨parts, all⟩ := Traverse.exists_mapM (l := old.zip resolved)
      (f := fun entry => FramePlan.splitRange (DeadRun.all t.states) ins.boundaries entry.1 entry.2)
      fun entry _ => exists_splitRange (fun run member => ⟨ends run member _ List.mem_cons_self,
        ends run member _ (List.mem_cons_of_mem _ List.mem_cons_self)⟩) entry.1 entry.2
    exact ⟨parts.flatten, Traverse.bind_eq_ok_iff.2 ⟨parts, all, rfl⟩⟩

/-! ### All of it -/

/-- What is computed for a body on the way to its frames. -/
structure Computation (hierarchy : Hierarchy) (header : MethodHeader) (code : Code) (locals : Nat)
    (p : TypingProblem) (entry : State) (t : Typing) (points : List Nat)
    (ins : FramePlan.Insertions) (handlers : List ExceptionRange) : Prop where
  size : Code.localSize header (code.instructions.toList.filter (!·.isFrame)) = .ok locals
  problem : TypingProblem.ofSteps hierarchy header.owner code.unframed code.handlers = .ok p
  enters : TypingProblem.entryState header locals = .ok entry
  settled : p.solve entry = .ok t
  marked : p.points = .ok points
  tables : (FramePlan.ofTyping t points).insertions p.context.steps code.instructions.labelCount
    = .ok ins
  ranges : (FramePlan.ofTyping t points).ranges ins.boundaries code.handlers p.handlers
    = .ok handlers
  shallow : t.height ≤ 65535

/-- The body that comes of it. -/
def reframed (code : Code) (locals : Nat) (t : Typing) (ins : FramePlan.Insertions)
    (handlers : List ExceptionRange) : Code :=
  { code with
    maxStack := UInt16.ofNat (if (DeadRun.all t.states).isEmpty then t.height else max t.height 1)
    maxLocals := UInt16.ofNat locals
    instructions := Sequence.ofList (FramePlan.instructions ins code.unframed)
      (code.instructions.labelCount + ins.sites.size + ins.boundaries.size)
    handlers }

/-- A body gets frames if all of this can be computed. -/
theorem withFrames_eq_ok_iff {hierarchy : Hierarchy} {header : MethodHeader} {code code' : Code} :
    code.withFrames hierarchy header = .ok code' ↔ ∃ locals p entry t points ins handlers,
      Computation hierarchy header code locals p entry t points ins handlers
        ∧ code' = code.reframed locals t ins handlers := by
  constructor
  · intro computed
    obtain ⟨locals, size, rest⟩ := Traverse.bind_eq_ok_iff.1 computed
    obtain ⟨p, problem, rest⟩ := Traverse.bind_eq_ok_iff.1 rest
    obtain ⟨entry, enters, rest⟩ := Traverse.bind_eq_ok_iff.1 rest
    obtain ⟨t, settled, rest⟩ := Traverse.bind_eq_ok_iff.1 rest
    obtain ⟨points, marked, rest⟩ := Traverse.bind_eq_ok_iff.1 rest
    obtain ⟨ins, tables, rest⟩ := Traverse.bind_eq_ok_iff.1 rest
    obtain ⟨handlers, ranges, rest⟩ := Traverse.bind_eq_ok_iff.1 rest
    dsimp only at rest
    split at rest
    · cases rest
    · next shallow =>
      exact ⟨locals, p, entry, t, points, ins, handlers,
        ⟨size, problem, enters, settled, marked, tables, ranges, Nat.not_lt.1 shallow⟩,
        (Except.ok.inj rest).symm⟩
  · rintro ⟨locals, p, entry, t, points, ins, handlers, all, rfl⟩
    exact Traverse.bind_eq_ok_iff.2 ⟨locals, all.size, Traverse.bind_eq_ok_iff.2 ⟨p, all.problem,
      Traverse.bind_eq_ok_iff.2 ⟨entry, all.enters, Traverse.bind_eq_ok_iff.2 ⟨t, all.settled,
      Traverse.bind_eq_ok_iff.2 ⟨points, all.marked, Traverse.bind_eq_ok_iff.2 ⟨ins, all.tables,
      Traverse.bind_eq_ok_iff.2 ⟨handlers, all.ranges, if_neg (Nat.not_lt.2 all.shallow)⟩⟩⟩⟩⟩⟩⟩

section Computation

variable {hierarchy : Hierarchy} {header : MethodHeader} {code : Code} {locals : Nat}
  {p : TypingProblem} {entry : State} {t : Typing} {points : List Nat}
  {ins : FramePlan.Insertions} {handlers : List ExceptionRange}

/-- No operand stack is higher than the new limit. -/
theorem height_reframed (shallow : t.height ≤ 65535) :
    t.height ≤ (code.reframed locals t ins handlers).maxStack.toNat := by
  unfold reframed
  dsimp only
  split
  · exact Nat.le_of_eq (UInt16.toNat_ofNat_of_lt' (Nat.lt_succ_of_le shallow)).symm
  · rw [UInt16.toNat_ofNat_of_lt' (Nat.lt_succ_of_le (Nat.max_le.2 ⟨shallow, by decide⟩))]
    exact Nat.le_max_left _ _

/-- What is known of a body for which frames were computed. -/
theorem Computation.computed {le : String → String → Prop} (order : hierarchy.GoesBy le)
    (all : Computation hierarchy header code locals p entry t points ins handlers) :
    Computed le hierarchy header code p entry t points ins
      (code.reframed locals t ins handlers) := by
  have poses := (code.ofSteps_outcome hierarchy header.owner).of_ok all.problem
  have tracked := (entryState_outcome p.Creates header locals).of_ok all.enters
  have solved := (TypingProblem.solve_outcome (poses.hierarchy ▸ order) poses.posed
    tracked).of_ok all.settled
  obtain ⟨_, tables, made⟩ :=
    FramePlan.insertions_eq solved.sane points code.instructions.labelCount
  cases all.tables.symm.trans tables
  rw [poses.context] at made
  exact ⟨⟨locals, all.size, all.enters⟩, poses, solved, (points_outcome poses).of_ok all.marked,
    ⟨by rw [solved.sane.size, poses.size], made, Sequence.toList_ofList _ _⟩, all.ranges, rfl,
    height_reframed all.shallow⟩

end Computation

/-- **Every body gets frames, or it has an ordinary fault.** -/
theorem withFrames_outcome {le : String → String → Prop} {hierarchy : Hierarchy}
    (order : hierarchy.GoesBy le) (header : MethodHeader) (code : Code) :
    Ends (fun code' => ∃ p entry t points ins,
      Computed le hierarchy header code p entry t points ins code')
      (code.withFrames hierarchy header) := by
  refine (localSize_outcome header _).self.bind fun locals ⟨_, size⟩ => ?_
  refine (code.ofSteps_outcome hierarchy header.owner).self.bind fun p ⟨poses, problem⟩ => ?_
  refine (entryState_outcome p.Creates header locals).self.bind fun entry ⟨tracked, enters⟩ => ?_
  refine (TypingProblem.solve_outcome (poses.hierarchy ▸ order) poses.posed tracked).self.bind
    fun t ⟨solved, settled⟩ => ?_
  refine (points_outcome poses).self.bind fun points ⟨_, marked⟩ => ?_
  obtain ⟨ins, tables, made⟩ :=
    FramePlan.insertions_eq solved.sane points code.instructions.labelCount
  refine Ends.bind (P := fun ins' => ins' = ins) (by rw [tables]; exact rfl) ?_
  rintro _ rfl
  obtain ⟨handlers, ranges⟩ := exists_ranges made code.handlers p.handlers
  refine Ends.bind (P := fun handlers' => handlers' = handlers) (by rw [ranges]; exact rfl) ?_
  rintro _ rfl
  dsimp only
  split
  · exact trivial
  · next shallow =>
    exact ⟨p, entry, t, points, _, Computation.computed order
      ⟨size, problem, enters, settled, marked, tables, ranges, Nat.not_lt.1 shallow⟩⟩

/-- Labels, frames and ranges are always made. -/
theorem exists_computation {hierarchy : Hierarchy} {header : MethodHeader} {code : Code}
    {locals : Nat} (size : Code.localSize header (code.instructions.toList.filter (!·.isFrame))
      = .ok locals) {p : TypingProblem}
    (problem : TypingProblem.ofSteps hierarchy header.owner code.unframed code.handlers = .ok p)
    {entry : State} (enters : TypingProblem.entryState header locals = .ok entry) {t : Typing}
    (settled : p.solve entry = .ok t) {points : List Nat} (marked : p.points = .ok points)
    (shallow : t.height ≤ 65535) : ∃ ins handlers,
      Computation hierarchy header code locals p entry t points ins handlers := by
  have poses := (code.ofSteps_outcome hierarchy header.owner).of_ok problem
  have tracked := (entryState_outcome p.Creates header locals).of_ok enters
  have solved := (TypingProblem.solve_outcome p.hierarchy.goesBy_true poses.posed
    tracked).of_ok settled
  obtain ⟨ins, tables, made⟩ :=
    FramePlan.insertions_eq solved.sane points code.instructions.labelCount
  obtain ⟨handlers, ranges⟩ := exists_ranges made code.handlers p.handlers
  exact ⟨ins, handlers, size, problem, enters, settled, marked, tables, ranges, shallow⟩

/-- A body gets frames if its typing is settled and no operand stack is too high. -/
theorem exists_withFrames {hierarchy : Hierarchy} {header : MethodHeader} {code : Code}
    {locals : Nat} (size : Code.localSize header (code.instructions.toList.filter (!·.isFrame))
      = .ok locals) {p : TypingProblem}
    (problem : TypingProblem.ofSteps hierarchy header.owner code.unframed code.handlers = .ok p)
    {entry : State} (enters : TypingProblem.entryState header locals = .ok entry) {t : Typing}
    (settled : p.solve entry = .ok t) {points : List Nat} (marked : p.points = .ok points)
    (shallow : t.height ≤ 65535) : ∃ code', code.withFrames hierarchy header = .ok code' := by
  obtain ⟨ins, handlers, all⟩ := exists_computation size problem enters settled marked shallow
  exact ⟨_, withFrames_eq_ok_iff.2 ⟨locals, p, entry, t, points, ins, handlers, all, rfl⟩⟩

/-- A body gets no frames if its typing is not settled. -/
theorem withFrames_eq_error {hierarchy : Hierarchy} {header : MethodHeader} {code : Code}
    {locals : Nat} (size : Code.localSize header (code.instructions.toList.filter (!·.isFrame))
      = .ok locals) {p : TypingProblem}
    (problem : TypingProblem.ofSteps hierarchy header.owner code.unframed code.handlers = .ok p)
    {entry : State} (enters : TypingProblem.entryState header locals = .ok entry) {e : Failure}
    (failed : p.solve entry = .error e) : code.withFrames hierarchy header = .error e := by
  show (localSize header _).bind _ = _
  rw [size]
  show (TypingProblem.ofSteps hierarchy header.owner code.unframed code.handlers).bind _ = _
  rw [problem]
  show (TypingProblem.entryState header locals).bind _ = _
  rw [enters]
  show (p.solve entry).bind _ = _
  rw [failed]
  rfl

/-- A body that creates an object and jumps over dead code and a handler, which is around all of
it. -/
def leaping : Code where
  maxStack := 0
  maxLocals := 0
  instructions := .ofList [.label ⟨0⟩, .op Opcode.new (.type "Leaping"),
    .op Opcode.astore (.var 0), .op Opcode.goto (.jump ⟨3⟩), .op Opcode.iconst1 .none,
    .op Opcode.pop .none, .label ⟨2⟩, .op Opcode.athrow .none, .label ⟨3⟩,
    .op Opcode.vreturn .none, .label ⟨1⟩] 4
  handlers := [⟨⟨0⟩, ⟨1⟩, ⟨2⟩, none⟩]
  localVariables := []

/-- A static method with a string as its parameter. -/
def leapingHeader : MethodHeader := ⟨"Leaping", 0x0009, "run", "(Ljava/lang/String;)V"⟩

/-- The state at its start. -/
def leapingEntry : State := ⟨[.object "java/lang/String"], []⟩

/-- The problem that the body poses. -/
def leapingProblem : TypingProblem where
  context := ⟨"Leaping", leaping.unframed.steps.toArray⟩
  hierarchy := .flat
  positions := leaping.unframed.positions
  handlers := [⟨0, 7, 5, .object throwableClass⟩]

/-- The state behind the store, with an object that no constructor has run for. -/
def leapingStored : State := ⟨[.uninitialized ⟨0⟩], []⟩

/-- What is known behind the store.  The handler does not know whether it is behind the store. -/
def leapingStage (last : Option State) (pending : List Nat) : Typing where
  states := #[some leapingEntry, some ⟨[.object "java/lang/String"], [.uninitialized ⟨0⟩]⟩,
    some leapingStored, none, none, some ⟨[.top], [.object throwableClass]⟩, last]
  pending := pending
  height := 1

theorem ofSteps_leaping : TypingProblem.ofSteps .flat leapingHeader.owner leaping.unframed
    leaping.handlers = .ok leapingProblem := by
  have range : TypingProblem.handlerRange leaping.unframed.positions 7 ⟨⟨0⟩, ⟨1⟩, ⟨2⟩, none⟩
      = .ok ⟨0, 7, 5, .object throwableClass⟩ :=
    leaping.handlerRange_eq_ok rfl rfl rfl (by decide)
  refine Traverse.bind_eq_ok_iff.2 ⟨[⟨0, 7, 5, .object throwableClass⟩], ?_, rfl⟩
  exact Traverse.mapM_eq_ok_iff.2 (.cons range .nil)

/-- The jump leads to the return. -/
theorem target_leaping : leapingProblem.target ⟨3⟩ = .ok 6 :=
  Traverse.bind_eq_ok_iff.2 ⟨6,
    Positions.get_eq_ok_iff.2 ((leaping.getElem?_positions_unframed ⟨3⟩).trans rfl), rfl⟩

theorem targets_leaping : [⟨3⟩].mapM leapingProblem.target = .ok [6] :=
  Traverse.mapM_eq_ok_iff.2 (.cons target_leaping .nil)

theorem turn_leaping : leapingProblem.turn (leapingStage none [2, 5, 5])
    = .ok (leapingStage (some leapingStored) [6, 5, 5]) :=
  Traverse.bind_eq_ok_iff.2 ⟨leapingStored, rfl,
    Traverse.bind_eq_ok_iff.2 ⟨leapingStage none [5, 5], rfl,
      Traverse.bind_eq_ok_iff.2 ⟨[6], Traverse.bind_eq_ok_iff.2 ⟨[6], targets_leaping, rfl⟩, rfl⟩⟩⟩

theorem solve_leaping :
    leapingProblem.solve leapingEntry = .ok (leapingStage (some leapingStored) []) := by
  have initial : leapingProblem.Turns leapingEntry 0 [0] _ := .start
  have created : TypingProblem.Turns _ _ 1 ([1, 5] ++ _) _ := initial.turn rfl rfl rfl
  have stored : TypingProblem.Turns _ _ 2 ([2, 5] ++ _) (leapingStage none [2, 5, 5]) :=
    created.turn rfl rfl rfl
  have jumped : TypingProblem.Turns _ _ 3 ([6] ++ _) _ := stored.turn rfl turn_leaping rfl
  have returned : TypingProblem.Turns _ _ 4 ([] ++ _) _ := jumped.turn rfl rfl rfl
  have caught : TypingProblem.Turns _ _ 5 ([] ++ _) _ := returned.turn rfl rfl rfl
  have again : TypingProblem.Turns _ _ 6 ([] ++ _) (leapingStage (some leapingStored) []) :=
    caught.turn rfl rfl rfl
  exact again.solve_eq_ok rfl (by decide)

/-- Frames are needed where the jump leads, behind it, and at the handler. -/
theorem points_leaping : leapingProblem.points = .ok [6, 3, 6, 5] := by
  have pointsOf : leapingProblem.pointsOf 2 ⟨[], Opcode.goto, .jump ⟨3⟩⟩ = .ok [6, 3] :=
    Traverse.bind_eq_ok_iff.2 ⟨[6], targets_leaping, rfl⟩
  refine Traverse.bind_eq_ok_iff.2 ⟨[[], [], [6, 3], [], [], [6], []], ?_, rfl⟩
  exact Traverse.mapM_eq_ok_iff.2 (.cons rfl (.cons rfl (.cons pointsOf (.cons rfl (.cons rfl
    (.cons rfl (.cons rfl .nil)))))))

/-- Frames are computed for the body. -/
theorem exists_withFrames_leaping :
    ∃ code', leaping.withFrames .flat leapingHeader = .ok code' := by
  have size : Code.localSize leapingHeader (leaping.instructions.toList.filter (!·.isFrame))
      = .ok 1 := rfl
  have enters : TypingProblem.entryState leapingHeader 1 = .ok leapingEntry := rfl
  exact exists_withFrames size ofSteps_leaping enters solve_leaping points_leaping (by decide)

end Code

end ClassInstrument
