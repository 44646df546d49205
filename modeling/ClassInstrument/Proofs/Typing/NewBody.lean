import ClassInstrument.Proofs.Typing.Flow
import ClassInstrument.Proofs.Typing.Insertions

/-!
# The new body

The new body has the steps of the old one, each with some more marks in front of it and, if it is
dead, with another instruction.  Old labels stand where they stood, and every new label stands in
front of the step that it was made for.

* `FramePlan.Insertions.body` — the new body by its steps;
* `FramePlan.instructions_eq` — it is the one that is made;
* `Code.Rebuilt` — a body that is made from another one;
* `Code.Rebuilt.at?_old`, `Code.Rebuilt.at?_site`, `Code.Rebuilt.at?_boundary` — **where labels
  stand in it**.
-/

namespace ClassInstrument

namespace FramePlan

namespace Insertions

variable (ins : Insertions)

/-- The marks in front of a step of the new body. -/
def marks (i : Nat) (step : Step) : List Instruction :=
  mark ins.boundaries i ++ step.marks ++ mark ins.sites i
    ++ (ins.frames[i]?.map Instruction.frame).toList

/-- A step of the new body. -/
def step (i : Nat) (step : Step) : Step :=
  match ins.dead[i]? with
  | some (.op opcode operand) => ⟨ins.marks i step, opcode, operand⟩
  | _ => ⟨ins.marks i step, step.opcode, step.operand⟩

/-- The new body by its steps. -/
def body (view : Steps) : Steps :=
  ⟨view.steps.zipIdx.map fun entry => ins.step entry.2 entry.1,
    view.tail ++ mark ins.boundaries view.steps.length⟩

theorem marks_step (i : Nat) (step : Step) : (ins.step i step).marks = ins.marks i step := by
  unfold Insertions.step
  split <;> rfl

theorem getElem?_body (view : Steps) (i : Nat) :
    (ins.body view).steps[i]? = view.steps[i]?.map (ins.step i) := by
  rw [body, List.getElem?_map, List.getElem?_zipIdx, Option.map_map, Nat.zero_add]
  rfl

theorem length_body (view : Steps) : (ins.body view).steps.length = view.steps.length := by
  rw [body, List.length_map, List.length_zipIdx]

theorem mem_mark {labels : Std.HashMap Nat Label} {i : Nat} {insn : Instruction} :
    insn ∈ mark labels i ↔ ∃ l, labels[i]? = some l ∧ insn = .label l := by
  rw [mark, Option.mem_toList, Option.map_eq_some_iff]
  exact exists_congr fun l => and_congr_right fun _ => eq_comm

variable {ins}

theorem pseudo_marks {i : Nat} {step : Step}
    (pseudo : ∀ mark ∈ step.marks, mark.isPseudo = true) :
    ∀ mark ∈ ins.marks i step, mark.isPseudo = true := by
  intro mark member
  rcases List.mem_append.1 member with front | framed
  · rcases List.mem_append.1 front with front | site
    · rcases List.mem_append.1 front with boundary | old
      · obtain ⟨l, -, rfl⟩ := mem_mark.1 boundary
        rfl
      · exact pseudo mark old
    · obtain ⟨l, -, rfl⟩ := mem_mark.1 site
      rfl
  · obtain ⟨frame, -, rfl⟩ := Option.map_eq_some_iff.1 (Option.mem_toList.1 framed)
    rfl

theorem tidy_body {view : Steps} (tidy : view.Tidy) : (ins.body view).Tidy where
  marks step member := by
    obtain ⟨i, there⟩ := List.mem_iff_getElem?.1 member
    rw [getElem?_body] at there
    obtain ⟨old, here, rfl⟩ := Option.map_eq_some_iff.1 there
    rw [marks_step]
    exact pseudo_marks (tidy.marks old (List.mem_of_getElem? here))
  tail mark member := by
    rcases List.mem_append.1 member with old | boundary
    · exact tidy.tail mark old
    · obtain ⟨l, -, rfl⟩ := mem_mark.1 boundary
      rfl

theorem mem_labelsOf_mark (labels : Std.HashMap Nat Label) {i : Nat} {l : Label} :
    l ∈ Steps.labelsOf (mark labels i) ↔ labels[i]? = some l := by
  unfold mark
  cases labels[i]? with
  | none => exact ⟨fun h => (nomatch h), fun h => (nomatch h)⟩
  | some l' => exact List.mem_singleton.trans ⟨fun h => h ▸ rfl, fun h => (Option.some.inj h).symm⟩

/-- The labels behind the last step of the new body. -/
theorem mem_labelsOf_tail {view : Steps} {l : Label} :
    l ∈ Steps.labelsOf (ins.body view).tail
      ↔ l ∈ Steps.labelsOf view.tail ∨ ins.boundaries[view.steps.length]? = some l := by
  have labels := mem_labelsOf_mark ins.boundaries (i := view.steps.length) (l := l)
  simp only [Steps.labelsOf] at labels ⊢
  rw [body, List.filterMap_append, List.mem_append]
  exact or_congr_right labels

/-- The labels in front of a step of the new body. -/
theorem mem_labelsOf_marks {i : Nat} {step : Step} {l : Label} :
    l ∈ Steps.labelsOf (ins.marks i step)
      ↔ ins.boundaries[i]? = some l ∨ l ∈ Steps.labelsOf step.marks ∨ ins.sites[i]? = some l := by
  have table := fun labels => mem_labelsOf_mark labels (i := i) (l := l)
  have framed : l ∉ Steps.labelsOf (ins.frames[i]?.map Instruction.frame).toList := by
    cases ins.frames[i]? <;> exact nofun
  simp only [Steps.labelsOf] at table framed ⊢
  simp only [marks, List.filterMap_append, List.mem_append, table, framed, or_false, or_assoc]

end Insertions

theorem nodup_boundaries {t : Typing} {points : List Nat} :
    (ofTyping t points).boundaries.Nodup := by
  have ascend : (ofTyping t points).boundaries.Pairwise (· < ·) :=
    ascend_boundaries (DeadRun.partition_all t.states)
  exact ascend.imp Nat.ne_of_lt

/-- **The new body is made of its steps.** -/
theorem instructions_eq {ins : Insertions} (view : Steps)
    (executable : ∀ (i : Nat) (insn : Instruction),
      ins.dead[i]? = some insn → insn.isPseudo = false) :
    instructions ins view = (ins.body view).toList := by
  have each : ∀ step i, stepWith ins i step
      = (ins.step i step).marks ++ [(ins.step i step).insn] := by
    intro step i
    rw [Insertions.marks_step, stepWith, Std.HashMap.getD_eq_getD_getElem?]
    unfold Insertions.step
    cases replaced : ins.dead[i]? with
    | none => rfl
    | some insn =>
      have op := executable i insn replaced
      cases insn with
      | op opcode operand => rfl
      | _ => cases op
  rw [instructions, Steps.toList, Insertions.body, List.flatMap_map, List.append_assoc]
  congr 1
  exact List.flatMap_congr fun entry _ => each entry.1 entry.2

end FramePlan

namespace Code

open FramePlan

theorem keeps_executable (insn : Instruction) (executable : insn.isPseudo = false) :
    (!insn.isFrame) = true := by
  cases insn with
  | op opcode operand => rfl
  | _ => cases executable

/-- The marks in front of an instruction. -/
def marksBefore (code : Code) (i : Nat) : List Instruction :=
  ((Steps.ofList code.instructions.toList).steps[i]?.map Step.marks).getD []

/-- All labels that are placed in a body were given out before. -/
def LabelsBelow (code : Code) : Prop :=
  ∀ l ∈ Steps.labelsOf code.instructions.toList, l.index < code.instructions.labelCount

/-- The instructions of a body are made anew from those of another one and its typing. -/
structure Rebuilt (code : Code) (t : Typing) (points : List Nat) (ins : Insertions)
    (code' : Code) : Prop where
  size : t.states.size = code.steps.length
  made : Made t points code.steps.toArray code.instructions.labelCount ins
  whole : code'.instructions.toList
    = FramePlan.instructions ins code.unframed

namespace Rebuilt

variable {code code' : Code} {t : Typing} {points : List Nat} {ins : Insertions}
  (rebuilt : code.Rebuilt t points ins code')

include rebuilt

/-- The new body by its steps. -/
theorem ofList_eq : Steps.ofList code'.instructions.toList
    = ins.body code.unframed := by
  rw [rebuilt.whole, instructions_eq]
  · exact Steps.ofList_toList (Insertions.tidy_body (Steps.tidy_ofList _))
  · intro i insn replaced
    obtain ⟨run, -, -, rfl⟩ := (rebuilt.made.dead i insn).1 replaced
    rfl

/-- Every step of the new body comes from one of the old body. -/
theorem getElem?_steps (i : Nat) : code'.steps[i]?.map Step.insn
    = code.steps[i]?.map fun step => (ins.step i step).insn := by
  rw [steps, unframed, Steps.steps_filter keeps_executable, rebuilt.ofList_eq, List.getElem?_map,
    Insertions.getElem?_body, Option.map_map, Option.map_map]
  rfl

theorem length_steps : code'.steps.length = code.steps.length := by
  rw [steps, unframed, Steps.steps_filter keeps_executable, rebuilt.ofList_eq, List.length_map,
    Insertions.length_body]
  rfl

/-- The marks in front of an instruction of the new body. -/
theorem marksBefore_eq {i : Nat} {step : Step} (here : code.steps[i]? = some step) :
    code'.marksBefore i = ins.marks i step := by
  rw [marksBefore, rebuilt.ofList_eq, Insertions.getElem?_body,
    show code.unframed.steps = code.steps from rfl,
    here]
  exact Insertions.marks_step ins i step

/-! ### Where labels stand -/

/-- The new labels of allocation sites. -/
theorem sites_index {i : Nat} {l : Label} (h : ins.sites[i]? = some l) :
    code.instructions.labelCount ≤ l.index
      ∧ l.index < code.instructions.labelCount
        + ((ofTyping t points).siteSteps code.steps.toArray).length := by
  rw [rebuilt.made.sites] at h
  obtain ⟨k, there, rfl⟩ := (getElem?_label (nodup_siteSteps _ _)).1 h
  have := (List.getElem?_eq_some_iff.1 there).1
  exact ⟨Nat.le_add_right _ _, by dsimp only; omega⟩

/-- The new labels at the ends of dead runs. -/
theorem boundaries_index {i : Nat} {l : Label} (h : ins.boundaries[i]? = some l) :
    code.instructions.labelCount + ((ofTyping t points).siteSteps code.steps.toArray).length
      ≤ l.index := by
  rw [rebuilt.made.boundaries] at h
  obtain ⟨k, there, rfl⟩ := (getElem?_label nodup_boundaries).1 h
  exact Nat.le_add_right _ _

theorem at?_eq (l : Label) :
    code'.at? l = Steps.positionOf? l (ins.body code.unframed).toList := by
  rw [at?, ← rebuilt.ofList_eq, Steps.toList_ofList]

/-- Old labels and the two kinds of new ones are all different. -/
theorem not_boundary_of_less {l : Label} {i : Nat} (less : l.index < code.instructions.labelCount
    + ((ofTyping t points).siteSteps code.steps.toArray).length) : ins.boundaries[i]? ≠ some l := by
  intro boundary
  have := rebuilt.boundaries_index boundary
  omega

theorem not_site_of_old {l : Label} {i : Nat} (old : l.index < code.instructions.labelCount) :
    ins.sites[i]? ≠ some l := by
  intro site
  have := (rebuilt.sites_index site).1
  omega

/-- **Old labels stand where they stood.** -/
theorem at?_old {l : Label} (old : l.index < code.instructions.labelCount) :
    code'.at? l = code.at? l := by
  have boundary : ∀ i : Nat, ins.boundaries[i]? ≠ some l := fun i =>
    rebuilt.not_boundary_of_less (Nat.lt_of_lt_of_le old (Nat.le_add_right _ _))
  have site : ∀ i : Nat, ins.sites[i]? ≠ some l := fun i => rebuilt.not_site_of_old old
  have tidy : code.unframed.Tidy := Steps.tidy_ofList _
  rw [rebuilt.at?_eq, ← at?_unframed]
  refine (Steps.positionOf?_congr tidy (Insertions.tidy_body tidy) ?_ ?_).symm
  · refine List.forall₂_iff_get.2 ⟨(Insertions.length_body ins _).symm, fun i less less' => ?_⟩
    have there := Insertions.getElem?_body ins code.unframed i
    rw [List.getElem?_eq_getElem less, List.getElem?_eq_getElem less'] at there
    rw [List.get_eq_getElem, List.get_eq_getElem, Option.some.inj there, Insertions.marks_step,
      Insertions.mem_labelsOf_marks]
    simp [boundary, site]
  · rw [Insertions.mem_labelsOf_tail]
    simp [boundary]

/-- A new label stands in front of the one step that it was made for. -/
theorem at?_new {l : Label} (fresh : code.instructions.labelCount ≤ l.index)
    (below : code.LabelsBelow) {k : Nat} (le : k ≤ code.steps.length)
    (only : ∀ i < code.steps.length, ins.boundaries[i]? = some l ∨ ins.sites[i]? = some l ↔ i = k)
    (last : ins.boundaries[code.steps.length]? = some l ↔ k = code.steps.length) :
    code'.at? l = some k := by
  have absent : ∀ marks, (∀ insn ∈ marks, insn ∈ code.unframed.toList) →
      l ∉ Steps.labelsOf marks := by
    intro marks inside placed
    obtain ⟨insn, member, label⟩ := List.mem_filterMap.1 placed
    have there := inside insn member
    rw [unframed, Steps.toList_ofList] at there
    have := below l (List.mem_filterMap.2 ⟨insn, List.mem_of_mem_filter there, label⟩)
    omega
  have tidy : code.unframed.Tidy := Steps.tidy_ofList _
  rw [rebuilt.at?_eq]
  refine Steps.positionOf?_unique (Insertions.tidy_body tidy) (fun i step there => ?_) ?_ ?_
  · rw [Insertions.getElem?_body] at there
    obtain ⟨old, here, rfl⟩ := Option.map_eq_some_iff.1 there
    have less : i < code.steps.length := (List.getElem?_eq_some_iff.1 here).1
    have none := absent old.marks fun insn member => List.mem_append_left _
      (List.mem_flatMap.2 ⟨old, List.mem_of_getElem? here, List.mem_append_left _ member⟩)
    rw [Insertions.marks_step, Insertions.mem_labelsOf_marks, ← only i less]
    simp [none]
  · have none := absent code.unframed.tail fun insn member => List.mem_append_right _ member
    rw [Insertions.mem_labelsOf_tail, Insertions.length_body]
    simp only [none, false_or]
    exact last
  · rw [Insertions.length_body]
    exact le

/-- **The label of an allocation site stands in front of it.** -/
theorem at?_site (below : code.LabelsBelow) {i : Nat} {l : Label} (h : ins.sites[i]? = some l) :
    code'.at? l = some i := by
  obtain ⟨fresh, less⟩ := rebuilt.sites_index h
  have boundary : ∀ j : Nat, ins.boundaries[j]? ≠ some l := fun j =>
    rebuilt.not_boundary_of_less less
  have inside : i < code.steps.length := by
    rw [rebuilt.made.sites] at h
    obtain ⟨k, there, -⟩ := (getElem?_label (nodup_siteSteps _ _)).1 h
    obtain ⟨⟨step, here, -⟩, -⟩ := mem_siteSteps.1 (List.mem_of_getElem? there)
    rw [List.getElem?_toArray] at here
    exact (List.getElem?_eq_some_iff.1 here).1
  refine rebuilt.at?_new fresh below (Nat.le_of_lt inside) (fun j _ => ?_) ?_
  · simp only [boundary, false_or]
    refine ⟨fun there => ?_, fun same => same ▸ h⟩
    rw [rebuilt.made.sites] at h there
    exact label_injective (nodup_siteSteps _ _) there h
  · simp only [boundary, false_iff]
    exact Nat.ne_of_lt inside

/-- **The label at an end of a dead run stands there.** -/
theorem at?_boundary (below : code.LabelsBelow) {i : Nat} {l : Label}
    (h : ins.boundaries[i]? = some l) : code'.at? l = some i := by
  have index := rebuilt.boundaries_index h
  have site : ∀ j : Nat, ins.sites[j]? ≠ some l := by
    intro j there
    have := (rebuilt.sites_index there).2
    omega
  have only : ∀ j : Nat, ins.boundaries[j]? = some l ↔ j = i := by
    refine fun j => ⟨fun there => ?_, fun same => same ▸ h⟩
    rw [rebuilt.made.boundaries] at h there
    exact label_injective nodup_boundaries there h
  have inside : i ≤ code.steps.length := by
    rw [rebuilt.made.boundaries] at h
    obtain ⟨k, there, -⟩ := (getElem?_label nodup_boundaries).1 h
    obtain ⟨run, member, ends⟩ := List.mem_flatMap.1 (List.mem_of_getElem? there)
    have partition := DeadRun.partition_all t.states
    have proper := partition.proper run member
    have last := (partition.dead_iff (run.finish - 1)).2 ⟨run, member, by
      constructor <;> omega⟩
    have := (Array.getElem?_eq_some_iff.1 last).1
    rw [rebuilt.size] at this
    simp only [List.mem_cons, List.not_mem_nil, or_false] at ends
    omega
  refine rebuilt.at?_new (Nat.le_trans (Nat.le_add_right _ _) index) below inside (fun j _ => ?_) ?_
  · simp only [site, or_false]
    exact only j
  · exact (only _).trans eq_comm

end Rebuilt

end Code

end ClassInstrument
