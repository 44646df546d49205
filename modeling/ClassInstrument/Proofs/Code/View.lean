import ClassInstrument.Proofs.Code.FrameTable
import ClassInstrument.Proofs.Code.Operands
import ClassInstrument.Proofs.Code.Steps

/-!
# What a body says

Labels are names: two bodies that place other labels at the same instructions say the same.  A
view of a body has the number of the instruction that a label stands in front of in the place of
the label, and gives lines and frames by the instruction they belong to.

* `Code.WellPlaced` — **every label that is referred to is placed exactly once**;
* `BodyView`, `Code.view` — what a body says;
* `BodyView.written` — what is left of it in a class file: keys of a switch are in order, ranges
  without instructions and, in old versions, frames are left out.
-/

namespace ClassInstrument

/-! ### Labels that are referred to -/

/-- The labels that an element of a body refers to. -/
def Instruction.references : Instruction → List Label
  | .label _ => []
  | .line _ start => [start]
  | .frame types => types.sites
  | .op _ operand => operand.targets

/-- The labels that a range refers to. -/
def ExceptionRange.references (r : ExceptionRange) : List Label := [r.start, r.finish, r.handler]

/-- The labels that a variable refers to. -/
def LocalVariable.references (v : LocalVariable) : List Label := [v.start, v.finish]

/-- The labels that a body refers to anywhere. -/
def Code.references (code : Code) : List Label :=
  code.instructions.toList.flatMap Instruction.references
    ++ code.handlers.flatMap ExceptionRange.references
    ++ code.localVariables.flatMap LocalVariable.references

theorem Code.mem_references_insn {code : Code} {insn : Instruction}
    (h : insn ∈ code.instructions.toList) {l : Label} (label : l ∈ insn.references) :
    l ∈ code.references :=
  List.mem_append_left _ (List.mem_append_left _ (List.mem_flatMap.2 ⟨insn, h, label⟩))

theorem Code.mem_references_line {code : Code} {row : UInt16 × Label}
    (h : row ∈ lines code.instructions.toList) : row.2 ∈ code.references := by
  obtain ⟨insn, member, same⟩ := List.mem_filterMap.1 h
  split at same
  · cases same
    exact mem_references_insn member List.mem_cons_self
  · cases same

theorem Code.mem_references_range {code : Code} {r : ExceptionRange} (h : r ∈ code.handlers)
    {l : Label} (label : l ∈ r.references) : l ∈ code.references :=
  List.mem_append_left _ (List.mem_append_right _ (List.mem_flatMap.2 ⟨r, h, label⟩))

theorem Code.mem_references_variable {code : Code} {v : LocalVariable}
    (h : v ∈ code.localVariables) {l : Label} (label : l ∈ v.references) : l ∈ code.references :=
  List.mem_append_right _ (List.mem_flatMap.2 ⟨v, h, label⟩)

/-- **Every label that is referred to is placed exactly once.** -/
def Code.WellPlaced (code : Code) : Prop :=
  ∀ l ∈ code.references, (Steps.labelsOf code.instructions.toList).count l = 1

/-! ### Labels in the place of others -/

section MapLabels

variable {f g : Label → Label}

theorem Operand.mapLabels_congr {operand : Operand} (h : ∀ l ∈ operand.targets, f l = g l) :
    operand.mapLabels f = operand.mapLabels g := by
  cases operand with
  | jump target => rw [mapLabels, mapLabels, h target (by simp [targets])]
  | tableSwitch default low high targets =>
    simp only [Operand.targets, List.mem_cons, forall_eq_or_imp] at h
    rw [mapLabels, mapLabels, h.1, List.map_congr_left h.2]
  | lookupSwitch default pairs =>
    simp only [Operand.targets, List.mem_cons, forall_eq_or_imp, List.mem_map,
      forall_exists_index, and_imp] at h
    rw [mapLabels, mapLabels, h.1]
    congr 1
    refine List.map_congr_left fun pair member => ?_
    show (pair.1, f pair.2) = (pair.1, g pair.2)
    rw [h.2 pair.2 pair member rfl]
  | _ => rfl

theorem Operand.mapLabels_mapLabels (operand : Operand) :
    (operand.mapLabels f).mapLabels g = operand.mapLabels (g ∘ f) := by
  cases operand <;> simp [mapLabels]

theorem Operand.targets_mapLabels (operand : Operand) :
    (operand.mapLabels f).targets = operand.targets.map f := by
  cases operand <;> simp [mapLabels, targets]

/-- Sorting keys changes the order of targets only. -/
theorem Operand.mem_targets_sorted {operand : Operand} {l : Label} :
    l ∈ operand.sorted.targets ↔ l ∈ operand.targets := by
  cases operand with
  | lookupSwitch default pairs =>
    have same := (List.mergeSort_perm pairs fun a b => a.1 ≤ b.1).map (·.2)
    simp only [sorted, targets, List.mem_cons, same.mem_iff]
  | _ => rfl

theorem VerificationType.mapLabels_mapLabels (type : VerificationType) :
    (type.mapLabels f).mapLabels g = type.mapLabels (g ∘ f) := by
  cases type <;> rfl

theorem Frame.mapLabels_mapLabels (frame : Frame) :
    (frame.mapLabels f).mapLabels g = frame.mapLabels (g ∘ f) := by
  simp only [mapLabels, List.map_map]
  congr 1 <;>
    exact List.map_congr_left fun type _ => VerificationType.mapLabels_mapLabels type

theorem Frame.mapLabels_congr {frame : Frame} (h : ∀ l ∈ frame.sites, f l = g l) :
    frame.mapLabels f = frame.mapLabels g := by
  have each : ∀ type ∈ frame.locals ++ frame.stack, type.mapLabels f = type.mapLabels g := by
    intro type member
    cases type with
    | uninitialized site =>
      rw [VerificationType.mapLabels, VerificationType.mapLabels,
        h site (List.mem_filterMap.2 ⟨_, member, rfl⟩)]
    | _ => rfl
  unfold mapLabels
  rw [List.map_congr_left fun type member => each type (List.mem_append_left _ member),
    List.map_congr_left fun type member => each type (List.mem_append_right _ member)]

theorem Frame.sites_mapLabels (frame : Frame) :
    (frame.mapLabels f).sites = frame.sites.map f := by
  unfold sites mapLabels
  rw [← List.map_append, List.filterMap_map, List.map_filterMap]
  congr 1
  funext type
  cases type <;> rfl

end MapLabels

/-! ### Views -/

/-- What a body says, the number of an instruction standing for the labels in front of it. -/
structure BodyView where
  maxStack : UInt16
  maxLocals : UInt16
  /-- The executable instructions. -/
  ops : List Instruction
  /-- For each instruction the frame in front of it. -/
  frames : List (Option Frame)
  /-- For each instruction the lines that start there. -/
  lines : List (List UInt16)
  handlers : List ExceptionRange
  localVariables : List LocalVariable

/-- The executable instruction with the keys of a switch in order. -/
def Instruction.sorted : Instruction → Instruction
  | .op opcode operand => .op opcode operand.sorted
  | mark => mark

namespace Code

/-- The executable instructions of a body. -/
def ops (insns : List Instruction) : List Instruction := insns.filter fun insn => !insn.isPseudo

/-- For each instruction the frame in front of it; of several frames the last one counts. -/
def framesBefore (last : Option Frame) : List Instruction → List (Option Frame)
  | [] => []
  | .op .. :: rest => last :: framesBefore none rest
  | .frame frame :: rest => framesBefore (some frame) rest
  | _ :: rest => framesBefore last rest

/-- A frame in front of an instruction is one of the body, or the one that was seen last. -/
theorem mem_framesBefore {insns : List Instruction} {last : Option Frame} {frame : Frame}
    (h : some frame ∈ framesBefore last insns) : last = some frame ∨ .frame frame ∈ insns := by
  induction insns generalizing last with
  | nil => cases h
  | cons insn insns ih =>
    cases insn with
    | op op operand =>
      rcases List.mem_cons.1 h with same | inside
      · exact .inl same.symm
      · rcases ih inside with absurd | inside
        · cases absurd
        · exact .inr (List.mem_cons_of_mem _ inside)
    | frame other =>
      rcases ih h with same | inside
      · cases same
        exact .inr List.mem_cons_self
      · exact .inr (List.mem_cons_of_mem _ inside)
    | label l => exact (ih h).imp_right (List.mem_cons_of_mem _)
    | line number start => exact (ih h).imp_right (List.mem_cons_of_mem _)

/-- The lines that start at an instruction, in the order of their marks. -/
def linesAt (insns : List Instruction) (k : Nat) : List UInt16 :=
  (lines insns).filterMap fun (number, start) =>
    if Steps.positionOf? start insns = some k then some number else none

/-- The number of the instruction that a label stands in front of, in the place of the label. -/
def place (insns : List Instruction) (l : Label) : Label :=
  ⟨(Steps.positionOf? l insns).getD 0⟩

/-- What a body says. -/
def view (code : Code) : BodyView :=
  let insns := code.instructions.toList
  { maxStack := code.maxStack
    maxLocals := code.maxLocals
    ops := (ops insns).map (·.mapLabels (place insns))
    frames := (framesBefore none insns).map (·.map (·.mapLabels (place insns)))
    lines := (List.range (ops insns).length).map (linesAt insns)
    handlers := code.handlers.map (·.mapLabels (place insns))
    localVariables := code.localVariables.map (·.mapLabels (place insns)) }

/-- A body says what it can say in a class file that is read back: it has instructions, each with
an operand that its opcode takes in general form and with constants that can be found again, all
labels are in place, and no two variables share scope and slot. -/
structure Regular (header : MethodHeader) (code : Code) : Prop where
  nonempty : ops code.instructions.toList ≠ []
  takes : ∀ op operand, .op op operand ∈ code.instructions.toList → op.Takes operand
  representable : ∀ op operand, .op op operand ∈ code.instructions.toList →
    operand.Representable
  placed : code.WellPlaced
  typed : ∃ entry, header.entryFrame = .ok entry
  scopes : (code.view.localVariables.map fun v => (v.start, v.finish, v.index)).Nodup

/-- What has to be so at least for a body to be read back from what is written for it: there are
parameters to start from if there are frames, and of the variables that share scope and slot none
but the first one has a signature. -/
structure Readable (header : MethodHeader) (code : Code) : Prop where
  nonempty : ops code.instructions.toList ≠ []
  takes : ∀ op operand, .op op operand ∈ code.instructions.toList → op.Takes operand
  representable : ∀ op operand, .op op operand ∈ code.instructions.toList →
    operand.Representable
  placed : code.WellPlaced
  typed : ∀ frame, .frame frame ∈ code.instructions.toList → ∃ entry, header.entryFrame = .ok entry
  signatures : code.view.localVariables.Pairwise fun v w =>
    (w.start, w.finish, w.index) = (v.start, v.finish, v.index) → w.signature = none

theorem Regular.readable {header : MethodHeader} {code : Code} (regular : code.Regular header) :
    code.Readable header where
  nonempty := regular.nonempty
  takes := regular.takes
  representable := regular.representable
  placed := regular.placed
  typed := fun _ _ => regular.typed
  signatures := (List.pairwise_map.1 regular.scopes).imp fun apart same => absurd same.symm apart

end Code

/-- What is left of a view in a class file of a given version. -/
def BodyView.written (major : UInt16) (view : BodyView) : BodyView :=
  { view with
    ops := view.ops.map Instruction.sorted
    frames := if major < Code.firstMajorWithFrames then view.frames.map fun _ => none
      else view.frames
    handlers := view.handlers.filter Code.covers }

end ClassInstrument
