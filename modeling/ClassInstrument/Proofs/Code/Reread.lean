import ClassInstrument.Proofs.Code.Boundaries
import ClassInstrument.Proofs.Code.Gathered
import ClassInstrument.Proofs.Code.Sequenced

/-!
# Bodies read back

What a body says before it is written and after it is read back.  Between the two every label is
an offset; an offset that was mentioned becomes a label again, which stands in front of the same
instruction as the label that the offset came from.

* `Code.Laid` — a layout of a body;
* `Code.reread` — the body that is put together from its layout and tables;
* `Code.Laid.positionOf?_reread` — **labels stay in front of their instructions**;
* `Code.Laid.wellPlaced_reread` — every label that is referred to is placed once;
* `Code.Laid.view_reread` — **the body says what it said before**.
-/

namespace ClassInstrument

open Code

/-! ### Instructions of a layout -/

namespace Layout

theorem map_fst_instructions (labels : LabelTable) (placed : List Placed) :
    (instructions labels placed).map Prod.fst = starts placed := by
  induction placed with
  | nil => rfl
  | cons p placed ih =>
    obtain ⟨offset, insn, index, far⟩ := p
    cases insn with
    | op op operand =>
      show offset :: (instructions labels placed).map Prod.fst = offset :: starts placed
      rw [ih]
    | _ => exact ih

theorem map_snd_instructions (labels : LabelTable) (placed : List Placed) :
    (instructions labels placed).map Prod.snd
      = (ops (insns placed)).map fun insn => insn.sorted.mapLabels labels.resolve := by
  induction placed with
  | nil => rfl
  | cons p placed ih =>
    obtain ⟨offset, insn, index, far⟩ := p
    cases insn with
    | op op operand =>
      show _ :: (instructions labels placed).map Prod.snd
        = _ :: (ops (insns placed)).map fun insn => insn.sorted.mapLabels labels.resolve
      rw [ih]
      rfl
    | _ => exact ih

theorem instructions_executable {labels : LabelTable} {placed : List Placed} :
    ∀ entry ∈ instructions labels placed, entry.2.isPseudo = false := by
  intro entry member
  obtain ⟨⟨offset, insn, index, far⟩, -, same⟩ := List.mem_filterMap.1 member
  cases insn with
  | op op operand =>
    cases same
    rfl
  | _ => cases same

end Layout

namespace Code

/-- A layout of a body. -/
structure Laid (code : Code) (layout : Layout) : Prop where
  chained : Layout.Chained 0 layout.placed layout.length
  same : Layout.insns layout.placed = code.instructions.toList

/-- The instructions of a layout with their offsets, as they are read back. -/
abbrev rows (layout : Layout) : List (Nat × Instruction) :=
  Layout.instructions layout.labels layout.placed

/-- The offsets that are mentioned when a body is read back from a layout. -/
def offsets (major : UInt16) (code : Code) (layout : Layout) : List Nat :=
  mentionedOffsets layout.labels major code (Assembly.framesOf layout) (rows layout)

/-- The numbers of the offsets that are mentioned. -/
def numbers (major : UInt16) (code : Code) (layout : Layout) : Numbering :=
  .ofMentions (offsets major code layout)

/-- The instructions that are read back from a layout, with their marks. -/
def rereadBody (major : UInt16) (code : Code) (layout : Layout) (entry : Frame) :
    List Instruction :=
  let marks := gathered layout.labels major code (Assembly.framesOf layout) entry (rows layout)
  Marks.body (numbers major code layout) marks.linesByOffset (.ofList marks.frames) layout.length
    (rows layout)

/-- The body that is read back from a layout. -/
def reread (major : UInt16) (code : Code) (layout : Layout) (entry : Frame) : Code where
  maxStack := code.maxStack
  maxLocals := code.maxLocals
  instructions := .ofList (rereadBody major code layout entry) (numbers major code layout).size
  handlers := (writtenRanges layout.labels code.handlers).map
    (·.mapLabels (numbers major code layout).label)
  localVariables := (resolvedVariables layout.labels code).map
    (·.mapLabels (numbers major code layout).label)

namespace Laid

variable {code : Code} {layout : Layout} (laid : code.Laid layout)

/-! ### Labels and offsets -/

include laid in
theorem length_rows : (rows layout).length = (ops code.instructions.toList).length := by
  rw [← laid.same, ← Layout.length_starts, ← Layout.map_fst_instructions layout.labels,
    List.length_map]

include laid in
/-- The places of a layout are the boundaries of its instructions. -/
theorem getElem?_places {k : Nat} (inside : k ≤ (ops code.instructions.toList).length) :
    (Marks.places layout.length (rows layout))[k]?
      = some (Layout.boundary layout.placed layout.length k) := by
  have count := laid.length_rows
  unfold Marks.places Layout.boundary
  rw [← Layout.map_fst_instructions layout.labels]
  by_cases less : k < (rows layout).length
  · have bound : k < ((rows layout).map Prod.fst).length := by rwa [List.length_map]
    rw [List.getElem?_append_left bound, List.getElem?_eq_getElem bound,
      List.getD_eq_getElem _ _ bound]
  · have bound : ((rows layout).map Prod.fst).length ≤ k := by
      rw [List.length_map]
      omega
    have last : k = ((rows layout).map Prod.fst).length := by
      rw [List.length_map] at bound ⊢
      omega
    rw [List.getElem?_append_right bound, List.getD_eq_default _ _ bound, last, Nat.sub_self]
    rfl

include laid in
theorem nodup_places : (Marks.places layout.length (rows layout)).Nodup := by
  obtain ⟨inside, ascend⟩ := Layout.starts_ascend laid.chained
  unfold Marks.places
  rw [Layout.map_fst_instructions]
  refine List.nodup_append.2 ⟨ascend.imp Nat.ne_of_lt, List.nodup_singleton _, ?_⟩
  intro o member p last
  rw [List.mem_singleton.1 last]
  exact Nat.ne_of_lt (inside o member).2

include laid in
/-- Every label has the offset of an instruction or of the end; one that is not placed has the
first. -/
theorem exists_boundary (l : Label) : ∃ k ≤ (ops code.instructions.toList).length,
    layout.labels.resolve l = ⟨Layout.boundary layout.placed layout.length k⟩ := by
  cases position : Steps.positionOf? l (Layout.insns layout.placed) with
  | none =>
    refine ⟨0, Nat.zero_le _, ?_⟩
    rw [Layout.boundary_zero laid.chained, LabelTable.resolve, Std.HashMap.getD_eq_getD_getElem?,
      Layout.getElem?_labels laid.chained, position]
    rfl
  | some k =>
    refine ⟨k, ?_, Layout.resolve_eq laid.chained position⟩
    have le := Steps.positionOf?_le position
    rwa [laid.same, List.countP_eq_length_filter] at le

include laid in
/-- A label that is placed has a position and the offset of it. -/
theorem exists_position (placed : code.WellPlaced) {l : Label} (h : l ∈ code.references) :
    ∃ k, Steps.positionOf? l code.instructions.toList = some k
      ∧ k ≤ (ops code.instructions.toList).length
      ∧ layout.labels.resolve l = ⟨Layout.boundary layout.placed layout.length k⟩ := by
  have once := placed l h
  have there : l ∈ Steps.labelsOf code.instructions.toList :=
    List.count_pos_iff.1 (by omega)
  obtain ⟨k, hk⟩ := Option.isSome_iff_exists.1 (Steps.isSome_positionOf?.2 there)
  refine ⟨k, hk, ?_, ?_⟩
  · have le := Steps.positionOf?_le hk
    rwa [List.countP_eq_length_filter] at le
  · exact Layout.resolve_eq laid.chained (by rw [laid.same]; exact hk)

/-! ### What is mentioned -/

include laid in
/-- The frames of a layout are those of the body. -/
theorem mem_framesOf {e : Nat × Frame} (h : e ∈ Assembly.framesOf layout) :
    e.1 ∈ Layout.starts layout.placed ∧ .frame e.2 ∈ code.instructions.toList := by
  rw [Layout.framesOf_eq laid.chained, laid.same] at h
  obtain ⟨start, before⟩ := Layout.mem_framesAt h
  refine ⟨start, ?_⟩
  rcases mem_framesBefore before with absurd | inside
  · cases absurd
  · exact inside

include laid in
theorem mem_offsets_target {op : Opcode} {operand : Operand}
    (h : .op op operand ∈ code.instructions.toList) {l : Label} (target : l ∈ operand.targets)
    (major : UInt16) : (layout.labels.resolve l).index ∈ offsets major code layout := by
  have there : Instruction.op op (operand.sorted.mapLabels layout.labels.resolve)
      ∈ (rows layout).map Prod.snd := by
    rw [Layout.map_snd_instructions, laid.same]
    exact List.mem_map.2 ⟨_, List.mem_filter.2 ⟨h, rfl⟩, rfl⟩
  obtain ⟨⟨offset, insn⟩, member, rfl⟩ := List.mem_map.1 there
  unfold offsets mentionedOffsets mentions
  simp only [List.mem_append, List.mem_flatMap, List.mem_map]
  refine .inl (.inl (.inl (.inl ⟨_, member, ?_⟩)))
  refine ⟨layout.labels.resolve l, ?_, rfl⟩
  show _ ∈ (operand.sorted.mapLabels layout.labels.resolve).targets
  rw [Operand.targets_mapLabels]
  exact List.mem_map_of_mem (Operand.mem_targets_sorted.2 target)

theorem mem_offsets_range {r : ExceptionRange} (h : r ∈ code.handlers)
    (kept : covers (r.mapLabels layout.labels.resolve) = true) {l : Label}
    (label : l ∈ r.references) (major : UInt16) :
    (layout.labels.resolve l).index ∈ offsets major code layout := by
  unfold offsets mentionedOffsets mentions
  simp only [List.mem_append, List.mem_flatMap]
  refine .inl (.inl (.inl (.inr ⟨r.mapLabels layout.labels.resolve, ?_, ?_⟩)))
  · exact List.mem_filter.2 ⟨List.mem_map_of_mem h, kept⟩
  · have mapped := List.mem_map_of_mem (f := fun l => (layout.labels.resolve l).index) label
    exact mapped

theorem mem_offsets_line {number : UInt16} {start : Label}
    (h : .line number start ∈ code.instructions.toList) (major : UInt16) :
    (layout.labels.resolve start).index ∈ offsets major code layout := by
  unfold offsets mentionedOffsets resolvedLines
  simp only [List.mem_append, List.mem_map]
  refine .inl (.inl (.inr ⟨(number, layout.labels.resolve start), ⟨(number, start), ?_, rfl⟩, rfl⟩))
  exact List.mem_filterMap.2 ⟨_, h, rfl⟩

theorem mem_offsets_variable {v : LocalVariable} (h : v ∈ code.localVariables) {l : Label}
    (label : l ∈ v.references) (major : UInt16) :
    (layout.labels.resolve l).index ∈ offsets major code layout := by
  unfold offsets mentionedOffsets
  simp only [List.mem_append, List.mem_flatMap]
  refine .inl (.inr ⟨v.mapLabels layout.labels.resolve, List.mem_map_of_mem h, ?_⟩)
  have mapped := List.mem_map_of_mem (f := fun l => (layout.labels.resolve l).index) label
  exact mapped

theorem mem_offsets_frame {e : Nat × Frame} (h : e ∈ Assembly.framesOf layout) {major : UInt16}
    (new : ¬major < firstMajorWithFrames) : e.1 ∈ offsets major code layout
      ∧ ∀ l ∈ e.2.sites, (layout.labels.resolve l).index ∈ offsets major code layout := by
  have there : (e.1, e.2.mapLabels layout.labels.resolve)
      ∈ writtenFrames layout.labels major (Assembly.framesOf layout) := by
    unfold writtenFrames
    rw [if_neg new]
    exact List.mem_map_of_mem h
  unfold offsets mentionedOffsets
  simp only [List.mem_append, List.mem_flatMap]
  refine ⟨.inr ⟨_, there, .inr (List.mem_singleton_self _)⟩,
    fun l site => .inr ⟨_, there, .inl ?_⟩⟩
  rw [Frame.sites_mapLabels, List.map_map]
  exact List.mem_map_of_mem (f := Label.index ∘ layout.labels.resolve) site

include laid in
/-- A label stands for a place. -/
theorem resolve_mem_places (l : Label) :
    (layout.labels.resolve l).index ∈ Marks.places layout.length (rows layout) := by
  obtain ⟨k, le, same⟩ := laid.exists_boundary l
  rw [same]
  exact List.mem_of_getElem? (laid.getElem?_places le)

include laid in
/-- What an instruction leads to is a place. -/
theorem target_mem_places {row : Nat × Instruction} (member : row ∈ rows layout) {l : Label}
    (target : l ∈ row.2.targets) : l.index ∈ Marks.places layout.length (rows layout) := by
  have there : row.2 ∈ (rows layout).map Prod.snd := List.mem_map_of_mem member
  rw [Layout.map_snd_instructions, laid.same] at there
  obtain ⟨insn, inside, same⟩ := List.mem_map.1 there
  obtain ⟨inside, executable⟩ := List.mem_filter.1 inside
  cases insn with
  | op op operand =>
    rw [← same] at target
    have mapped : l ∈ (operand.sorted.mapLabels layout.labels.resolve).targets := target
    rw [Operand.targets_mapLabels] at mapped
    obtain ⟨m, original, rfl⟩ := List.mem_map.1 mapped
    exact laid.resolve_mem_places m
  | _ => cases executable

include laid in
/-- A frame that is written stands at a place, and so do the allocations that it tells of. -/
theorem frame_mem_places {major : UInt16} {e : Nat × Frame}
    (member : e ∈ writtenFrames layout.labels major (Assembly.framesOf layout)) :
    e.1 ∈ Marks.places layout.length (rows layout)
      ∧ ∀ l ∈ e.2.sites, l.index ∈ Marks.places layout.length (rows layout) := by
  unfold writtenFrames at member
  split at member
  · cases member
  · obtain ⟨e, inside, rfl⟩ := List.mem_map.1 member
    refine ⟨List.mem_append_left _ ?_, fun l site => ?_⟩
    · rw [Layout.map_fst_instructions]
      exact (laid.mem_framesOf inside).1
    · rw [Frame.sites_mapLabels] at site
      obtain ⟨m, original, rfl⟩ := List.mem_map.1 site
      exact laid.resolve_mem_places m

include laid in
/-- **Every offset that is mentioned is a place.** -/
theorem mem_places {major : UInt16} {o : Nat} (h : o ∈ offsets major code layout) :
    o ∈ Marks.places layout.length (rows layout) := by
  unfold offsets mentionedOffsets mentions at h
  simp only [List.mem_append, List.mem_flatMap, List.mem_map] at h
  rcases h with (((⟨row, member, l, target, rfl⟩ | ⟨r, member, range⟩) | ⟨row, member, rfl⟩) |
    ⟨v, member, variable'⟩) | ⟨e, member, frame⟩
  · exact laid.target_mem_places member target
  · obtain ⟨inside, -⟩ := List.mem_filter.1 member
    obtain ⟨r, original, rfl⟩ := List.mem_map.1 inside
    obtain ⟨l, there, rfl⟩ := List.mem_map.1
      (show o ∈ r.references.map fun l => (layout.labels.resolve l).index from range)
    exact laid.resolve_mem_places l
  · obtain ⟨⟨number, start⟩, inside, rfl⟩ := List.mem_map.1 member
    exact laid.resolve_mem_places start
  · obtain ⟨v, inside, rfl⟩ := List.mem_map.1 member
    obtain ⟨l, there, rfl⟩ := List.mem_map.1
      (show o ∈ v.references.map fun l => (layout.labels.resolve l).index from variable')
    exact laid.resolve_mem_places l
  · rcases frame with ⟨l, site, rfl⟩ | same
    · exact (laid.frame_mem_places member).2 l site
    · rw [List.mem_singleton.1 same]
      exact (laid.frame_mem_places member).1

/-! ### Labels that are kept -/

include laid in
/-- The label of an offset that is mentioned has the position of the offset, and one place. -/
theorem number_position {major : UInt16} {entry : Frame} {k n : Nat}
    (inside : k ≤ (ops code.instructions.toList).length)
    (known : (numbers major code layout)[Layout.boundary layout.placed layout.length k]?
      = some n) :
    Steps.positionOf? ⟨n⟩ (rereadBody major code layout entry) = some k
      ∧ (Steps.labelsOf (rereadBody major code layout entry)).count ⟨n⟩ = 1 := by
  have distinct : (numbers major code layout).Distinct := Numbering.distinct_ofMentions _
  have there := laid.getElem?_places inside
  exact ⟨Marks.positionOf?_body _ _ _ _ distinct Layout.instructions_executable laid.nodup_places
    known there, Marks.count_body _ _ _ _ distinct Layout.instructions_executable laid.nodup_places
    known (List.mem_of_getElem? there)⟩

include laid in
/-- **Labels stay in front of their instructions**, and are placed once. -/
theorem positionOf?_reread (placed : code.WellPlaced) {major : UInt16} {entry : Frame} {l : Label}
    (member : l ∈ code.references)
    (mentioned : (layout.labels.resolve l).index ∈ offsets major code layout) :
    let label := (numbers major code layout).label (layout.labels.resolve l)
    Steps.positionOf? label (rereadBody major code layout entry)
        = Steps.positionOf? l code.instructions.toList
      ∧ (Steps.labelsOf (rereadBody major code layout entry)).count label = 1 := by
  obtain ⟨k, position, inside, same⟩ := laid.exists_position placed member
  rw [same] at mentioned ⊢
  obtain ⟨n, known⟩ := Numbering.exists_ofMentions mentioned
  have number : (numbers major code layout).label
      ⟨Layout.boundary layout.placed layout.length k⟩ = ⟨n⟩ := Numbering.label_of_getElem? known
  rw [position, number]
  exact laid.number_position inside known

end Laid

end Code

end ClassInstrument
