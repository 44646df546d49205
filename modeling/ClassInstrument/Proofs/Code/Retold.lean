import ClassInstrument.Proofs.Code.Reread

/-!
# What a body says after it was read back

The parts of a view one after the other: instructions, frames, lines, ranges and variables of the
body that is read back are those of the body that was written.

* `Code.Laid.wellPlaced_reread` — every label that is referred to is placed once;
* `Code.Laid.view_reread` — **the body says what it said before**, as far as a class file of its
  version can say it.
-/

namespace ClassInstrument

open Code

namespace Layout

/-- The frame in front of an instruction is the one at its offset. -/
theorem mem_framesAt_iff {starts : List Nat} (apart : starts.Nodup) {frames : List (Option Frame)}
    {k o : Nat} (start : starts[k]? = some o) {frame : Frame} :
    (o, frame) ∈ framesAt starts frames ↔ frames[k]? = some (some frame) := by
  unfold framesAt
  constructor
  · intro h
    obtain ⟨⟨p, before⟩, member, same⟩ := List.mem_filterMap.1 h
    obtain ⟨other, rfl, pair⟩ := Option.map_eq_some_iff.1 same
    cases pair
    obtain ⟨j, hj⟩ := List.mem_iff_getElem?.1 member
    obtain ⟨first, second⟩ := List.getElem?_zip_eq_some.1 hj
    have equal : j = k := by
      refine (List.getElem?_inj (List.getElem?_eq_some_iff.1 first).1 apart).1 ?_
      rw [first, start]
    rw [← equal]
    exact second
  · intro h
    refine List.mem_filterMap.2 ⟨(o, some frame), ?_, rfl⟩
    exact List.mem_of_getElem? (List.getElem?_zip_eq_some.2 ⟨start, h⟩)

/-- The frames that are read back, by their offsets. -/
theorem getElem?_writtenFrames {starts : List Nat} (ascend : starts.Pairwise (· < ·))
    {frames : List (Option Frame)} {k o : Nat} (start : starts[k]? = some o)
    {before : Option Frame} (there : frames[k]? = some before) (labels : LabelTable)
    (major : UInt16) :
    (Std.HashMap.ofList (writtenFrames labels major (framesAt starts frames)).reverse)[o]?
      = if major < firstMajorWithFrames then none
        else before.map (·.mapLabels labels.resolve) := by
  have apart : starts.Nodup := ascend.imp Nat.ne_of_lt
  unfold writtenFrames
  split
  · exact Std.HashMap.getElem?_ofList_of_contains_eq_false rfl
  · cases before with
    | some frame =>
      refine Std.HashMap.getElem?_ofList_of_mem (k := o) (beq_self_eq_true o) ?_ ?_
      · rw [List.pairwise_reverse, List.pairwise_map]
        refine (framesAt_ascend ascend frames).imp fun {a b} less => ?_
        simp only [beq_eq_false_iff_ne]
        omega
      · rw [List.mem_reverse]
        exact List.mem_map.2 ⟨(o, frame), (mem_framesAt_iff apart start).2 there, rfl⟩
    | none =>
      refine Std.HashMap.getElem?_ofList_of_contains_eq_false ?_
      rw [Bool.eq_false_iff, Ne, List.contains_iff_mem]
      intro known
      obtain ⟨e, member, same⟩ := List.mem_map.1 known
      rw [List.mem_reverse] at member
      obtain ⟨e, inside, rfl⟩ := List.mem_map.1 member
      cases same
      have here := (mem_framesAt_iff apart start).1 inside
      rw [there] at here
      cases here

end Layout

namespace Code

/-- There is a frame or none in front of every instruction. -/
theorem length_framesBefore (last : Option Frame) (insns : List Instruction) :
    (framesBefore last insns).length = (ops insns).length := by
  induction insns generalizing last with
  | nil => rfl
  | cons insn insns ih =>
    cases insn with
    | op op operand =>
      show (last :: framesBefore none insns).length = (.op op operand :: ops insns).length
      rw [List.length_cons, List.length_cons, ih]
    | frame types => exact ih (some types)
    | label l => exact ih last
    | line number start => exact ih last

namespace Laid

variable {code : Code} {layout : Layout} (laid : code.Laid layout) (placed : code.WellPlaced)
  (major : UInt16) (entry : Frame)

include laid placed in
/-- A label stands for the same instruction before and after. -/
theorem place_reread {l : Label} (member : l ∈ code.references)
    (mentioned : (layout.labels.resolve l).index ∈ offsets major code layout) :
    place (rereadBody major code layout entry)
        ((numbers major code layout).label (layout.labels.resolve l))
      = place code.instructions.toList l := by
  unfold place
  rw [(laid.positionOf?_reread placed member mentioned).1]

/-! ### Instructions -/

include laid in
theorem ops_reread : ops (rereadBody major code layout entry)
    = (ops code.instructions.toList).map fun insn =>
      (insn.sorted.mapLabels layout.labels.resolve).mapLabels
        (numbers major code layout).label := by
  unfold rereadBody
  rw [Marks.ops_body _ _ _ _ Layout.instructions_executable]
  have whole := congrArg (List.map fun insn => insn.mapLabels (numbers major code layout).label)
    (Layout.map_snd_instructions layout.labels layout.placed)
  rw [laid.same, List.map_map, List.map_map] at whole
  exact whole

include laid placed in
theorem viewOps_reread :
    (ops (rereadBody major code layout entry)).map
        (·.mapLabels (place (rereadBody major code layout entry)))
      = ((ops code.instructions.toList).map
        (·.mapLabels (place code.instructions.toList))).map Instruction.sorted := by
  rw [laid.ops_reread, List.map_map, List.map_map]
  refine List.map_congr_left fun insn member => ?_
  obtain ⟨inside, executable⟩ := List.mem_filter.1 member
  cases insn with
  | op op operand =>
    show Instruction.op op (((operand.sorted.mapLabels _).mapLabels _).mapLabels _)
      = .op op (operand.mapLabels _).sorted
    rw [Operand.mapLabels_mapLabels, Operand.mapLabels_mapLabels, Operand.sorted_mapLabels]
    congr 1
    refine Operand.mapLabels_congr fun l target => ?_
    have original := Operand.mem_targets_sorted.1 target
    exact laid.place_reread placed major entry (mem_references_insn inside original)
      (laid.mem_offsets_target inside original major)
  | _ => cases executable

/-! ### Frames -/

include laid in
/-- The frame at an offset that is read back is the one in front of the instruction there. -/
theorem getElem?_frames {k o : Nat} (start : (Layout.starts layout.placed)[k]? = some o)
    {before : Option Frame}
    (there : (framesBefore none code.instructions.toList)[k]? = some before) :
    (Std.HashMap.ofList (gathered layout.labels major code (Assembly.framesOf layout) entry
        (rows layout)).frames)[o]?
      = if major < firstMajorWithFrames then none
        else before.map (·.mapLabels layout.labels.resolve) := by
  have ascend := (Layout.starts_ascend laid.chained).2
  rw [gathered_eq, Layout.framesOf_eq laid.chained, laid.same]
  exact Layout.getElem?_writtenFrames ascend start there layout.labels major

include laid in
/-- A frame in front of an instruction is mentioned with its offset and its sites. -/
theorem mem_offsets_before (new : ¬major < firstMajorWithFrames) {k o : Nat}
    (start : (Layout.starts layout.placed)[k]? = some o) {frame : Frame}
    (there : (framesBefore none code.instructions.toList)[k]? = some (some frame)) :
    o ∈ offsets major code layout
      ∧ ∀ l ∈ frame.sites, (layout.labels.resolve l).index ∈ offsets major code layout := by
  have ascend := (Layout.starts_ascend laid.chained).2
  have member : (o, frame) ∈ Assembly.framesOf layout := by
    rw [Layout.framesOf_eq laid.chained, laid.same]
    exact (Layout.mem_framesAt_iff (ascend.imp Nat.ne_of_lt) start).2 there
  exact mem_offsets_frame member new

include laid placed in
theorem viewFrames_reread :
    (framesBefore none (rereadBody major code layout entry)).map
        (·.map (·.mapLabels (place (rereadBody major code layout entry))))
      = if major < firstMajorWithFrames then
          (framesBefore none code.instructions.toList).map fun _ => none
        else (framesBefore none code.instructions.toList).map
          (·.map (·.mapLabels (place code.instructions.toList))) := by
  have count := laid.length_rows
  have same := length_framesBefore none code.instructions.toList
  unfold rereadBody
  rw [Marks.framesBefore_body _ _ _ _ Layout.instructions_executable, List.map_map]
  rw [← apply_ite (f := fun f => (framesBefore none code.instructions.toList).map f)]
  refine List.ext_getElem (by rw [List.length_map, List.length_map, same]; exact count) ?_
  intro k hrow hframe
  rw [List.length_map] at hrow hframe
  rw [List.getElem_map, List.getElem_map]
  have start : (Layout.starts layout.placed)[k]? = some (rows layout)[k].1 := by
    rw [← Layout.map_fst_instructions layout.labels, List.getElem?_map,
      List.getElem?_eq_getElem hrow]
    rfl
  have there := List.getElem?_eq_getElem hframe
  generalize (framesBefore none code.instructions.toList)[k] = before at there
  show Option.map _ (Option.bind _ _) = _
  rw [laid.getElem?_frames major entry start there]
  by_cases old : major < firstMajorWithFrames
  · rw [if_pos old, if_pos old]
    cases (numbers major code layout)[(rows layout)[k].1]? <;> rfl
  · rw [if_neg old, if_neg old]
    cases before with
    | none => cases (numbers major code layout)[(rows layout)[k].1]? <;> rfl
    | some frame =>
      obtain ⟨mentioned, sites⟩ := laid.mem_offsets_before major old start there
      obtain ⟨n, known⟩ := Numbering.exists_ofMentions mentioned
      have number : (numbers major code layout)[(rows layout)[k].1]? = some n := known
      rw [number]
      show some (((frame.mapLabels _).mapLabels _).mapLabels _) = some (frame.mapLabels _)
      rw [Frame.mapLabels_mapLabels, Frame.mapLabels_mapLabels]
      congr 1
      refine Frame.mapLabels_congr fun l site => ?_
      have inside : .frame frame ∈ code.instructions.toList :=
        (mem_framesBefore (List.mem_of_getElem? there)).resolve_left
          (Option.some_ne_none frame).symm
      exact laid.place_reread placed major entry (mem_references_insn inside site) (sites l site)

/-! ### Lines -/

include laid placed in
/-- The lines of an offset are those that start at its instruction. -/
theorem getD_lines {k o : Nat} (start : (Layout.starts layout.placed)[k]? = some o) :
    (gathered layout.labels major code (Assembly.framesOf layout) entry
        (rows layout)).linesByOffset.getD o []
      = linesAt code.instructions.toList k := by
  rw [Marks.getD_linesByOffset, gathered_eq, List.filter_reverse, List.map_reverse,
    List.reverse_reverse]
  unfold resolvedLines linesAt
  rw [List.map_map, List.filter_map, List.map_map, ← List.filterMap_eq_map,
    List.filterMap_filter]
  refine List.filterMap_congr fun row member => ?_
  obtain ⟨number, l⟩ := row
  have inside := mem_references_line member
  obtain ⟨j, position, le, same⟩ := laid.exists_position placed inside
  have bound := (List.getElem?_eq_some_iff.1 start).1
  have here := Layout.boundary_of_start start layout.length
  have total : (Layout.starts layout.placed).length = (ops code.instructions.toList).length := by
    rw [Layout.length_starts, laid.same]
  have iff := Layout.boundary_inj laid.chained (j := j) (k := k) (by omega) (by omega)
  dsimp only at same position
  by_cases equal : j = k
  · have there : o = (layout.labels.resolve l).index := by rw [same, ← here, equal]
    simp [position, equal, there]
  · have other : ¬(layout.labels.resolve l).index = o := by
      rw [same, ← here]
      exact fun h => equal (iff.1 h)
    simp [position, equal, other]

include laid placed in
theorem viewLines_reread :
    (List.range (ops (rereadBody major code layout entry)).length).map
        (linesAt (rereadBody major code layout entry))
      = (List.range (ops code.instructions.toList).length).map
        (linesAt code.instructions.toList) := by
  have count := laid.length_rows
  rw [laid.ops_reread, List.length_map]
  refine List.map_congr_left fun k member => ?_
  have inside : k < (rows layout).length := by
    rw [count]
    exact List.mem_range.1 member
  have start : (Layout.starts layout.placed)[k]? = some (rows layout)[k].1 := by
    rw [← Layout.map_fst_instructions layout.labels, List.getElem?_map,
      List.getElem?_eq_getElem inside]
    rfl
  have same := laid.getD_lines placed major entry start
  rw [← same]
  refine Marks.linesAt_body _ _ _ _ (Numbering.distinct_ofMentions _)
    Layout.instructions_executable laid.nodup_places (o := (rows layout)[k].1) ?_ fun some => ?_
  · rw [Layout.map_fst_instructions]
    exact start
  · rw [same] at some
    obtain ⟨number, there⟩ := List.exists_mem_of_ne_nil _ some
    obtain ⟨⟨number, l⟩, line, keep⟩ := List.mem_filterMap.1 there
    have referred := mem_references_line line
    obtain ⟨j, position, le, resolved⟩ := laid.exists_position placed referred
    dsimp only at position resolved keep
    rw [position] at keep
    split at keep
    · next equal =>
      cases equal
      refine Numbering.exists_ofMentions ?_
      obtain ⟨insn, original, row⟩ := List.mem_filterMap.1 line
      split at row
      · cases row
        have mentioned : (layout.labels.resolve l).index ∈ offsets major code layout :=
          mem_offsets_line original major
        rw [resolved, Layout.boundary_of_start start] at mentioned
        exact mentioned
      · cases row
    · cases keep

/-! ### Ranges and variables -/

include laid placed in
/-- A range covers bytes if and only if it covers instructions. -/
theorem covers_resolve {r : ExceptionRange} (h : r ∈ code.handlers) :
    covers (r.mapLabels layout.labels.resolve)
      = covers (r.mapLabels (place code.instructions.toList)) := by
  have total : (Layout.starts layout.placed).length = (ops code.instructions.toList).length := by
    rw [Layout.length_starts, laid.same]
  obtain ⟨j, start, first, hs⟩ := laid.exists_position placed
    (mem_references_range h (show r.start ∈ r.references by simp [ExceptionRange.references]))
  obtain ⟨k, finish, last, hf⟩ := laid.exists_position placed
    (mem_references_range h (show r.finish ∈ r.references by simp [ExceptionRange.references]))
  have iff := Layout.boundary_lt_iff laid.chained (j := j) (k := k) (by omega) (by omega)
  simp only [covers, ExceptionRange.mapLabels, hs, hf, place, start, finish, Option.getD_some, iff]

include laid placed in
theorem viewHandlers_reread :
    (code.reread major layout entry).handlers.map
        (·.mapLabels (place (rereadBody major code layout entry)))
      = (code.handlers.map (·.mapLabels (place code.instructions.toList))).filter covers := by
  have kept : code.handlers.filter (covers ∘ (·.mapLabels layout.labels.resolve))
      = code.handlers.filter (covers ∘ (·.mapLabels (place code.instructions.toList))) :=
    List.filter_congr fun r member => laid.covers_resolve placed member
  unfold reread writtenRanges
  rw [List.filter_map, List.filter_map, List.map_map, List.map_map, kept]
  refine List.map_congr_left fun r member => ?_
  obtain ⟨inside, kept⟩ := List.mem_filter.1 member
  have same : ∀ l ∈ r.references, place (rereadBody major code layout entry)
      ((numbers major code layout).label (layout.labels.resolve l))
        = place code.instructions.toList l := fun l label =>
    laid.place_reread placed major entry (mem_references_range inside label)
      (mem_offsets_range inside ((laid.covers_resolve placed inside).trans kept) label major)
  simp only [ExceptionRange.references, List.mem_cons, List.not_mem_nil, or_false,
    forall_eq_or_imp, forall_eq] at same
  obtain ⟨start, finish, handler⟩ := same
  simp only [Function.comp_apply, ExceptionRange.mapLabels, start, finish, handler]

include laid placed in
theorem viewVariables_reread :
    (code.reread major layout entry).localVariables.map
        (·.mapLabels (place (rereadBody major code layout entry)))
      = code.localVariables.map (·.mapLabels (place code.instructions.toList)) := by
  unfold reread resolvedVariables
  rw [List.map_map, List.map_map]
  refine List.map_congr_left fun v member => ?_
  have same : ∀ l ∈ v.references, place (rereadBody major code layout entry)
      ((numbers major code layout).label (layout.labels.resolve l))
        = place code.instructions.toList l := fun l label =>
    laid.place_reread placed major entry (mem_references_variable member label)
      (mem_offsets_variable member label major)
  simp only [LocalVariable.references, List.mem_cons, List.not_mem_nil, or_false,
    forall_eq_or_imp, forall_eq] at same
  obtain ⟨start, finish⟩ := same
  simp only [Function.comp_apply, LocalVariable.mapLabels, start, finish]

/-! ### The whole body -/

include laid placed in
/-- **The body says what it said before**, as far as a class file of its version can say it. -/
theorem view_reread : (code.reread major layout entry).view = code.view.written major := by
  have insns : (code.reread major layout entry).instructions.toList
      = rereadBody major code layout entry := Sequence.toList_ofList _ _
  unfold view BodyView.written
  simp only [insns]
  rw [laid.viewOps_reread placed, laid.viewFrames_reread placed, laid.viewLines_reread placed,
    laid.viewHandlers_reread placed, laid.viewVariables_reread placed]
  congr 1
  split
  · rw [List.map_map]
    rfl
  · rfl

/-! ### Labels in place -/

include laid placed in
/-- A label that comes from an offset is placed once. -/
theorem count_reread {l : Label} (member : l ∈ code.references)
    (mentioned : (layout.labels.resolve l).index ∈ offsets major code layout) :
    (Steps.labelsOf (rereadBody major code layout entry)).count
      ((numbers major code layout).label (layout.labels.resolve l)) = 1 :=
  (laid.positionOf?_reread placed member mentioned).2

include laid placed in
/-- Marks refer to labels that are placed once. -/
theorem count_marksAt {k o : Nat} (start : (Layout.starts layout.placed)[k]? = some o)
    {mark : Instruction} (member : mark ∈ Marks.marksAt (numbers major code layout)
      (gathered layout.labels major code (Assembly.framesOf layout) entry
        (rows layout)).linesByOffset
      (.ofList (gathered layout.labels major code (Assembly.framesOf layout) entry
        (rows layout)).frames) o) {l : Label} (referred : l ∈ mark.references) :
    (Steps.labelsOf (rereadBody major code layout entry)).count l = 1 := by
  unfold Marks.marksAt at member
  cases known : (numbers major code layout)[o]? with
  | none =>
    rw [known] at member
    cases member
  | some n =>
    simp only [known, List.cons_append, List.mem_cons, List.mem_append, List.mem_map,
      Option.mem_toList, Option.map_eq_some_iff] at member
    rcases member with rfl | ⟨number, -, rfl⟩ | ⟨types, found, rfl⟩
    · cases referred
    · rw [List.mem_singleton.1 referred]
      have bound := (List.getElem?_eq_some_iff.1 start).1
      have total : (Layout.starts layout.placed).length
          = (ops code.instructions.toList).length := by
        rw [Layout.length_starts, laid.same]
      rw [← Layout.boundary_of_start start layout.length] at known
      exact (laid.number_position (by omega) known).2
    · have bound := (List.getElem?_eq_some_iff.1 start).1
      have total : k < (framesBefore none code.instructions.toList).length := by
        rw [length_framesBefore, ← laid.same, ← Layout.length_starts]
        exact bound
      have there := List.getElem?_eq_getElem total
      rw [laid.getElem?_frames major entry start there] at found
      split at found
      · cases found
      · next new =>
        obtain ⟨frame, before, rfl⟩ := Option.map_eq_some_iff.1 found
        rw [before] at there
        have inside : .frame frame ∈ code.instructions.toList :=
          (mem_framesBefore (List.mem_of_getElem? there)).resolve_left
            (Option.some_ne_none frame).symm
        obtain ⟨-, sites⟩ := laid.mem_offsets_before major new start there
        change l ∈ ((frame.mapLabels _).mapLabels _).sites at referred
        rw [Frame.mapLabels_mapLabels, Frame.sites_mapLabels] at referred
        obtain ⟨site, named, rfl⟩ := List.mem_map.1 referred
        exact laid.count_reread placed major entry (mem_references_insn inside named)
          (sites site named)

include laid placed in
/-- Instructions refer to labels that are placed once. -/
theorem count_row {row : Nat × Instruction} (there : row ∈ rows layout) {l : Label}
    (referred : l ∈ (row.2.mapLabels (numbers major code layout).label).references) :
    (Steps.labelsOf (rereadBody major code layout entry)).count l = 1 := by
  have original : row.2 ∈ (rows layout).map Prod.snd := List.mem_map_of_mem there
  rw [Layout.map_snd_instructions, laid.same] at original
  obtain ⟨insn, inside, same⟩ := List.mem_map.1 original
  obtain ⟨inside, executable⟩ := List.mem_filter.1 inside
  cases insn with
  | op op operand =>
    rw [← same] at referred
    change l ∈ ((operand.sorted.mapLabels _).mapLabels _).targets at referred
    rw [Operand.mapLabels_mapLabels, Operand.targets_mapLabels] at referred
    obtain ⟨target, named, rfl⟩ := List.mem_map.1 referred
    have original := Operand.mem_targets_sorted.1 named
    exact laid.count_reread placed major entry (mem_references_insn inside original)
      (laid.mem_offsets_target inside original major)
  | _ => cases executable

include laid placed in
/-- **Every label that is referred to is placed once.** -/
theorem wellPlaced_reread : (code.reread major layout entry).WellPlaced := by
  intro l member
  have insns : (code.reread major layout entry).instructions.toList
      = rereadBody major code layout entry := Sequence.toList_ofList _ _
  unfold references at member
  rw [insns] at member ⊢
  rcases List.mem_append.1 member with member | member
  · rcases List.mem_append.1 member with member | member
    · obtain ⟨insn, inside, referred⟩ := List.mem_flatMap.1 member
      rcases List.mem_append.1 inside with inside | last
      · obtain ⟨row, there, inside⟩ := List.mem_flatMap.1 inside
        obtain ⟨k, hk⟩ := List.mem_iff_getElem?.1 there
        have start : (Layout.starts layout.placed)[k]? = some row.1 := by
          rw [← Layout.map_fst_instructions layout.labels, List.getElem?_map, hk]
          rfl
        rcases List.mem_append.1 inside with mark | op
        · exact laid.count_marksAt placed major entry start mark referred
        · rw [List.mem_singleton.1 op] at referred
          exact laid.count_row placed major entry there referred
      · obtain ⟨n, -, rfl⟩ := Option.map_eq_some_iff.1 (Option.mem_toList.1 last)
        cases referred
    · obtain ⟨r, inside, referred⟩ := List.mem_flatMap.1 member
      obtain ⟨r, written, rfl⟩ := List.mem_map.1 inside
      obtain ⟨resolved, kept⟩ := List.mem_filter.1 written
      obtain ⟨r, original, rfl⟩ := List.mem_map.1 resolved
      obtain ⟨label, named, rfl⟩ := List.mem_map.1 (show l ∈ r.references.map fun l =>
        (numbers major code layout).label (layout.labels.resolve l) from referred)
      exact laid.count_reread placed major entry (mem_references_range original named)
        (mem_offsets_range original kept named major)
  · obtain ⟨v, inside, referred⟩ := List.mem_flatMap.1 member
    obtain ⟨v, resolved, rfl⟩ := List.mem_map.1 inside
    obtain ⟨v, original, rfl⟩ := List.mem_map.1 resolved
    obtain ⟨label, named, rfl⟩ := List.mem_map.1 (show l ∈ v.references.map fun l =>
      (numbers major code layout).label (layout.labels.resolve l) from referred)
    exact laid.count_reread placed major entry (mem_references_variable original named)
      (mem_offsets_variable original named major)

end Laid

end Code

end ClassInstrument
