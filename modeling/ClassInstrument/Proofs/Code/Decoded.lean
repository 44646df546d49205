import ClassInstrument.Proofs.Code.Congruence
import ClassInstrument.Proofs.Code.RoundTrip
import ClassInstrument.Proofs.Code.Rows
import ClassInstrument.Proofs.Code.Said

/-!
# Bodies that were read

A body that was read is well formed whatever the bytes were: every label that it refers to is
placed once, lines come in order, and it can be written and read again, but for handles of fields
that say something about the owner.

* `Code.Decoded` — what is known of a body that was read;
* `Code.decoded_of_decode` — **every body that is read is so**;
* `Code.Decoded.readable` — as it is read back, it can be read back.
-/

namespace ClassInstrument

open Decoder

/-- What is known of a body that was read. -/
structure Code.Decoded (header : MethodHeader) (code : Code) : Prop where
  nonempty : ops code.instructions.toList ≠ []
  read : ∀ op operand, .op op operand ∈ code.instructions.toList →
    (Instruction.op op operand).Read
  placed : code.WellPlaced
  ordered : code.LinesInOrder
  typed : ∀ frame, .frame frame ∈ code.instructions.toList → ∃ entry, header.entryFrame = .ok entry
  signatures : code.view.localVariables.Pairwise fun v w =>
    (w.start, w.finish, w.index) = (v.start, v.finish, v.index) → w.signature = none

/-- What is found in a table made from a list is in the list. -/
theorem mem_of_getElem?_ofList {β : Type} {l : List (Nat × β)} {k : Nat} {v : β}
    (h : (Std.HashMap.ofList l)[k]? = some v) : (k, v) ∈ l := by
  have general : ∀ map : Std.HashMap Nat β, (map.insertMany l)[k]? = some v →
      (k, v) ∈ l ∨ map[k]? = some v := by
    clear h
    induction l with
    | nil => exact fun map h => .inr h
    | cons row l ih =>
      intro map h
      rw [Std.HashMap.insertMany_cons] at h
      rcases ih _ h with inside | known
      · exact .inl (List.mem_cons_of_mem _ inside)
      · rw [Std.HashMap.getElem?_insert] at known
        split at known
        · next same =>
          cases known
          rw [← beq_iff_eq.1 same]
          exact .inl List.mem_cons_self
        · exact .inr known
  rw [Std.HashMap.ofList_eq_insertMany_empty] at h
  refine (general ∅ h).resolve_right ?_
  rw [Std.HashMap.getElem?_empty]
  exact fun h => nomatch h

namespace Marks

/-- What was read of a body: its instructions, and what the tables say of their offsets. -/
structure Assembled (header : MethodHeader) (length : Nat) (rows : List (Nat × Instruction))
    (ranges : List ExceptionRange) (m : Marks) : Prop where
  read : BytecodeContext.Rows 0 length rows
  nonempty : rows ≠ []
  sound : m.Sound header (Code.mentions rows ranges).reverse
  inside : ∀ o ∈ m.mentioned, o ∈ places length rows

namespace Assembled

variable {header : MethodHeader} {length : Nat} {rows : List (Nat × Instruction)}
  {ranges : List ExceptionRange} {m : Marks} (all : m.Assembled header length rows ranges)

/-- The numbers of the offsets that were mentioned. -/
abbrev numbers (m : Marks) : Numbering := .ofMentions m.mentioned.reverse

/-- The instructions with their marks. -/
abbrev insns (m : Marks) (length : Nat) (rows : List (Nat × Instruction)) : List Instruction :=
  body (numbers m) m.linesByOffset (.ofList m.frames) length rows

include all in
theorem executable : ∀ row ∈ rows, row.2.isPseudo = false := by
  intro row member
  obtain ⟨op, operand, same, -⟩ := all.read.read row member
  rw [same]
  rfl

include all in
theorem apart : (places length rows).Nodup := by
  refine List.nodup_append.2 ⟨List.pairwise_map.2 (all.read.ascend.imp Nat.ne_of_lt),
    List.nodup_singleton _, fun o member p last => ?_⟩
  obtain ⟨row, there, rfl⟩ := List.mem_map.1 member
  rw [List.mem_singleton.1 last]
  exact Nat.ne_of_lt (all.read.inside row there).2

/-! ### Labels -/

theorem exists_number {o : Nat} (h : o ∈ m.mentioned) : ∃ n, (numbers m)[o]? = some n :=
  Numbering.exists_ofMentions (List.mem_reverse.2 h)

include all in
/-- The label of an offset that was mentioned is placed once, in front of its instruction. -/
theorem position {l : Label} (h : l.index ∈ m.mentioned) :
    (Steps.labelsOf (insns m length rows)).count ((numbers m).label l) = 1
      ∧ ∃ k, (places length rows)[k]? = some l.index
        ∧ Code.place (insns m length rows) ((numbers m).label l) = ⟨k⟩ := by
  obtain ⟨n, known⟩ := exists_number h
  have distinct := Numbering.distinct_ofMentions m.mentioned.reverse
  have there := all.inside _ h
  rw [show l = ⟨l.index⟩ from rfl, Numbering.label_of_getElem? known]
  refine ⟨count_body _ _ _ _ distinct all.executable all.apart known there, ?_⟩
  obtain ⟨k, hk⟩ := List.mem_iff_getElem?.1 there
  refine ⟨k, hk, ?_⟩
  unfold Code.place
  rw [positionOf?_body _ _ _ _ distinct all.executable all.apart known hk]
  rfl

include all in
theorem mentioned_target {row : Nat × Instruction} (member : row ∈ rows) {l : Label}
    (target : l ∈ row.2.targets) : l.index ∈ m.mentioned := by
  refine all.sound.before _ (List.mem_reverse.2 (List.mem_append_left _ ?_))
  exact List.mem_flatMap.2 ⟨row, member, List.mem_map_of_mem target⟩

include all in
theorem mentioned_range {r : ExceptionRange} (member : r ∈ ranges) {l : Label}
    (label : l ∈ r.references) : l.index ∈ m.mentioned := by
  refine all.sound.before _ (List.mem_reverse.2 (List.mem_append_right _ ?_))
  exact List.mem_flatMap.2 ⟨r, member, List.mem_map_of_mem label⟩

/-! ### Variables -/

include all in
/-- The variables with their signatures: of those that share scope and slot only the first one has
any, and each is one of those that were read. -/
theorem variables_spec : SignedFirst m.variablesWithSignatures
    ∧ ∀ v ∈ m.variablesWithSignatures, ∃ e ∈ m.localVariables,
      v = { e.2 with signature := v.signature } := by
  have keys : ∀ e ∈ m.localVariables.reverse, e.1 = Code.scopeKey e.2 := fun e member =>
    (all.sound.localVariables e (List.mem_reverse.1 member)).1
  obtain ⟨vs, same, each, signed, -⟩ := signedFirst_takeSignature keys m.signatures []
  have own : m.variablesWithSignatures = vs := by
    unfold variablesWithSignatures
    rw [same, List.append_nil, List.reverse_reverse]
  rw [own]
  refine ⟨signed, fun v member => ?_⟩
  obtain ⟨e, inside, made⟩ := Traverse.exists_of_mem_right each member
  exact ⟨e, List.mem_reverse.1 inside, made⟩

include all in
theorem mentioned_variable {v : LocalVariable} (member : v ∈ m.variablesWithSignatures) {l : Label}
    (label : l ∈ v.references) : l.index ∈ m.mentioned := by
  obtain ⟨e, inside, made⟩ := all.variables_spec.2 v member
  obtain ⟨-, start, finish⟩ := all.sound.localVariables e inside
  rw [made] at label
  rcases List.mem_cons.1 label with rfl | label
  · exact start
  · rw [List.mem_singleton.1 label]
    exact finish

/-! ### The body -/

section Body

variable {code : Code} (instructions : code.instructions.toList = insns m length rows)
  (handlers : code.handlers = ranges.map (·.mapLabels (numbers m).label))
  (localVariables : code.localVariables
    = m.variablesWithSignatures.map (·.mapLabels (numbers m).label))

/-- The executable instructions are those that were read, and each frame was read, too. -/
theorem mem_insns {insn : Instruction} (h : insn ∈ insns m length rows) :
    (∃ l, insn = .label l)
      ∨ (∃ row ∈ rows, insn = row.2.mapLabels (numbers m).label)
      ∨ (∃ number o n, insn = .line number ⟨n⟩ ∧ (numbers m)[o]? = some n
        ∧ o ∈ places length rows)
      ∨ ∃ e ∈ m.frames, insn = .frame (e.2.mapLabels (numbers m).label) := by
  rcases List.mem_append.1 h with inside | last
  · obtain ⟨row, member, inside⟩ := List.mem_flatMap.1 inside
    rcases List.mem_append.1 inside with mark | op
    · unfold marksAt at mark
      cases known : (numbers m)[row.1]? with
      | none =>
        rw [known] at mark
        cases mark
      | some n =>
        simp only [known, List.cons_append, List.mem_cons, List.mem_append, List.mem_map,
          Option.mem_toList, Option.map_eq_some_iff] at mark
        rcases mark with rfl | ⟨number, -, rfl⟩ | ⟨frame, found, rfl⟩
        · exact .inl ⟨_, rfl⟩
        · exact .inr (.inr (.inl ⟨number, row.1, n, rfl, known,
            List.mem_append_left _ (List.mem_map_of_mem member)⟩))
        · exact .inr (.inr (.inr ⟨(row.1, frame), mem_of_getElem?_ofList found, rfl⟩))
    · exact .inr (.inl ⟨row, member, List.mem_singleton.1 op⟩)
  · obtain ⟨n, -, rfl⟩ := Option.map_eq_some_iff.1 (Option.mem_toList.1 last)
    exact .inl ⟨_, rfl⟩

include all instructions handlers localVariables in
theorem wellPlaced : code.WellPlaced := by
  have mentioned : ∀ l : Label, l.index ∈ m.mentioned →
      (Steps.labelsOf (insns m length rows)).count ((numbers m).label l) = 1 :=
    fun l h => (all.position h).1
  intro l member
  unfold Code.references at member
  rw [instructions, handlers, localVariables] at member
  rw [instructions]
  rcases List.mem_append.1 member with member | member
  · rcases List.mem_append.1 member with member | member
    · obtain ⟨insn, inside, label⟩ := List.mem_flatMap.1 member
      rcases mem_insns inside with ⟨l', rfl⟩ | ⟨row, there, rfl⟩ |
        ⟨number, o, n, rfl, known, there⟩ | ⟨e, there, rfl⟩
      · cases label
      · obtain ⟨op, operand, same, -⟩ := all.read.read row there
        rw [same] at label
        obtain ⟨target, named, rfl⟩ := List.mem_map.1
          (show l ∈ operand.targets.map (numbers m).label from
            Operand.targets_mapLabels operand ▸ label)
        exact mentioned target (all.mentioned_target there (by rw [same]; exact named))
      · rw [List.mem_singleton.1 label]
        exact count_body _ _ _ _ (Numbering.distinct_ofMentions _) all.executable all.apart known
          there
      · obtain ⟨site, named, rfl⟩ := List.mem_map.1
          (show l ∈ e.2.sites.map (numbers m).label from Frame.sites_mapLabels e.2 ▸ label)
        exact mentioned site ((all.sound.frames e there).2 site named)
    · obtain ⟨r, inside, label⟩ := List.mem_flatMap.1 member
      obtain ⟨r, original, rfl⟩ := List.mem_map.1 inside
      obtain ⟨named, there, rfl⟩ := List.mem_map.1
        (show l ∈ r.references.map (numbers m).label from label)
      exact mentioned named (all.mentioned_range original there)
  · obtain ⟨v, inside, label⟩ := List.mem_flatMap.1 member
    obtain ⟨v, original, rfl⟩ := List.mem_map.1 inside
    obtain ⟨named, there, rfl⟩ := List.mem_map.1
      (show l ∈ v.references.map (numbers m).label from label)
    exact mentioned named (all.mentioned_variable original there)

include all in
theorem ops_insns : Code.ops (insns m length rows)
    = rows.map fun row => row.2.mapLabels (numbers m).label :=
  ops_body _ _ _ _ all.executable

include all in
/-- An offset with lines was mentioned. -/
theorem exists_number_of_line {o : Nat} (some : m.linesByOffset.getD o [] ≠ []) :
    ∃ n, (numbers m)[o]? = Option.some n := by
  rw [getD_linesByOffset] at some
  obtain ⟨number, there⟩ := List.exists_mem_of_ne_nil _ some
  obtain ⟨row, member, -⟩ := List.mem_map.1 (List.mem_reverse.1 there)
  obtain ⟨member, same⟩ := List.mem_filter.1 member
  rw [← beq_iff_eq.1 same]
  exact exists_number (all.sound.lines row member)

include all in
/-- The lines at an instruction are those that were read for its offset. -/
theorem linesAt_insns {k : Nat} (inside : k < rows.length) :
    Code.linesAt (insns m length rows) k = m.linesByOffset.getD rows[k].1 [] := by
  refine linesAt_body _ _ _ _ (Numbering.distinct_ofMentions _) all.executable all.apart ?_
    all.exists_number_of_line
  rw [List.getElem?_map, List.getElem?_eq_getElem inside]
  rfl

include all instructions in
/-- **Lines come in the order of the instructions** that they belong to. -/
theorem linesInOrder : code.LinesInOrder := by
  have count : (Code.ops (insns m length rows)).length = rows.length := by
    rw [all.ops_insns, List.length_map]
  have view : code.view.lines = (List.range rows.length).map (Code.linesAt (insns m length rows)) := by
    unfold Code.view
    simp only [instructions, count]
  unfold Code.LinesInOrder
  rw [BodyView.lines_lineMarks, view, zipIdx_map_range, List.flatMap_map, instructions,
    lines_body _ _ _ _ all.executable, List.map_flatMap, List.flatMap_def, List.flatMap_def]
  congr 1
  -- instruction by instruction: an offset with lines was mentioned, so its label stands there
  refine List.ext_getElem (by simp) fun k hk hrow => ?_
  simp only [List.length_map] at hrow
  simp only [List.getElem_map, List.getElem_range]
  rw [all.linesAt_insns hrow]
  unfold rowsAt
  cases known : (numbers m)[rows[k].1]? with
  | none =>
    have nothing : m.linesByOffset.getD rows[k].1 [] = [] := by
      by_contra some
      obtain ⟨n, there⟩ := all.exists_number_of_line some
      rw [known] at there
      cases there
    rw [nothing]
    rfl
  | some n =>
    have place : Code.place (insns m length rows) ⟨n⟩ = ⟨k⟩ := by
      unfold Code.place
      rw [positionOf?_body _ _ _ _ (Numbering.distinct_ofMentions _) all.executable all.apart known
        (k := k)]
      · rfl
      · unfold places
        rw [List.getElem?_append_left (by simpa using hrow), List.getElem?_map,
          List.getElem?_eq_getElem hrow]
        rfl
    simp only [List.map_map, Function.comp_def, place]

include all instructions in
theorem typed {frame : Frame} (h : .frame frame ∈ code.instructions.toList) :
    ∃ entry, header.entryFrame = .ok entry := by
  rw [instructions] at h
  rcases mem_insns h with ⟨l, absurd⟩ | ⟨row, there, same⟩ | ⟨number, o, n, absurd, -⟩ |
    ⟨e, there, -⟩
  · cases absurd
  · obtain ⟨op, operand, known, -⟩ := all.read.read row there
    rw [known] at same
    cases same
  · cases absurd
  · exact all.sound.typed (List.ne_nil_of_mem there)

include all instructions localVariables in
/-- Of the variables that share scope and slot only the first one has a signature. -/
theorem signatures : code.view.localVariables.Pairwise fun v w =>
    (w.start, w.finish, w.index) = (v.start, v.finish, v.index) → w.signature = none := by
  obtain ⟨signed, -⟩ := all.variables_spec
  have same : code.view.localVariables = m.variablesWithSignatures.map fun v =>
      (v.mapLabels (numbers m).label).mapLabels (Code.place (insns m length rows)) := by
    show code.localVariables.map (·.mapLabels (Code.place code.instructions.toList)) = _
    rw [localVariables, instructions, List.map_map]
    rfl
  rw [same, List.pairwise_map]
  refine signed.imp_of_mem fun {v w} hv hw plain shared => plain ?_
  have equal : ∀ a b : Label, a.index ∈ m.mentioned → b.index ∈ m.mentioned →
      Code.place (insns m length rows) ((numbers m).label a)
        = Code.place (insns m length rows) ((numbers m).label b) → a.index = b.index := by
    intro a b ha hb together
    obtain ⟨-, j, hj, atJ⟩ := all.position ha
    obtain ⟨-, k, hk, atK⟩ := all.position hb
    rw [atJ, atK] at together
    cases together
    rw [hj] at hk
    exact Option.some.inj hk
  simp only [LocalVariable.mapLabels, Prod.mk.injEq] at shared
  obtain ⟨starts, finishes, slots⟩ := shared
  have ends := fun (u : LocalVariable) (hu : u ∈ m.variablesWithSignatures) => And.intro
    (all.mentioned_variable hu (l := u.start) (by simp [LocalVariable.references]))
    (all.mentioned_variable hu (l := u.finish) (by simp [LocalVariable.references]))
  unfold Code.scopeKey
  rw [equal _ _ (ends w hw).1 (ends v hv).1 starts, equal _ _ (ends w hw).2 (ends v hv).2 finishes,
    slots]

include all instructions handlers localVariables in
/-- **What was read of a body makes a body** that is known to be so. -/
theorem decoded : code.Decoded header where
  nonempty := by
    rw [instructions, all.ops_insns]
    exact fun none => all.nonempty (List.map_eq_nil_iff.1 none)
  read := by
    intro op operand member
    rw [instructions] at member
    rcases mem_insns member with ⟨l, absurd⟩ | ⟨row, there, same⟩ | ⟨number, o, n, absurd, -⟩ |
      ⟨e, there, absurd⟩
    · cases absurd
    · rw [same]
      exact (all.read.read row there).mapLabels _
    · cases absurd
    · cases absurd
  placed := all.wellPlaced instructions handlers localVariables
  ordered := all.linesInOrder instructions
  typed := fun frame member => all.typed instructions member
  signatures := all.signatures instructions localVariables

end Body

end Assembled

end Marks

/-- No offset is stray if an instruction starts at each of them, or the body ends there. -/
theorem Marks.strayOffset?_eq_none_iff {m : Marks} {length : Nat}
    {rows : List (Nat × Instruction)} : m.strayOffset? length (rows.map (·.1)) = none
      ↔ ∀ o ∈ m.mentioned, o ∈ places length rows := by
  unfold strayOffset? places
  rw [List.min?_eq_none_iff, List.filter_eq_nil_iff]
  refine forall₂_congr fun o _ => ?_
  rw [List.mem_append, List.mem_singleton]
  simp only [Std.HashSet.contains_ofList, List.contains_eq_mem, Bool.and_eq_true, bne_iff_ne,
    Bool.not_eq_eq_eq_not, Bool.not_true, decide_eq_false_iff_not]
  tauto

namespace Code

/-! ### Whole bodies -/

/-- What is put together was read, and has the numbers of the offsets for its labels. -/
theorem assembled_of_assemble {header : MethodHeader} {length : Nat}
    {rows : List (Nat × Instruction)} {ranges : List ExceptionRange} {m : Marks}
    (read : BytecodeContext.Rows 0 length rows) (nonempty : rows ≠ [])
    (sound : m.Sound header (mentions rows ranges).reverse) {maxStack maxLocals : UInt16} {code : Code}
    (h : assemble maxStack maxLocals length rows ranges m = .ok code) :
    m.Assembled header length rows ranges
      ∧ code.instructions.toList = Marks.Assembled.insns m length rows
      ∧ code.instructions.labelCount = (Marks.Assembled.numbers m).size
      ∧ code.handlers = ranges.map (·.mapLabels (Marks.Assembled.numbers m).label)
      ∧ code.localVariables
        = m.variablesWithSignatures.map (·.mapLabels (Marks.Assembled.numbers m).label) := by
  unfold assemble at h
  split at h
  · cases h
  · next stray =>
    cases h
    exact ⟨⟨read, nonempty, sound, Marks.strayOffset?_eq_none_iff.1 stray⟩,
      Sequence.toList_ofList _ _, rfl, rfl, rfl⟩

theorem decoded_of_assemble {header : MethodHeader} {length : Nat}
    {rows : List (Nat × Instruction)} {ranges : List ExceptionRange} {m : Marks}
    (read : BytecodeContext.Rows 0 length rows) (nonempty : rows ≠ [])
    (sound : m.Sound header (mentions rows ranges).reverse) {maxStack maxLocals : UInt16} {code : Code}
    (h : assemble maxStack maxLocals length rows ranges m = .ok code) : code.Decoded header := by
  obtain ⟨all, instructions, -, handlers, localVariables⟩ :=
    assembled_of_assemble read nonempty sound h
  exact all.decoded instructions handlers localVariables

/-- The code is as long as it says, and not empty. -/
theorem gives_head : Gives head fun front =>
    front.2.2.2.length = front.2.2.1.toNat ∧ front.2.2.2 ≠ [] := by
  refine (Gives.any _).bind fun maxStack _ => (Gives.any _).bind fun maxLocals _ => ?_
  refine (Gives.any _).bind fun length _ => .ite (fun _ => .malformed) fun some => ?_
  refine (Gives.length_take _).bind fun bytes same => .pure ⟨same, ?_⟩
  rintro rfl
  simp only [Bool.or_eq_true, beq_iff_eq, not_or] at some
  exact some.1 (UInt32.toNat_inj.1 same.symm)

/-- **Every body that is read** is known to be so. -/
theorem decoded_of_decode {pool : Pool} {bootstrap : BootstrapTable} {header : MethodHeader}
    {bytes : Bytes} {code : Code} (h : decode pool bootstrap header .all bytes = .ok code) :
    code.Decoded header := by
  have given : Gives (decoder pool bootstrap header .all) (Decoded header) := by
    rw [decoder_eq]
    refine gives_head.bind fun front ⟨length, present⟩ => ?_
    refine (Gives.ofExcept fun rows found => BytecodeContext.rows_instructions found).bind
      fun rows ⟨read, nonempty⟩ => ?_
    refine (gives_tables rows).bind fun tables sound => .ofExcept fun code made => ?_
    rw [length] at read
    exact decoded_of_assemble read (nonempty present) sound made
  exact given.onBytes h

namespace Decoded

variable {header : MethodHeader} {code : Code} (decoded : code.Decoded header)

theorem mem_canonical {insn : Instruction} (h : insn ∈ code.canonical.instructions.toList) :
    ∃ original ∈ code.instructions.toList, original.canonical = insn := by
  have insns : code.canonical.instructions.toList
      = code.instructions.toList.map Instruction.canonical := Sequence.toList_ofList _ _
  rw [insns] at h
  exact List.mem_map.1 h

include decoded in
theorem read_canonical {op : Opcode} {operand : Operand}
    (h : .op op operand ∈ code.canonical.instructions.toList) :
    op.Takes operand ∧ operand.Representable ∧ operand.isEmptyTable = false := by
  obtain ⟨insn, member, same⟩ := mem_canonical h
  cases insn with
  | op op' original =>
    cases same
    obtain ⟨_, _, same, takes, shallow, keys⟩ := decoded.read _ _ member
    cases same
    exact ⟨takes.canonical, shallow.representable, original.isEmptyTable_canonical.trans keys⟩
  | _ => cases same

include decoded in
/-- As it is read back, a body that was read can be read back. -/
theorem readable : code.canonical.Readable header where
  nonempty := by
    rw [show code.canonical.instructions.toList = code.instructions.toList.map Instruction.canonical
      from Sequence.toList_ofList _ _, ops_canonical]
    exact fun none => decoded.nonempty (List.map_eq_nil_iff.1 none)
  takes := fun _ _ member => (decoded.read_canonical member).1
  representable := fun _ _ member => (decoded.read_canonical member).2.1
  placed := decoded.placed.canonical
  typed := by
    intro frame member
    obtain ⟨insn, inside, same⟩ := mem_canonical member
    cases insn with
    | frame original => exact decoded.typed original inside
    | _ => cases same
  signatures := by
    rw [view_canonical]
    exact decoded.signatures

include decoded in
theorem keys : ¬code.canonical.HasEmptyTable := by
  rintro ⟨op, operand, member, empty⟩
  rw [(decoded.read_canonical member).2.2] at empty
  cases empty

end Decoded

end Code

end ClassInstrument
