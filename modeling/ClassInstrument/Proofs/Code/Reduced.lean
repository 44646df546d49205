import ClassInstrument.Proofs.Code.Decoded

/-!
# Bodies that are read in part

A reader can leave out the tables for debuggers, or the frames.  The labels that only these tables
mention are gone then, and those that stay have other numbers and other places in the list of
elements; but all that stays stands where it stood, and all that refers to an instruction refers to
the same one.

* `Code.indexed` — the elements of a body, the number of an instruction standing for the labels in
  front of it;
* `Code.Reduced` — a body without what a reader leaves out;
* `Marks.Reduces` — the same of what was read so far, kept by every table;
* `Marks.Assembled.indexed_insns` — what becomes of the elements can be told from the offsets alone;
* `Code.exists_reduced` — **a reader drops what it is told to, and nothing else**.
-/

namespace ClassInstrument

open Decoder

/-! ### Bodies without labels -/

/-- Whether an element of a body stays. -/
def ReadOptions.keeps (options : ReadOptions) : Instruction → Bool
  | .line .. => !options.skipDebug
  | .frame _ => !options.skipFrames
  | _ => true

namespace ReadOptions

variable (options : ReadOptions)

/-- Lines stay, or are all left out. -/
theorem filter_lines (numbers : List UInt16) (start : Label) :
    (numbers.map (Instruction.line · start)).filter options.keeps
      = if options.skipDebug then [] else numbers.map (.line · start) := by
  cases debug : options.skipDebug <;> simp [keeps, debug]

/-- So do frames. -/
theorem filter_frame (frame? : Option Frame) :
    (frame?.map Instruction.frame).toList.filter options.keeps
      = if options.skipFrames then [] else (frame?.map .frame).toList := by
  cases frame? <;> cases frames : options.skipFrames <;> simp [keeps, frames]

end ReadOptions

namespace Code

/-- The elements of a body without its labels, the number of an instruction standing for the labels in
front of it. -/
def indexed (code : Code) : List Instruction :=
  (code.instructions.toList.filter fun insn => insn.label?.isNone).map
    (·.mapLabels (place code.instructions.toList))

/-- **A body without what a reader leaves out.**  Every label that is referred to is placed once, so
that the number of an instruction can stand for it. -/
structure Reduced (options : ReadOptions) (full reduced : Code) : Prop where
  placed : full.WellPlaced ∧ reduced.WellPlaced
  maxStack : reduced.maxStack = full.maxStack
  maxLocals : reduced.maxLocals = full.maxLocals
  elements : reduced.indexed = full.indexed.filter options.keeps
  handlers : reduced.handlers.map (·.mapLabels (place reduced.instructions.toList))
    = full.handlers.map (·.mapLabels (place full.instructions.toList))
  localVariables : reduced.localVariables.map (·.mapLabels (place reduced.instructions.toList))
    = if options.skipDebug then []
      else full.localVariables.map (·.mapLabels (place full.instructions.toList))

end Code

/-! ### Marks -/

namespace Marks

/-- What was read so far by a reader that leaves something out. -/
structure Reduces (options : ReadOptions) (m m' : Marks) : Prop where
  mentioned : ∀ o ∈ m'.mentioned, o ∈ m.mentioned
  lines : m'.lines = if options.skipDebug then [] else m.lines
  frames : m'.frames = if options.skipFrames then [] else m.frames
  localVariables : m'.localVariables = if options.skipDebug then [] else m.localVariables
  signatures : m'.signatures = if options.skipDebug then ∅ else m.signatures

variable {options : ReadOptions} {m m' : Marks}

theorem reduces_start (options : ReadOptions) (mentioned : List Nat) :
    (start mentioned).Reduces options (start mentioned) := by
  refine ⟨fun _ h => h, ?_, ?_, ?_, ?_⟩ <;> exact (ite_self _).symm

/-- Both mention more. -/
theorem Reduces.mention (reduces : m.Reduces options m') (more : List Nat) :
    Reduces options { m with mentioned := more ++ m.mentioned }
      { m' with mentioned := more ++ m'.mentioned } where
  mentioned o member := List.mem_append.2
    ((List.mem_append.1 member).imp_right (reduces.mentioned o))
  lines := reduces.lines
  frames := reduces.frames
  localVariables := reduces.localVariables
  signatures := reduces.signatures

/-- Only the one that leaves nothing out mentions more. -/
theorem Reduces.mention_full (reduces : m.Reduces options m') (more : List Nat) :
    Reduces options { m with mentioned := more ++ m.mentioned } m' where
  mentioned o member := List.mem_append_right _ (reduces.mentioned o member)
  lines := reduces.lines
  frames := reduces.frames
  localVariables := reduces.localVariables
  signatures := reduces.signatures

end Marks

namespace Code

variable {ctx : BytecodeContext} {header : MethodHeader} {options : ReadOptions} {m m' : Marks}

/-! ### Tables that stay -/

section Read

variable (read : options.skipDebug = false)
include read

theorem related_decodeLine (reduces : m.Reduces options m') :
    Related (Marks.Reduces options) (decodeLine ctx m) (decodeLine ctx m') := by
  refine .bind_same (.any _) fun start _ => .bind_same (.any _) fun line _ => ?_
  refine .bind_same (.any _) fun l _ => .pure ?_
  exact { reduces.mention [l.index] with lines := by simp [reduces.lines, read] }

theorem related_decodeVariable (reduces : m.Reduces options m') :
    Related (Marks.Reduces options) (decodeVariable ctx m) (decodeVariable ctx m') := by
  refine .bind_same (.any _) fun start _ => .bind_same (.any _) fun length _ => ?_
  refine .bind_same (.any _) fun name _ => .bind_same (.any _) fun desc _ => ?_
  refine .bind_same (.any _) fun index _ => .bind_same (.any _) fun first _ => ?_
  refine .bind_same (.any _) fun finish _ => .pure ?_
  exact { reduces.mention [finish.index, first.index] with
    localVariables := by simp [reduces.localVariables, read] }

theorem related_decodeSignature (reduces : m.Reduces options m') :
    Related (Marks.Reduces options) (decodeSignature ctx m) (decodeSignature ctx m') := by
  refine .bind_same (.any _) fun start _ => .bind_same (.any _) fun length _ => ?_
  refine .bind_same (.any _) fun _ _ => .bind_same (.any _) fun signature _ => ?_
  refine .bind_same (.any _) fun index _ => .pure ?_
  exact { reduces with signatures := by simp [reduces.signatures, read] }

end Read

theorem related_decodeRows {row : Marks → Decoder Marks}
    (each : ∀ m m', Marks.Reduces options m m' →
      Related (Marks.Reduces options) (row m) (row m'))
    (reduces : m.Reduces options m') :
    Related (Marks.Reduces options) (decodeRows row m) (decodeRows row m') :=
  .bind_same (.any _) fun _ _ => .iterate each _ reduces

/-- **A table that is read** adds the same to both. -/
theorem exists_decodeTable {table : CodeTable} (read : table.isRead options = true)
    (reduces : m.Reduces options m') {body : Bytes} {n : Marks}
    (h : decodeTable ctx header m body table = .ok n) :
    ∃ n', decodeTable ctx header m' body table = .ok n' ∧ n.Reduces options n' := by
  cases table with
  | lines =>
    exact (related_decodeRows (fun _ _ => related_decodeLine (by simpa [CodeTable.isRead] using read))
      reduces).onBytes h
  | localVariables =>
    exact (related_decodeRows (fun _ _ => related_decodeVariable (by simpa [CodeTable.isRead] using read))
      reduces).onBytes h
  | variableTypes =>
    exact (related_decodeRows (fun _ _ => related_decodeSignature (by simpa [CodeTable.isRead] using read))
      reduces).onBytes h
  | frames =>
    obtain ⟨entry, typed, h⟩ := Traverse.bind_eq_ok_iff.1 h
    obtain ⟨map, found, h⟩ := Traverse.bind_eq_ok_iff.1 h
    cases h
    have read : options.skipFrames = false := by simpa [CodeTable.isRead] using read
    refine ⟨_, Traverse.bind_eq_ok_iff.2 ⟨entry, typed, Traverse.bind_eq_ok_iff.2 ⟨map, found, rfl⟩⟩,
      ?_⟩
    exact { reduces.mention map.mentioned with frames := by simp [addFrames, read] }

/-! ### Tables that are left out -/

section Skipped

variable (skipped : options.skipDebug = true)
include skipped

theorem gives_decodeLine_skipped (reduces : m.Reduces options m') :
    Gives (decodeLine ctx m) fun n => n.Reduces options m' := by
  refine (Gives.any _).bind fun start _ => (Gives.any _).bind fun line _ => ?_
  refine (Gives.any _).bind fun l _ => .pure ?_
  exact { reduces.mention_full [l.index] with lines := by simp [reduces.lines, skipped] }

theorem gives_decodeVariable_skipped (reduces : m.Reduces options m') :
    Gives (decodeVariable ctx m) fun n => n.Reduces options m' := by
  refine (Gives.any _).bind fun start _ => (Gives.any _).bind fun length _ => ?_
  refine (Gives.any _).bind fun name _ => (Gives.any _).bind fun desc _ => ?_
  refine (Gives.any _).bind fun index _ => (Gives.any _).bind fun first _ => ?_
  refine (Gives.any _).bind fun finish _ => .pure ?_
  exact { reduces.mention_full [finish.index, first.index] with
    localVariables := by simp [reduces.localVariables, skipped] }

theorem gives_decodeSignature_skipped (reduces : m.Reduces options m') :
    Gives (decodeSignature ctx m) fun n => n.Reduces options m' := by
  refine (Gives.any _).bind fun start _ => (Gives.any _).bind fun length _ => ?_
  refine (Gives.any _).bind fun _ _ => (Gives.any _).bind fun signature _ => ?_
  refine (Gives.any _).bind fun index _ => .pure ?_
  exact { reduces with signatures := by simp [reduces.signatures, skipped] }

end Skipped

theorem gives_decodeRows_skipped {row : Marks → Decoder Marks}
    (each : ∀ m, Marks.Reduces options m m' → Gives (row m) fun n => n.Reduces options m')
    (reduces : m.Reduces options m') :
    Gives (decodeRows row m) fun n => n.Reduces options m' :=
  (Gives.any _).bind fun _ _ => Gives.iterate each _ reduces

/-- **A table that is left out** says only what is left out. -/
theorem reduces_decodeTable {table : CodeTable} (skipped : table.isRead options = false)
    (reduces : m.Reduces options m') {body : Bytes} {n : Marks}
    (h : decodeTable ctx header m body table = .ok n) : n.Reduces options m' := by
  cases table with
  | lines =>
    exact (gives_decodeRows_skipped (fun _ => gives_decodeLine_skipped
      (by simpa [CodeTable.isRead] using skipped)) reduces).onBytes h
  | localVariables =>
    exact (gives_decodeRows_skipped (fun _ => gives_decodeVariable_skipped
      (by simpa [CodeTable.isRead] using skipped)) reduces).onBytes h
  | variableTypes =>
    exact (gives_decodeRows_skipped (fun _ => gives_decodeSignature_skipped
      (by simpa [CodeTable.isRead] using skipped)) reduces).onBytes h
  | frames =>
    obtain ⟨entry, typed, h⟩ := Traverse.bind_eq_ok_iff.1 h
    obtain ⟨map, found, h⟩ := Traverse.bind_eq_ok_iff.1 h
    cases h
    have skipped : options.skipFrames = true := by simpa [CodeTable.isRead] using skipped
    exact { reduces.mention_full map.mentioned with frames := by simp [reduces.frames, skipped] }

/-- The next attribute behind the code. -/
theorem related_decodeAttribute (reduces : m.Reduces options m') :
    Related (Marks.Reduces options) (decodeAttribute ctx header .all m)
      (decodeAttribute ctx header options m') := by
  refine .bind_same (.any _) fun name _ => .bind_same (.any _) fun length _ => ?_
  refine .bind_same (.any _) fun body _ => ?_
  cases CodeTable.ofName? name with
  | none => exact .pure reduces
  | some table =>
    have all : table.isRead .all = true := by cases table <;> rfl
    dsimp only
    rw [if_pos all]
    cases read : table.isRead options with
    | true => exact .ofExcept fun n h => exists_decodeTable read reduces h
    | false => exact .ofExcept_pure fun n h => reduces_decodeTable read reduces h

end Code

/-! ### Whole bodies -/

namespace Marks

/-- The number of the instruction that starts at an offset, in the place of a label. -/
def spot (length : Nat) (rows : List (Nat × Instruction)) (l : Label) : Label :=
  ⟨(places length rows).idxOf l.index⟩

/-- The elements of a body without its labels, told from the offsets alone. -/
def elements (m : Marks) (length : Nat) (rows : List (Nat × Instruction)) : List Instruction :=
  rows.flatMap fun row =>
    (m.linesByOffset.getD row.1 []).map (Instruction.line · (spot length rows ⟨row.1⟩))
      ++ ((Std.HashMap.ofList m.frames)[row.1]?.map fun frame =>
        .frame (frame.mapLabels (spot length rows))).toList
      ++ [row.2.mapLabels (spot length rows)]

namespace Assembled

variable {header : MethodHeader} {length : Nat} {rows : List (Nat × Instruction)}
  {ranges : List ExceptionRange} {m : Marks} (all : m.Assembled header length rows ranges)
include all

/-- The label of an offset stands in front of the instruction that starts there. -/
theorem place_label {l : Label} (h : l.index ∈ m.mentioned) :
    Code.place (insns m length rows) ((numbers m).label l) = spot length rows l := by
  obtain ⟨-, k, there, place⟩ := all.position h
  obtain ⟨inside, same⟩ := List.getElem?_eq_some_iff.1 there
  rw [place, spot, ← same, List.Nodup.idxOf_getElem all.apart]

/-- The marks in front of an offset, without its label. -/
theorem indexed_marksAt (offset : Nat) :
    ((marksAt (numbers m) m.linesByOffset (.ofList m.frames) offset).filter
        fun insn => insn.label?.isNone).map (·.mapLabels (Code.place (insns m length rows)))
      = (m.linesByOffset.getD offset []).map (Instruction.line · (spot length rows ⟨offset⟩))
        ++ ((Std.HashMap.ofList m.frames)[offset]?.map fun frame =>
          .frame (frame.mapLabels (spot length rows))).toList := by
  have frames : ∀ {frame}, (Std.HashMap.ofList m.frames)[offset]? = some frame →
      offset ∈ m.mentioned ∧ ∀ l ∈ frame.sites, l.index ∈ m.mentioned := fun found =>
    all.sound.frames _ (mem_of_getElem?_ofList found)
  unfold marksAt
  cases known : (numbers m)[offset]? with
  | none =>
    -- nothing is said about an offset that was not mentioned
    have lines : m.linesByOffset.getD offset [] = [] := by
      by_contra some
      obtain ⟨n, there⟩ := all.exists_number_of_line some
      cases known.symm.trans there
    have frame : (Std.HashMap.ofList m.frames)[offset]? = none := by
      cases found : (Std.HashMap.ofList m.frames)[offset]? with
      | none => rfl
      | some frame =>
        obtain ⟨n, there⟩ := exists_number (frames found).1
        cases known.symm.trans there
    rw [lines, frame]
    rfl
  | some n =>
    have here : Code.place (insns m length rows) ⟨n⟩ = spot length rows ⟨offset⟩ := by
      have mentioned : offset ∈ m.mentioned := List.mem_reverse.1 (Numbering.mem_ofMentions.1
        (Std.HashMap.mem_iff_isSome_getElem?.2 (by rw [known]; rfl)))
      rw [← all.place_label mentioned, Numbering.label_of_getElem? known]
    have lines : ((m.linesByOffset.getD offset []).map (Instruction.line · ⟨n⟩)).filter
        (fun insn => insn.label?.isNone) = (m.linesByOffset.getD offset []).map (.line · ⟨n⟩) :=
      List.filter_eq_self.2 fun insn member => by
        obtain ⟨number, -, rfl⟩ := List.mem_map.1 member
        rfl
    dsimp only
    rw [List.cons_append, List.filter_cons_of_neg (by simp [Instruction.label?]), List.filter_append,
      lines, List.map_append, List.map_map]
    congr 1
    · exact List.map_congr_left fun number _ => congrArg (Instruction.line number) here
    · cases found : (Std.HashMap.ofList m.frames)[offset]? with
      | none => rfl
      | some frame =>
        refine congrArg (fun frame => [Instruction.frame frame]) ?_
        rw [Frame.mapLabels_mapLabels]
        exact Frame.mapLabels_congr fun l site => all.place_label ((frames found).2 l site)

/-- **What becomes of the elements** does not depend on the numbers of the labels. -/
theorem indexed_insns : ((insns m length rows).filter fun insn => insn.label?.isNone).map
    (·.mapLabels (Code.place (insns m length rows))) = elements m length rows := by
  -- the label behind the last instruction is the only element that belongs to no row
  have last : ((numbers m)[length]?.map fun number => Instruction.label ⟨number⟩).toList.filter
      (fun insn => insn.label?.isNone) = [] := by
    cases (numbers m)[length]? <;> rfl
  have whole : (insns m length rows).filter (fun insn => insn.label?.isNone)
      = rows.flatMap fun row => (marksAt (numbers m) m.linesByOffset (.ofList m.frames) row.1).filter
        (fun insn => insn.label?.isNone) ++ [row.2.mapLabels (numbers m).label] := by
    unfold insns body
    rw [List.filter_append, last, List.append_nil, List.filter_flatMap]
    refine List.flatMap_congr fun row member => ?_
    obtain ⟨op, operand, same, -⟩ := all.read.read row member
    rw [List.filter_append, same]
    rfl
  rw [whole, List.map_flatMap]
  refine List.flatMap_congr fun row member => ?_
  rw [List.map_append, all.indexed_marksAt]
  obtain ⟨op, operand, same, -⟩ := all.read.read row member
  congr 1
  rw [same, List.map_singleton]
  refine congrArg (fun operand => [Instruction.op op operand]) ?_
  rw [Operand.mapLabels_mapLabels]
  exact Operand.mapLabels_congr fun l target =>
    all.place_label (all.mentioned_target member (by rw [same]; exact target))

/-- The ranges refer to the instructions that start at their offsets. -/
theorem ranges_mapLabels : (ranges.map (·.mapLabels (numbers m).label)).map
    (·.mapLabels (Code.place (insns m length rows))) = ranges.map (·.mapLabels (spot length rows)) := by
  rw [List.map_map]
  refine List.map_congr_left fun r member => ?_
  have each : ∀ l ∈ r.references,
      Code.place (insns m length rows) ((numbers m).label l) = spot length rows l :=
    fun l label => all.place_label (all.mentioned_range member label)
  simp only [ExceptionRange.references, List.forall_mem_cons] at each
  simp only [Function.comp_apply, ExceptionRange.mapLabels, each.1, each.2.1, each.2.2.1]

/-- So do the variables. -/
theorem variables_mapLabels :
    (m.variablesWithSignatures.map (·.mapLabels (numbers m).label)).map
      (·.mapLabels (Code.place (insns m length rows)))
      = m.variablesWithSignatures.map (·.mapLabels (spot length rows)) := by
  rw [List.map_map]
  refine List.map_congr_left fun v member => ?_
  have each : ∀ l ∈ v.references,
      Code.place (insns m length rows) ((numbers m).label l) = spot length rows l :=
    fun l label => all.place_label (all.mentioned_variable member label)
  simp only [LocalVariable.references, List.forall_mem_cons] at each
  simp only [Function.comp_apply, LocalVariable.mapLabels, each.1, each.2.1]

end Assembled

variable {options : ReadOptions} {m m' : Marks}

/-- Of the elements those stay that are read. -/
theorem Reduces.elements (reduces : m.Reduces options m') {length : Nat}
    {rows : List (Nat × Instruction)} (executable : ∀ row ∈ rows, row.2.isPseudo = false) :
    m'.elements length rows = (m.elements length rows).filter options.keeps := by
  unfold Marks.elements
  rw [List.filter_flatMap]
  refine List.flatMap_congr fun row member => ?_
  have op : options.keeps (row.2.mapLabels (spot length rows)) = true := by
    have plain := executable row member
    cases known : row.2 with
    | op op operand => rfl
    | _ =>
      rw [known] at plain
      cases plain
  have lines : m'.linesByOffset.getD row.1 []
      = if options.skipDebug then [] else m.linesByOffset.getD row.1 [] := by
    rw [getD_linesByOffset, getD_linesByOffset, reduces.lines]
    cases options.skipDebug <;> rfl
  have frame := options.filter_frame
    ((Std.HashMap.ofList m.frames)[row.1]?.map (·.mapLabels (spot length rows)))
  simp only [Option.map_map, Function.comp_def] at frame
  rw [List.filter_append, List.filter_append, List.filter_singleton, op, cond_true, lines,
    options.filter_lines, frame, reduces.frames]
  congr 2
  · cases options.skipDebug <;> rfl
  · cases options.skipFrames with
    | true =>
      rw [if_pos rfl, if_pos rfl]
      simp
    | false => rfl

theorem Reduces.variablesWithSignatures (reduces : m.Reduces options m') :
    m'.variablesWithSignatures = if options.skipDebug then [] else m.variablesWithSignatures := by
  unfold Marks.variablesWithSignatures
  rw [reduces.localVariables, reduces.signatures]
  cases options.skipDebug <;> rfl

end Marks

namespace Code

variable {options : ReadOptions} {m m' : Marks} {header : MethodHeader}

theorem sizes_of_assemble {maxStack maxLocals : UInt16} {length : Nat}
    {rows : List (Nat × Instruction)} {ranges : List ExceptionRange} {code : Code}
    (h : assemble maxStack maxLocals length rows ranges m = .ok code) :
    code.maxStack = maxStack ∧ code.maxLocals = maxLocals := by
  unfold assemble at h
  split at h
  · cases h
  · cases h
    exact ⟨rfl, rfl⟩

/-- A body is put together if an instruction starts at each offset that was mentioned. -/
theorem exists_assemble (maxStack maxLocals : UInt16) {length : Nat}
    {rows : List (Nat × Instruction)} (ranges : List ExceptionRange)
    (inside : ∀ o ∈ m.mentioned, o ∈ Marks.places length rows) :
    ∃ code, assemble maxStack maxLocals length rows ranges m = .ok code := by
  unfold assemble
  rw [Marks.strayOffset?_eq_none_iff.2 inside]
  exact ⟨_, rfl⟩

/-- What was read in part makes a body as well. -/
theorem exists_reduced_of_assemble {length : Nat} {rows : List (Nat × Instruction)}
    {ranges : List ExceptionRange} (read : BytecodeContext.Rows 0 length rows) (nonempty : rows ≠ [])
    (sound : m.Sound header (mentions rows ranges).reverse)
    (sound' : m'.Sound header (mentions rows ranges).reverse) (reduces : m.Reduces options m')
    {maxStack maxLocals : UInt16} {full : Code}
    (h : assemble maxStack maxLocals length rows ranges m = .ok full) :
    ∃ reduced, assemble maxStack maxLocals length rows ranges m' = .ok reduced
      ∧ full.Reduced options reduced := by
  obtain ⟨all, instructions, -, handlers, localVariables⟩ :=
    assembled_of_assemble read nonempty sound h
  -- what it mentions the other one mentions as well, so an instruction starts there
  obtain ⟨reduced, h'⟩ := exists_assemble maxStack maxLocals ranges
    fun o member => all.inside o (reduces.mentioned o member)
  obtain ⟨all', instructions', -, handlers', localVariables'⟩ :=
    assembled_of_assemble read nonempty sound' h'
  refine ⟨reduced, h', ⟨all.wellPlaced instructions handlers localVariables,
    all'.wellPlaced instructions' handlers' localVariables'⟩, ?_, ?_, ?_, ?_, ?_⟩
  · rw [(sizes_of_assemble h).1, (sizes_of_assemble h').1]
  · rw [(sizes_of_assemble h).2, (sizes_of_assemble h').2]
  · unfold indexed
    rw [instructions, instructions', all.indexed_insns, all'.indexed_insns,
      reduces.elements all.executable]
  · rw [handlers, handlers', instructions, instructions', all.ranges_mapLabels,
      all'.ranges_mapLabels]
  · rw [localVariables, localVariables', instructions, instructions', all.variables_mapLabels,
      all'.variables_mapLabels, reduces.variablesWithSignatures]
    cases options.skipDebug <;> rfl

/-- **A reader drops what it is told to, and nothing else**: where a body can be read as a whole, it
can be read in part. -/
theorem exists_reduced {pool : Pool} {bootstrap : BootstrapTable} {bytes : Bytes} {full : Code}
    (h : decode pool bootstrap header .all bytes = .ok full) (options : ReadOptions) :
    ∃ reduced, decode pool bootstrap header options bytes = .ok reduced
      ∧ full.Reduced options reduced := by
  suffices related : Related (Reduced options) (decoder pool bootstrap header .all)
      (decoder pool bootstrap header options) from related.onBytes h
  refine .bind_same (.any _) fun maxStack _ => .bind_same (.any _) fun maxLocals _ => ?_
  refine .bind_same (.any _) fun length _ => ?_
  split
  · exact .malformed
  next some =>
  simp only [Bool.or_eq_true, beq_iff_eq, not_or] at some
  refine .bind_same (.length_take _) fun bytes size => ?_
  have present : bytes ≠ [] := by
    rintro rfl
    exact some.1 (UInt32.toNat_inj.1 size.symm)
  refine .bind_same (.ofExcept fun rows found => BytecodeContext.rows_instructions found)
    fun rows ⟨read, nonempty⟩ => ?_
  refine .bind_same (.any _) fun ranges _ => .bind_same (.any _) fun count _ => ?_
  have sound : ∀ options : ReadOptions, Gives (Decoder.iterate
      (decodeAttribute ⟨pool, bootstrap, length.toNat⟩ header options) count.toNat
      (.start (mentions rows ranges).reverse))
      (Marks.Sound header (mentions rows ranges).reverse) := fun options =>
    .iterate (fun m sound => gives_decodeAttribute options sound) _ (Marks.sound_start _)
  refine ((Related.iterate (fun _ _ => related_decodeAttribute) count.toNat
    (Marks.reduces_start options _)).both (sound .all) (sound options)).bind ?_
  rintro m m' ⟨reduces, full, part⟩
  rw [size] at read
  exact .ofExcept fun code made =>
    exists_reduced_of_assemble read (nonempty present) full part reduces made

/-- A body is read from its parts if an instruction starts at each offset that they mention. -/
theorem exists_decode_of_parts {pool : Pool} {bootstrap : BootstrapTable} {bytes : Bytes}
    (front : UInt16 × UInt16 × UInt32 × Bytes) (rows : List (Nat × Instruction))
    (ranges : List ExceptionRange) {c c' : Cursor} (first : head (.start bytes) = .ok (front, c))
    (code : BytecodeContext.instructions ⟨pool, bootstrap, front.2.2.1.toNat⟩ front.2.2.2 = .ok rows)
    (behind : tables ⟨pool, bootstrap, front.2.2.1.toNat⟩ header rows c = .ok ((ranges, m), c'))
    (inside : ∀ o ∈ m.mentioned, o ∈ Marks.places front.2.2.1.toNat rows) :
    ∃ code, decode pool bootstrap header .all bytes = .ok code := by
  obtain ⟨made, assembled⟩ := exists_assemble front.1 front.2.1 ranges inside
  refine ⟨made, ?_⟩
  unfold decode onBytes
  rw [decoder_eq, bind_of_ok first, rest, code, bind_of_ok (d := Decoder.ofExcept (.ok rows)) rfl,
    bind_of_ok behind, assembled]
  rfl

end Code

end ClassInstrument
