import ClassInstrument.Proofs.ClassFile.Attributes
import ClassInstrument.Proofs.Code.FrameTable
import ClassInstrument.Proofs.Pool.Additions

/-!
# The body attribute as it is written

What is known of the bytes of a `Code` attribute in all later tables, before anything is said
about the code in it: the constants that operands refer to are found again, and everything behind
the code is read back with its labels resolved.

* `Operand.Resolves` — the index in an operand leads back to what the operand names;
* `Code.tables` — the decoder of everything behind the code;
* `Code.Written` — the parts of a written body;
* `Code.yields_encode` — **every body that is written has these parts**.
-/

namespace ClassInstrument

open Builder Decoder

/-! ### References to constants -/

/-- The index in an operand leads back to what the operand names. -/
def Operand.Resolves (t : ConstantTables) (index : UInt16) : Operand → Prop
  | .load constant => constant.nesting ≤ Pool.dynamicLevels →
    (∀ h ∈ constant.handles, h.Representable) →
      t.pool.constant t.bootstrap index = .ok constant
  | .type name => t.pool.className index = .ok name
  | .field member => t.pool.memberRef index = .ok (member, false)
  | .method member onInterface => t.pool.memberRef index = .ok (member, onInterface)
  | .invokeDynamic call => call.nesting ≤ Pool.dynamicLevels →
    (∀ h ∈ call.handles, h.Representable) →
      t.pool.dynamicCall t.bootstrap index = .ok call
  | .multiArray desc _ => t.pool.className index = .ok desc
  | _ => True

theorem Operand.yields_addConstants (operand : Operand) :
    Yields operand.addConstants fun index t => operand.Resolves t index := by
  cases operand with
  | load constant =>
    exact (yields_addConstant constant).mono fun i t found deep fits => found _ deep fits
  | type name => exact (yields_addClass name).mono fun i t found => found.2.1
  | field member => exact yields_addFieldRef member
  | method member onInterface => exact yields_addMethodRef member onInterface
  | invokeDynamic call =>
    exact (yields_addInvokeDynamic call).mono fun i t found deep fits => found _ deep fits
  | multiArray desc dims => exact (yields_addClass desc).mono fun i t found => found.2.1
  | _ => exact Yields.pure fun _ => trivial

/-- The item of an instruction before any jump is widened. -/
def Instruction.IsItem (t : ConstantTables) (insn : Instruction) (item : Item) : Prop :=
  item.insn = insn ∧ item.far = false
    ∧ ∀ opcode operand, insn = .op opcode operand → operand.Resolves t item.index

theorem Instruction.yields_toItem (insn : Instruction) :
    Yields insn.toItem fun item t => insn.IsItem t item := by
  cases insn with
  | op opcode operand =>
    refine (Operand.yields_addConstants operand).bind fun index => ?_
    refine Yields.pure fun t found => ⟨rfl, rfl, fun other operand' same => ?_⟩
    cases same
    exact found
  | _ => exact Yields.pure fun t => ⟨rfl, rfl, fun _ _ same => (nomatch same)⟩

theorem Operand.adds_addConstants (operand : Operand) : Adds operand.addConstants := by
  cases operand with
  | load constant => exact adds_addConstant constant
  | type name => exact adds_addClass name
  | field member => exact adds_addFieldRef member
  | method member onInterface => exact adds_addMethodRef member onInterface
  | invokeDynamic call => exact adds_addInvokeDynamic call
  | multiArray desc dims => exact adds_addClass desc
  | _ => exact .pure 0

theorem Instruction.adds_toItem (insn : Instruction) : Adds insn.toItem := by
  cases insn with
  | op opcode operand => exact operand.adds_addConstants.bind fun index => .pure _
  | _ => exact .pure _

namespace Code

open BytecodeContext

/-! ### Behind the code -/

/-- The marks that some attributes lead to are read from their chunks. -/
theorem reads_attributes {ctx : BytecodeContext} {t : ConstantTables} {labels : LabelTable}
    (serves : ctx.Serves t labels) {header : MethodHeader} {attributes : List Attribute}
    {chunks : List Bytes}
    (each : List.Forall₂ (fun a bytes => Attribute.IsChunk a bytes t) attributes chunks)
    {marks result : Marks} (said : takeOver ctx header attributes marks = .ok result) :
    Reads (iterate (decodeAttribute ctx header .all) attributes.length marks) chunks.flatten
      result := by
  induction each generalizing marks with
  | nil =>
    cases said
    exact fun _ _ => rfl
  | @cons a chunk attributes chunks first _ ih =>
    unfold takeOver at said
    rw [List.foldlM_cons] at said
    obtain ⟨next, hnext, said⟩ := Traverse.bind_eq_ok_iff.1 said
    obtain ⟨name, known, fits, rfl⟩ := first
    have one : Reads (decodeAttribute ctx header .all marks) (Attribute.chunk name a) next := by
      refine (serves.reads_name known).bind ((Reads.word _).bind ?_)
      refine (Reads.take_of_length (Attribute.reads_length fits).symm).bind_pure ?_
      cases named : CodeTable.ofName? a.name with
      | none =>
        rw [named] at hnext
        cases hnext
        exact Reads.pure _
      | some table =>
        simp only [named] at hnext ⊢
        have read : table.isRead .all = true := by cases table <;> rfl
        rw [if_pos read]
        exact Reads.ofExcept hnext
    exact one.cons_iterate (ih said)

/-- The ranges and what the attributes behind them say. -/
def tables (ctx : BytecodeContext) (header : MethodHeader) (code : List (Nat × Instruction)) :
    Decoder (List ExceptionRange × Marks) := do
  let ranges ← table (decodeRange ctx)
  let count ← word (α := UInt16)
  let marks ← iterate (decodeAttribute ctx header .all) count.toNat
    (Marks.start (mentions code ranges).reverse)
  return (ranges, marks)

/-- The exception ranges that are written, with their labels resolved. -/
def writtenRanges (labels : LabelTable) (ranges : List ExceptionRange) : List ExceptionRange :=
  (ranges.map (·.mapLabels labels.resolve)).filter covers

/-- What the tables of a body say once they are read back. -/
def writtenMarks (labels : LabelTable) (major : UInt16) (code : Code) (frames : List (Nat × Frame))
    (entry : Frame) (mentioned : List Nat) : Marks :=
  let lines := (resolvedLines labels code.instructions.toList).foldl addLine
    (Marks.start mentioned)
  let vs := code.localVariables.map (·.mapLabels labels.resolve)
  let localVariables := (signaturesOf vs).foldl addSignature (vs.foldl addVariable lines)
  addFrames localVariables
    ((writtenFrames labels major frames).foldl addFrame (StackMap.start entry))

/-- The bytes are those that a body is written to on the way to some tables. -/
def WrittenBefore (major : UInt16) (code : Code) (bytes : Bytes) (t : ConstantTables) : Prop :=
  ∃ s s', s.WellFormed ∧ code.encode major s = .ok bytes s' ∧ s' ≤ t

/-- The parts of a body that was written. -/
structure Written (major : UInt16) (code : Code) (bytes : Bytes) (t : ConstantTables)
    (items : List Item) (layout : Layout) (body behind : Bytes) : Prop where
  before : code.WrittenBefore major bytes t
  each : List.Forall₂ (Instruction.IsItem t) code.instructions.toList items
  settled : Layout.settle items = .ok layout
  emitted : layout.code = .ok body
  whole : bytes = Word.encode code.maxStack ++ (Word.encode code.maxLocals
    ++ (Word.encode (UInt32.ofNat body.length) ++ (body ++ behind)))
  forwards : ∀ v ∈ code.localVariables,
    (layout.labels.resolve v.start).index ≤ (layout.labels.resolve v.finish).index
  reads : ∀ (ctx : BytecodeContext) (header : MethodHeader) (entry : Frame),
    ctx.Serves t layout.labels →
    (writtenFrames layout.labels major (Assembly.framesOf layout) ≠ [] →
      header.entryFrame = .ok entry) →
    ((Assembly.framesOf layout).Pairwise fun a b => a.1 < b.1) →
    (∀ frame ∈ Assembly.framesOf layout, frame.1 < ctx.length) →
    ∀ insns, Reads (tables ctx header insns) behind
      (writtenRanges layout.labels code.handlers,
        writtenMarks layout.labels major code (Assembly.framesOf layout) entry
          (mentions insns (writtenRanges layout.labels code.handlers)).reverse)

/-- Reading lines and variables gives no frames. -/
theorem frames_foldl {β : Type} (next : Marks → β → Marks)
    (keeps : ∀ marks row, (next marks row).frames = marks.frames) (rows : List β) (marks : Marks) :
    (rows.foldl next marks).frames = marks.frames := by
  induction rows generalizing marks with
  | nil => rfl
  | cons row rows ih => rw [List.foldl_cons, ih, keeps]

theorem yields_parts (major : UInt16) (code : Code) :
    Yields (code.encode major) fun bytes t => code.WrittenBefore major bytes t →
      ∃ items layout body behind, Written major code bytes t items layout body behind := by
  refine (Yields.mapM fun insn _ => Instruction.yields_toItem insn).bind fun items => ?_
  refine (Yields.ofExcept _).bind fun assembly => ?_
  refine (yields_encodeRanges _ _).bind fun ranges => ?_
  refine (yields_encodeLines _ _).bind fun lines => ?_
  refine (yields_encodeVariables _ _).bind fun localVariables => ?_
  refine (yields_encodeFrames _ _ _).bind fun frames => ?_
  refine (Attribute.yields_encodeAll _).bind fun attributes => Yields.pure ?_
  rintro t ⟨few, chunks, rfl, eachChunk⟩ readFrames ⟨forwards, readVariables⟩ readLines readRanges
    assembled each before
  obtain ⟨layout, settled, assembled⟩ := Traverse.bind_eq_ok_iff.1 assembled
  obtain ⟨body, emitted, assembled⟩ := Traverse.bind_eq_ok_iff.1 assembled
  cases assembled
  refine ⟨items, layout, body,
    ranges ++ (Bytes.ofNat 2 (lines ++ localVariables ++ frames).length ++ chunks.flatten),
    before, each, settled, emitted, ?_, forwards, ?_⟩
  · simp only [List.append_assoc]
  · intro ctx header entry serves typed ascending inside insns
    refine (readRanges ctx serves).bind ?_
    have count : Reads Decoder.word (Bytes.ofNat 2 (lines ++ localVariables ++ frames).length)
        (UInt16.ofNat (lines ++ localVariables ++ frames).length) :=
      Reads.word_ofNat rfl (UInt16.toNat_ofNat_of_lt' few)
    refine count.bind ?_
    rw [UInt16.toNat_ofNat_of_lt' few]
    refine (reads_attributes serves eachChunk ?_).bind_pure (Reads.pure _)
    refine takeOver_append (takeOver_append (readLines ctx header serves _)
      (readVariables ctx header serves _)) ?_
    refine readFrames ctx header entry serves typed ascending inside _ ?_
    rw [frames_foldl addSignature fun _ _ => rfl, frames_foldl addVariable fun _ _ => rfl,
      frames_foldl addLine fun _ _ => rfl]
    rfl

/-- **Every body that is written has these parts.** -/
theorem yields_encode (major : UInt16) (code : Code) :
    Yields (code.encode major) fun bytes t =>
      ∃ items layout body behind, Written major code bytes t items layout body behind := by
  intro s bytes s' wf written
  obtain ⟨wf', grown, parts⟩ := yields_parts major code s bytes s' wf written
  exact ⟨wf', grown, fun later above => parts later above ⟨s, s', wf, written, above⟩⟩

end Code

end ClassInstrument
