import ClassInstrument.Code.Decode
import ClassInstrument.Code.Encode
import ClassInstrument.Proofs.Pool.Constants

/-!
# The tables of a body read back

The tables behind the code refer to offsets.  Whatever the offsets of the labels are, as long as
they lie in the code, the rows that are written for a table are read back with every label
replaced by its offset.

* `LabelTable.resolve` — the offset of a label, as the label that stands for it in a class file;
* `BytecodeContext.Serves` — a context in which what was written for some tables can be read;
* `Code.yields_encodeRanges`, `Code.yields_encodeLines`, `Code.yields_encodeVariables` — **each
  table is read back**, ranges without instructions being left out.
-/

namespace ClassInstrument

open Builder Decoder

/-! ### Labels as offsets -/

/-- The offset of a label, which is the label that stands for it in a class file. -/
def LabelTable.resolve (labels : LabelTable) (l : Label) : Label := ⟨labels.getD l 0⟩

theorem LabelTable.resolve_of_offset {labels : LabelTable} {l : Label} {offset : Nat}
    (h : labels.offset l = .ok offset) : labels.resolve l = ⟨offset⟩ := by
  unfold LabelTable.offset at h
  split at h
  · next known =>
    cases h
    rw [resolve, Std.HashMap.getD_eq_getD_getElem?, known]
    rfl
  · cases h

/-- A context with the constants of some tables, whose code all labels lie in. -/
structure BytecodeContext.Serves (ctx : BytecodeContext) (t : ConstantTables)
    (labels : LabelTable) : Prop where
  pool : ctx.pool = t.pool
  bootstrap : ctx.bootstrap = t.bootstrap
  inside : ∀ l, (labels.resolve l).index ≤ ctx.length
  short : ctx.length ≤ 65535

namespace BytecodeContext

variable {ctx : BytecodeContext} {t : ConstantTables} {labels : LabelTable}

theorem target_of_le {offset : Nat} (inside : offset ≤ ctx.length) :
    ctx.target offset = .ok ⟨offset⟩ := by
  unfold target
  rw [if_pos ⟨Int.natCast_nonneg _, Int.ofNat_le.2 inside⟩, Int.toNat_natCast]

theorem Serves.target (h : ctx.Serves t labels) (l : Label) :
    ctx.target (labels.resolve l).index = .ok (labels.resolve l) :=
  target_of_le (h.inside l)

/-- The offset of a label fits two bytes. -/
theorem Serves.toNat (h : ctx.Serves t labels) (l : Label) :
    (UInt16.ofNat (labels.resolve l).index).toNat = (labels.resolve l).index := by
  have inside := h.inside l
  have short := h.short
  exact UInt16.toNat_ofNat_of_lt' (by show _ < 65536; omega)

theorem Serves.reads_offset (h : ctx.Serves t labels) (l : Label) :
    Reads (word (α := UInt16)) (Code.offsetBytes (labels.resolve l).index)
      (UInt16.ofNat (labels.resolve l).index) :=
  Reads.word_ofNat rfl (h.toNat l)

/-- The offset of a label is read as the label. -/
theorem Serves.reads_targetAt (h : ctx.Serves t labels) (l : Label) :
    Reads ctx.targetAt (Code.offsetBytes (labels.resolve l).index) (labels.resolve l) := by
  refine (h.reads_offset l).bind_pure (Reads.ofExcept ?_)
  rw [h.toNat l]
  exact h.target l

theorem Serves.reads_name (h : ctx.Serves t labels) {i : UInt16} {text : String}
    (found : t.pool.utf8 i = .ok text) :
    Reads (Code.decodeName ctx) (Word.encode i) text := by
  rw [← h.pool] at found
  exact (Reads.word i).bind_pure (Reads.ofExcept found)

end BytecodeContext

namespace Code

open BytecodeContext

/-! ### Exception ranges -/

/-- A range that is written covers some byte of the code. -/
def covers (r : ExceptionRange) : Bool := r.start.index < r.finish.index

/-- A row for a range that has instructions, none for one that has not. -/
theorem yields_encodeRange (labels : LabelTable) (r : ExceptionRange) :
    Yields (encodeRange labels r) fun row t =>
      (covers (r.mapLabels labels.resolve) = false ∧ row = none)
        ∨ (covers (r.mapLabels labels.resolve) = true ∧ ∃ bytes, row = some bytes
          ∧ ∀ ctx : BytecodeContext, ctx.Serves t labels →
            Reads (decodeRange ctx) bytes (r.mapLabels labels.resolve)) := by
  refine (Yields.ofExcept _).bind fun start => (Yields.ofExcept _).bind fun finish => ?_
  refine Yields.ite (fun none => ?_) fun some => ?_
  · refine Yields.pure fun t hf hs => .inl ⟨?_, rfl⟩
    simp only [covers, ExceptionRange.mapLabels, LabelTable.resolve_of_offset hs,
      LabelTable.resolve_of_offset hf, decide_eq_false_iff_not]
    omega
  · refine (Yields.ofExcept _).bind fun handler => ?_
    refine (yields_addOptionalClass r.catchType).bind fun catchType => ?_
    refine Yields.pure fun t known hh hf hs => .inr ⟨?_, _, rfl, fun ctx serves => ?_⟩
    · simp only [covers, ExceptionRange.mapLabels, LabelTable.resolve_of_offset hs,
        LabelTable.resolve_of_offset hf, decide_eq_true_eq]
      omega
    · have first := serves.reads_targetAt r.start
      have second := serves.reads_targetAt r.finish
      have third := serves.reads_targetAt r.handler
      rw [LabelTable.resolve_of_offset hs] at first
      rw [LabelTable.resolve_of_offset hf] at second
      rw [LabelTable.resolve_of_offset hh] at third
      rw [← serves.pool] at known
      simp only [List.append_assoc, ExceptionRange.mapLabels, LabelTable.resolve_of_offset hs,
        LabelTable.resolve_of_offset hf, LabelTable.resolve_of_offset hh]
      refine first.bind (second.bind (third.bind ((Reads.word catchType).bind_pure ?_)))
      exact (Reads.ofExcept known).bind_pure (Reads.pure _)

/-- **The exception ranges are read back**, those without instructions being left out. -/
theorem yields_encodeRanges (labels : LabelTable) (ranges : List ExceptionRange) :
    Yields (encodeRanges labels ranges) fun bytes t => ∀ ctx : BytecodeContext,
      ctx.Serves t labels → Reads (table (decodeRange ctx)) bytes
        ((ranges.map (·.mapLabels labels.resolve)).filter covers) := by
  refine (Yields.mapM fun r _ => yields_encodeRange labels r).bind fun rows => ?_
  refine (Yields.count _ _).bind fun count => Yields.pure ?_
  rintro t ⟨fits, rfl⟩ each ctx serves
  have kept : List.Forall₂ (fun bytes value => Reads (decodeRange ctx) bytes value)
      (rows.filterMap id) ((ranges.map (·.mapLabels labels.resolve)).filter covers) := by
    clear fits
    induction each with
    | nil => exact .nil
    | cons first _ ih =>
      rcases first with ⟨absent, rfl⟩ | ⟨present, bytes, rfl, reads⟩
      · rw [List.map_cons, List.filter_cons_of_neg (by simp [absent])]
        exact ih
      · rw [List.map_cons, List.filter_cons_of_pos present]
        exact .cons (reads ctx serves) ih
  rw [kept.length_eq] at fits ⊢
  exact Reads.table kept fits

/-! ### What the attributes behind the code say -/

/-- Take over what attributes behind the code say, one after the other. -/
def takeOver (ctx : BytecodeContext) (header : MethodHeader) (attributes : List Attribute)
    (marks : Marks) : Except Failure Marks :=
  attributes.foldlM (fun marks a =>
    match CodeTable.ofName? a.name with
    | some table => decodeTable ctx header marks a.body table
    | none => .ok marks) marks

theorem takeOver_append {ctx : BytecodeContext} {header : MethodHeader}
    {front behind : List Attribute} {marks first second : Marks}
    (hf : takeOver ctx header front marks = .ok first)
    (hs : takeOver ctx header behind first = .ok second) :
    takeOver ctx header (front ++ behind) marks = .ok second := by
  unfold takeOver at *
  rw [List.foldlM_append, hf]
  exact hs

/-- The rows of a table change the marks one after the other. -/
theorem decodeRows_eq {row : Marks → Decoder Marks} {β : Type} {next : Marks → β → Marks}
    {chunks : List Bytes} {items : List β} (fits : items.length < 65536)
    (each : List.Forall₂ (fun bytes item => ∀ marks, Reads (row marks) bytes (next marks item))
      chunks items) (marks : Marks) :
    (decodeRows row marks).onBytes (Bytes.ofNat 2 items.length ++ chunks.flatten)
      = .ok (items.foldl next marks) := by
  have count : Reads Decoder.word (Bytes.ofNat 2 items.length) (UInt16.ofNat items.length) :=
    Reads.word_ofNat rfl (UInt16.toNat_ofNat_of_lt' fits)
  refine Reads.onBytes (count.bind ?_)
  rw [UInt16.toNat_ofNat_of_lt' fits]
  exact Reads.iterate each marks

/-! ### Source lines -/

/-- What a row of the table of source lines says, its label being an offset. -/
def addLine (marks : Marks) (row : UInt16 × Label) : Marks :=
  { marks with
    mentioned := row.2.index :: marks.mentioned
    lines := (row.2.index, row.1) :: marks.lines }

/-- The line marks of a body with offsets as labels. -/
def resolvedLines (labels : LabelTable) (instructions : List Instruction) :
    List (UInt16 × Label) :=
  (lines instructions).map fun (number, start) => (number, labels.resolve start)

/-- The rows are those of the resolved lines. -/
theorem lineRows {labels : LabelTable} {instructions : List Instruction} {rows : List Bytes}
    (h : (lines instructions).mapM (fun (number, start) =>
      (labels.offset start).map fun offset => offsetBytes offset ++ Word.encode number)
        = .ok rows) {ctx : BytecodeContext} {t : ConstantTables} (serves : ctx.Serves t labels) :
    List.Forall₂ (fun bytes row => ∀ marks, Reads (decodeLine ctx marks) bytes (addLine marks row))
      rows (resolvedLines labels instructions) := by
  rw [Traverse.mapM_eq_ok_iff] at h
  unfold resolvedLines
  generalize lines instructions = marked at h ⊢
  induction h with
  | nil => exact .nil
  | @cons line bytes _ _ first _ ih =>
    obtain ⟨number, start⟩ := line
    obtain ⟨offset, known, rfl⟩ := Traverse.map_eq_ok_iff.1 first
    refine .cons (fun marks => ?_) ih
    have place := serves.reads_offset start
    rw [LabelTable.resolve_of_offset known] at place
    refine place.bind ((Reads.word number).bind_pure ?_)
    have target := serves.target start
    rw [← serves.toNat start, LabelTable.resolve_of_offset known] at target
    simp only [LabelTable.resolve_of_offset known]
    exact (Reads.ofExcept target).bind_pure (Reads.pure _)

/-- **The table of source lines is read back.** -/
theorem yields_encodeLines (labels : LabelTable) (instructions : List Instruction) :
    Yields (encodeLines labels instructions) fun attributes t =>
      ∀ (ctx : BytecodeContext) (header : MethodHeader), ctx.Serves t labels → ∀ marks,
        takeOver ctx header attributes marks
          = .ok ((resolvedLines labels instructions).foldl addLine marks) := by
  refine (Yields.ofExcept _).bind fun rows => ?_
  refine Yields.ite (fun none => ?_) fun some => ?_
  · refine Yields.pure fun t known ctx header serves marks => ?_
    have each := lineRows known serves
    rw [List.isEmpty_iff.1 none, List.forall₂_nil_left_iff] at each
    rw [each]
    rfl
  · refine (Yields.count _ _).bind fun count => Yields.pure ?_
    rintro t ⟨fits, rfl⟩ known ctx header serves marks
    have each := lineRows known serves
    rw [each.length_eq] at fits ⊢
    have whole := decodeRows_eq fits each marks
    simp only [takeOver, List.foldlM_cons, List.foldlM_nil]
    show (decodeTable ctx header marks _ .lines >>= pure) = _
    rw [decodeTable, whole]
    rfl

/-! ### Local variables -/

/-- The scope of a variable, its labels being offsets, and its slot. -/
def scopeKey (v : LocalVariable) : VariableKey :=
  (UInt16.ofNat v.start.index, UInt16.ofNat (v.finish.index - v.start.index), v.index)

/-- What a row of the table of local variables says. -/
def addVariable (marks : Marks) (v : LocalVariable) : Marks :=
  { marks with
    mentioned := v.finish.index :: v.start.index :: marks.mentioned
    localVariables := (scopeKey v, { v with signature := none }) :: marks.localVariables }

/-- What a row of the table of generic signatures says. -/
def addSignature (marks : Marks) (row : VariableKey × String) : Marks :=
  { marks with signatures := marks.signatures.insert row.1 row.2 }

/-- The signatures of some variables, each with its scope and slot. -/
def signaturesOf (vs : List LocalVariable) : List (VariableKey × String) :=
  vs.filterMap fun v => v.signature.map fun text => (scopeKey v, text)

/-- The length of a scope fits two bytes. -/
theorem toNat_scope {ctx : BytecodeContext} {t : ConstantTables} {labels : LabelTable}
    (serves : ctx.Serves t labels) (start finish : Label) :
    (UInt16.ofNat ((labels.resolve finish).index - (labels.resolve start).index)).toNat
      = (labels.resolve finish).index - (labels.resolve start).index := by
  have inside := serves.inside finish
  have short := serves.short
  exact UInt16.toNat_ofNat_of_lt' (by show _ < 65536; omega)

theorem reads_decodeVariable {ctx : BytecodeContext} {t : ConstantTables} {labels : LabelTable}
    (serves : ctx.Serves t labels) {v : LocalVariable} {name desc : UInt16}
    (named : t.pool.utf8 name = .ok v.name) (typed : t.pool.utf8 desc = .ok v.desc)
    (forwards : (labels.resolve v.start).index ≤ (labels.resolve v.finish).index)
    (marks : Marks) :
    Reads (decodeVariable ctx marks)
      (offsetBytes (labels.resolve v.start).index
        ++ (offsetBytes ((labels.resolve v.finish).index - (labels.resolve v.start).index)
          ++ (Word.encode name ++ (Word.encode desc ++ Word.encode v.index))))
      (addVariable marks (v.mapLabels labels.resolve)) := by
  have length := toNat_scope serves v.start v.finish
  refine (serves.reads_offset v.start).bind ((Reads.word_ofNat rfl length).bind ?_)
  refine (serves.reads_name named).bind ((serves.reads_name typed).bind ?_)
  refine (Reads.word v.index).bind_pure ?_
  rw [serves.toNat, length, Nat.add_sub_cancel' forwards]
  refine (Reads.ofExcept (serves.target v.start)).bind ?_
  exact (Reads.ofExcept (serves.target v.finish)).bind_pure (Reads.pure _)

theorem reads_decodeSignature {ctx : BytecodeContext} {t : ConstantTables} {labels : LabelTable}
    (serves : ctx.Serves t labels) {v : LocalVariable} {n signature : UInt16} {text : String}
    (known : t.pool.utf8 signature = .ok text) (marks : Marks) :
    Reads (decodeSignature ctx marks)
      (offsetBytes (labels.resolve v.start).index
        ++ (offsetBytes ((labels.resolve v.finish).index - (labels.resolve v.start).index)
          ++ (Word.encode n ++ (Word.encode signature ++ Word.encode v.index))))
      (addSignature marks (scopeKey (v.mapLabels labels.resolve), text)) := by
  have length := toNat_scope serves v.start v.finish
  refine (serves.reads_offset v.start).bind ((Reads.word_ofNat rfl length).bind ?_)
  refine (Reads.skip (Word.length_encode n)).bind ((serves.reads_name known).bind ?_)
  exact (Reads.word v.index).bind_pure (Reads.pure _)

/-- The two rows of a variable are read back. -/
def VariableRows (labels : LabelTable) (v : LocalVariable) (rows : Bytes × Option Bytes)
    (t : ConstantTables) : Prop :=
  (labels.resolve v.start).index ≤ (labels.resolve v.finish).index
    ∧ ∀ ctx : BytecodeContext, ctx.Serves t labels →
      (∀ marks, Reads (decodeVariable ctx marks) rows.1
        (addVariable marks (v.mapLabels labels.resolve)))
      ∧ (v.signature = none ∧ rows.2 = none ∨ ∃ text bytes, v.signature = some text
        ∧ rows.2 = some bytes ∧ ∀ marks, Reads (decodeSignature ctx marks) bytes
          (addSignature marks (scopeKey (v.mapLabels labels.resolve), text)))

theorem yields_encodeVariable (labels : LabelTable) (v : LocalVariable) :
    Yields (encodeVariable labels v) (VariableRows labels v) := by
  refine (Yields.ofExcept _).bind fun start => (Yields.ofExcept _).bind fun finish => ?_
  refine Yields.ite (fun _ => Yields.throw _) fun forwards => ?_
  refine (yields_addUtf8 v.name).bind fun name => (yields_addUtf8 v.desc).bind fun desc => ?_
  cases plain : v.signature with
  | none =>
    refine Yields.pure fun t typed named hf hs => ?_
    have order : (labels.resolve v.start).index ≤ (labels.resolve v.finish).index := by
      rw [LabelTable.resolve_of_offset hs, LabelTable.resolve_of_offset hf]
      exact Nat.not_lt.1 forwards
    refine ⟨order, fun ctx serves => ⟨fun marks => ?_, .inl ⟨plain, rfl⟩⟩⟩
    have row := reads_decodeVariable serves named typed order marks
    rw [LabelTable.resolve_of_offset hs, LabelTable.resolve_of_offset hf] at row
    simpa only [List.append_assoc] using row
  | some text =>
    refine (yields_addUtf8 text).bind fun signature => ?_
    refine Yields.pure fun t known typed named hf hs => ?_
    have order : (labels.resolve v.start).index ≤ (labels.resolve v.finish).index := by
      rw [LabelTable.resolve_of_offset hs, LabelTable.resolve_of_offset hf]
      exact Nat.not_lt.1 forwards
    refine ⟨order, fun ctx serves =>
      ⟨fun marks => ?_, .inr ⟨text, _, plain, rfl, fun marks => ?_⟩⟩⟩
    · have row := reads_decodeVariable serves named typed order marks
      rw [LabelTable.resolve_of_offset hs, LabelTable.resolve_of_offset hf] at row
      simpa only [List.append_assoc] using row
    · have row := reads_decodeSignature serves (v := v) (n := name) known marks
      rw [LabelTable.resolve_of_offset hs, LabelTable.resolve_of_offset hf] at row
      simpa only [List.append_assoc] using row

/-- The rows of the second table are those of the generic variables. -/
theorem genericRows {labels : LabelTable} {vs : List LocalVariable}
    {rows : List (Bytes × Option Bytes)} {ctx : BytecodeContext} {t : ConstantTables}
    (each : List.Forall₂ (fun v row => VariableRows labels v row t) vs rows)
    (serves : ctx.Serves t labels) :
    List.Forall₂ (fun bytes row => ∀ marks, Reads (decodeSignature ctx marks) bytes
      (addSignature marks row))
      (rows.filterMap (·.2)) (signaturesOf (vs.map (·.mapLabels labels.resolve))) := by
  induction each with
  | nil => exact .nil
  | @cons v row _ _ first _ ih =>
    obtain ⟨-, both⟩ := first
    rcases (both ctx serves).2 with ⟨plain, absent⟩ | ⟨text, bytes, generic, present, reads⟩
    · rw [List.filterMap_cons_none absent, List.map_cons, signaturesOf,
        List.filterMap_cons_none (by rw [LocalVariable.mapLabels, plain]; rfl)]
      exact ih
    · rw [List.filterMap_cons_some present, List.map_cons, signaturesOf,
        List.filterMap_cons_some (by rw [LocalVariable.mapLabels, generic]; rfl)]
      exact .cons reads ih

/-- **The tables of local variables are read back**, signatures included. -/
theorem yields_encodeVariables (labels : LabelTable) (vs : List LocalVariable) :
    Yields (encodeVariables labels vs) fun attributes t =>
      (∀ v ∈ vs, (labels.resolve v.start).index ≤ (labels.resolve v.finish).index)
      ∧ ∀ (ctx : BytecodeContext) (header : MethodHeader), ctx.Serves t labels → ∀ marks,
        takeOver ctx header attributes marks
          = .ok ((signaturesOf (vs.map (·.mapLabels labels.resolve))).foldl addSignature
            ((vs.map (·.mapLabels labels.resolve)).foldl addVariable marks)) := by
  refine Yields.ite (fun none => ?_) fun some => ?_
  · rw [List.isEmpty_iff.1 none]
    exact Yields.pure fun t => ⟨by simp, fun _ _ _ _ => rfl⟩
  refine (Yields.count _ _).bind fun count => ?_
  refine (Yields.mapM fun v _ => yields_encodeVariable labels v).bind fun rows => ?_
  have order : ∀ t, List.Forall₂ (fun v row => VariableRows labels v row t) vs rows →
      ∀ v ∈ vs, (labels.resolve v.start).index ≤ (labels.resolve v.finish).index := by
    intro t each
    exact ((List.forall₂_and_left _ _).1 each).1
  have table : ∀ t, vs.length < 65536 →
      List.Forall₂ (fun v row => VariableRows labels v row t) vs rows →
      ∀ (ctx : BytecodeContext) (header : MethodHeader), ctx.Serves t labels → ∀ marks,
        decodeTable ctx header marks
          (Bytes.ofNat 2 vs.length ++ (rows.map (·.1)).flatten) .localVariables
          = .ok ((vs.map (·.mapLabels labels.resolve)).foldl addVariable marks) := by
    intro t fits each ctx header serves marks
    have plain : List.Forall₂ (fun bytes v => ∀ marks, Reads (decodeVariable ctx marks) bytes
        (addVariable marks v)) (rows.map (·.1)) (vs.map (·.mapLabels labels.resolve)) := by
      rw [List.forall₂_map_left_iff, List.forall₂_map_right_iff]
      exact (each.imp fun v row both => (both.2 ctx serves).1).flip
    rw [← List.length_map (f := (·.mapLabels labels.resolve))] at fits ⊢
    exact decodeRows_eq fits plain marks
  refine Yields.ite (fun none => ?_) fun some => ?_
  · refine Yields.pure ?_
    rintro t each ⟨fits, rfl⟩
    refine ⟨order t each, fun ctx header serves marks => ?_⟩
    have generic := genericRows each serves
    rw [List.isEmpty_iff.1 none, List.forall₂_nil_left_iff] at generic
    simp only [takeOver, List.foldlM_cons, List.foldlM_nil, generic, List.foldl_nil]
    show (decodeTable ctx header marks _ .localVariables >>= pure) = _
    rw [table t fits each ctx header serves marks]
    rfl
  · refine (Yields.count _ _).bind fun types => Yields.pure ?_
    rintro t ⟨few, rfl⟩ each ⟨fits, rfl⟩
    refine ⟨order t each, fun ctx header serves marks => ?_⟩
    have generic := genericRows each serves
    rw [generic.length_eq] at few ⊢
    simp only [takeOver, List.foldlM_cons, List.foldlM_nil]
    show (decodeTable ctx header marks _ .localVariables >>= fun marks =>
      decodeTable ctx header marks _ .variableTypes >>= pure) = _
    rw [table t fits each ctx header serves marks]
    show (decodeTable ctx header _ _ .variableTypes >>= pure) = _
    rw [decodeTable, decodeRows_eq few generic]
    rfl

end Code

end ClassInstrument
