import ClassInstrument.Proofs.Code.Attribute
import ClassInstrument.Proofs.Code.Signatures

/-!
# What the tables of a body say together

The tables behind the code are read one after the other, and each adds to the marks.  Here is what
the marks are in the end: offsets in the order in which they were mentioned, lines and frames with
their offsets, and variables with their signatures.

* `Code.mentionedOffsets` — every offset that a written body mentions;
* `Code.gathered_eq` — what the marks are in the end;
* `Marks.getD_linesByOffset` — the lines of an offset;
* `Code.variablesWithSignatures_gathered` — the variables, as their two tables give them;
* `Code.variablesWithSignatures_of_signedFirst` — **every variable has its own signature**, if of
  those that share scope and slot only the first one has any.
-/

namespace ClassInstrument.Code

/-! ### Rows of tables -/

theorem foldl_addLine (rows : List (UInt16 × Label)) (m : Marks) :
    rows.foldl addLine m =
      { m with
        mentioned := (rows.map fun row => row.2.index).reverse ++ m.mentioned
        lines := (rows.map fun row => (row.2.index, row.1)).reverse ++ m.lines } := by
  induction rows generalizing m with
  | nil => rfl
  | cons row rows ih =>
    rw [List.foldl_cons, ih, addLine]
    simp

theorem foldl_addVariable (vs : List LocalVariable) (m : Marks) :
    vs.foldl addVariable m =
      { m with
        mentioned := (vs.flatMap fun v => [v.start.index, v.finish.index]).reverse ++ m.mentioned
        localVariables := (vs.map fun v => (scopeKey v, { v with signature := none })).reverse
          ++ m.localVariables } := by
  induction vs generalizing m with
  | nil => rfl
  | cons v vs ih =>
    rw [List.foldl_cons, ih, addVariable]
    simp

theorem foldl_addSignature (rows : List (VariableKey × String)) (m : Marks) :
    rows.foldl addSignature m =
      { m with signatures := rows.foldl (fun map row => map.insert row.1 row.2) m.signatures } := by
  induction rows generalizing m with
  | nil => rfl
  | cons row rows ih =>
    rw [List.foldl_cons, ih, addSignature]
    rfl

theorem frames_foldl_addFrame (frames : List (Nat × Frame)) (m : StackMap) :
    (frames.foldl addFrame m).frames = frames.reverse ++ m.frames := by
  induction frames generalizing m with
  | nil => rfl
  | cons entry frames ih =>
    rw [List.foldl_cons, ih, addFrame]
    simp

theorem mentioned_foldl_addFrame (frames : List (Nat × Frame)) (m : StackMap) :
    (frames.foldl addFrame m).mentioned
      = (frames.flatMap fun entry => entry.2.sites.map Label.index ++ [entry.1]).reverse
        ++ m.mentioned := by
  induction frames generalizing m with
  | nil => rfl
  | cons entry frames ih =>
    rw [List.foldl_cons, ih, addFrame]
    simp

/-! ### All tables -/

section Written

variable (labels : LabelTable) (major : UInt16) (code : Code) (frames : List (Nat × Frame))
  (entry : Frame) (insns : List (Nat × Instruction))

/-- The variables with their labels resolved. -/
def resolvedVariables : List LocalVariable :=
  code.localVariables.map (·.mapLabels labels.resolve)

/-- Every offset that a written body mentions, in the order of the class file. -/
def mentionedOffsets : List Nat :=
  mentions insns (writtenRanges labels code.handlers)
    ++ (resolvedLines labels code.instructions.toList).map (fun row => row.2.index)
    ++ (resolvedVariables labels code).flatMap (fun v => [v.start.index, v.finish.index])
    ++ (writtenFrames labels major frames).flatMap fun e => e.2.sites.map Label.index ++ [e.1]

/-- What is said about a body by its own code and all its tables. -/
def gathered : Marks :=
  writtenMarks labels major code frames entry
    (mentions insns (writtenRanges labels code.handlers)).reverse

/-- **What the marks are in the end.** -/
theorem gathered_eq : gathered labels major code frames entry insns =
    { mentioned := (mentionedOffsets labels major code frames insns).reverse
      lines := ((resolvedLines labels code.instructions.toList).map
        fun row => (row.2.index, row.1)).reverse
      frames := (writtenFrames labels major frames).reverse
      localVariables := ((resolvedVariables labels code).map
        fun v => (scopeKey v, { v with signature := none })).reverse
      signatures := (signaturesOf (resolvedVariables labels code)).foldl
        (fun map row => map.insert row.1 row.2) ∅ } := by
  simp only [gathered, writtenMarks, addFrames, mentioned_foldl_addFrame, frames_foldl_addFrame,
    foldl_addSignature, foldl_addVariable, foldl_addLine]
  simp [StackMap.start, Marks.start, mentionedOffsets, resolvedVariables]

end Written

end ClassInstrument.Code

namespace ClassInstrument.Marks

open Code

/-! ### Lines -/

theorem getD_foldl_lines (rows : List (Nat × UInt16)) (map : Std.HashMap Nat (List UInt16))
    (o : Nat) :
    (rows.foldl (fun map (offset, line) => map.insert offset (line :: map.getD offset [])) map).getD
        o []
      = ((rows.filter fun row => row.1 == o).map Prod.snd).reverse ++ map.getD o [] := by
  induction rows generalizing map with
  | nil => rfl
  | cons row rows ih =>
    obtain ⟨offset, line⟩ := row
    rw [List.foldl_cons, ih, Std.HashMap.getD_insert]
    by_cases same : offset = o
    · rw [if_pos (by simp [same]), List.filter_cons_of_pos (by simp [same])]
      simp [same]
    · rw [if_neg (by simp [same]), List.filter_cons_of_neg (by simp [same])]

/-- The lines of an offset, in the order of their tables. -/
theorem getD_linesByOffset (m : Marks) (o : Nat) :
    m.linesByOffset.getD o []
      = ((m.lines.filter fun row => row.1 == o).map Prod.snd).reverse := by
  unfold linesByOffset
  rw [getD_foldl_lines, Std.HashMap.getD_empty, List.append_nil]

end ClassInstrument.Marks

namespace ClassInstrument.Code

/-- The variables in the end, as their two tables give them. -/
theorem variablesWithSignatures_gathered (labels : LabelTable) (major : UInt16) (code : Code)
    (frames : List (Nat × Frame)) (entry : Frame) (insns : List (Nat × Instruction)) :
    (gathered labels major code frames entry insns).variablesWithSignatures
      = Marks.rejoined (resolvedVariables labels code) :=
  Marks.variablesWithSignatures_eq (by rw [gathered_eq]) (by rw [gathered_eq])

/-- **Every variable has its own signature**, if of those that share scope and slot only the first
one has any. -/
theorem variablesWithSignatures_of_signedFirst {labels : LabelTable} {code : Code}
    (signed : Marks.SignedFirst (resolvedVariables labels code)) (major : UInt16)
    (frames : List (Nat × Frame)) (entry : Frame) (insns : List (Nat × Instruction)) :
    (gathered labels major code frames entry insns).variablesWithSignatures
      = resolvedVariables labels code :=
  (variablesWithSignatures_gathered ..).trans ((Marks.rejoined_eq_iff _).2 signed)

end ClassInstrument.Code
