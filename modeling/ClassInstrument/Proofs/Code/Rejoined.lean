import ClassInstrument.Proofs.Bytes.Gives
import ClassInstrument.Proofs.Code.RoundTrip
import ClassInstrument.Proofs.ClassFile.Attributes

/-!
# Variables read back

The two tables of local variables are written from one list and matched again by scope and slot.
Scopes are offsets by then, so those of different labels can be the same.

* `Code.Written.exists_gathered` — what is read of the tables behind the code, whatever the method;
* `Code.Written.exists_variables` — the variables of a body that is read again;
* `Code.signatures_rejoined` — **which signatures stay with their variables**.
-/

namespace ClassInstrument.Code

open Builder Decoder BytecodeContext

/-! ### Tables -/

/-- Only frames depend on the method that a body belongs to: where its entry frame is not known, no
table has any, and the same is read for every other method. -/
theorem follows_tables {header : MethodHeader} {e : Failure} (unknown : header.entryFrame = .error e)
    (ctx : BytecodeContext) (header' : MethodHeader) (insns : List (Nat × Instruction)) :
    Follows (tables ctx header insns) (tables ctx header' insns) id := by
  have table : ∀ marks body known, Traverse.Persists (decodeTable ctx header marks body known)
      (decodeTable ctx header' marks body known) := by
    intro marks body known found read
    cases known with
    | frames =>
      obtain ⟨entry, typed, -⟩ := Traverse.bind_eq_ok_iff.1 read
      rw [unknown] at typed
      cases typed
    | _ => exact read
  refine (Follows.refl _).bind fun ranges => (Follows.refl _).bind fun count => ?_
  refine (Follows.iterate (fun marks => ?_) _ _).bind fun marks => .pure _ id
  refine (Follows.refl _).bind fun name => (Follows.refl _).bind fun length =>
    (Follows.refl _).bind fun body => ?_
  simp only [id_eq]
  cases CodeTable.ofName? name with
  | none => exact .pure _ id
  | some known => exact .ite (.ofExcept (table marks body known)) (.pure _ id)

section Bodies

variable {major : UInt16} {code code' : Code} {bytes : Bytes} {t : ConstantTables}
  {items : List Item} {layout : Layout} {body behind : Bytes} {header : MethodHeader}
  (written : Written major code bytes t items layout body behind)

include written in
/-- Whatever is read of the tables behind the code is what they were written for. -/
theorem Written.exists_gathered {insns : List (Nat × Instruction)} {position : Nat} {c : Cursor}
    {read : List ExceptionRange × Marks}
    (run : tables (contextOf t body.length) header insns ⟨position, behind⟩ = .ok (read, c)) :
    ∃ entry, read.2 = gathered layout.labels major code (Assembly.framesOf layout) entry insns := by
  obtain ⟨header', typed, run'⟩ : ∃ header' : MethodHeader,
      (∃ entry, header'.entryFrame = .ok entry) ∧
        tables (contextOf t body.length) header' insns ⟨position, behind⟩ = .ok (read, c) := by
    cases known : header.entryFrame with
    | ok entry => exact ⟨header, ⟨entry, known⟩, run⟩
    | error e => exact ⟨⟨"A", 0x0009, "m", "()V"⟩, ⟨_, rfl⟩, follows_tables known _ _ _ _ _ _ run⟩
  obtain ⟨entry, reads⟩ := written.exists_reads_tables fun _ _ => typed
  have whole := reads insns position []
  rw [List.append_nil, run'] at whole
  cases whole
  exact ⟨entry, rfl⟩

include written in
/-- **The variables of a body that is read again** are those that its tables give, with one label for
every offset. -/
theorem Written.exists_variables (read : decode t.pool t.bootstrap header .all bytes = .ok code') :
    ∃ numbering : Numbering, numbering.Distinct ∧
      (∀ v ∈ resolvedVariables layout.labels code,
        v.start.index ∈ numbering ∧ v.finish.index ∈ numbering) ∧
      code'.localVariables =
        (Marks.rejoined (resolvedVariables layout.labels code)).map
          (·.mapLabels numbering.label) := by
  have some : ops code.instructions.toList ≠ [] := fun none => by
    obtain ⟨e, refused⟩ := written.refuses_empty header none
    rw [read] at refused
    cases refused
  obtain ⟨position, whole⟩ := written.decode_eq header some
  rw [read] at whole
  obtain ⟨⟨found, cursor⟩, run, rfl⟩ := Traverse.map_eq_ok_iff.1 whole.symm
  obtain ⟨insns, c₁, there, run⟩ := Decoder.bind_eq_ok_iff.1 run
  obtain ⟨-, rfl⟩ := Decoder.ofExcept_eq_ok_iff.1 there
  obtain ⟨⟨ranges, marks⟩, c₂, tables', run⟩ := Decoder.bind_eq_ok_iff.1 run
  obtain ⟨entry, same⟩ : ∃ entry, marks =
      gathered layout.labels major code (Assembly.framesOf layout) entry insns :=
    written.exists_gathered tables'
  obtain ⟨put, -⟩ := Decoder.ofExcept_eq_ok_iff.1 run
  unfold assemble at put
  split at put
  · cases put
  · cases put
    refine ⟨.ofMentions marks.mentioned.reverse, Numbering.distinct_ofMentions _,
      fun v member => ?_, ?_⟩
    · have mentioned : ∀ o ∈ [v.start.index, v.finish.index], o ∈ marks.mentioned.reverse :=
        fun o inside => by
          rw [same, gathered_eq, List.reverse_reverse]
          exact List.mem_append_left _
            (List.mem_append_right _ (List.mem_flatMap.2 ⟨v, member, inside⟩))
      exact ⟨Numbering.mem_ofMentions.2 (mentioned _ (by simp)),
        Numbering.mem_ofMentions.2 (mentioned _ (by simp))⟩
    · have own : marks.variablesWithSignatures
          = Marks.rejoined (resolvedVariables layout.labels code) := by
        rw [same, variablesWithSignatures_gathered]
      exact congrArg (List.map _) own

include written in
/-- All signatures are those of their variables exactly if of the variables that share scope and slot
only the first one has any. -/
theorem Written.signatures_iff (read : decode t.pool t.bootstrap header .all bytes = .ok code') :
    code'.localVariables.map LocalVariable.signature
      = code.localVariables.map LocalVariable.signature ↔
        Marks.SignedFirst (resolvedVariables layout.labels code) := by
  obtain ⟨numbering, -, -, variables'⟩ := written.exists_variables read
  have found : code'.localVariables.map LocalVariable.signature
      = (Marks.rejoined (resolvedVariables layout.labels code)).map LocalVariable.signature := by
    rw [variables', List.map_map]
    rfl
  have own : code.localVariables.map LocalVariable.signature
      = (resolvedVariables layout.labels code).map LocalVariable.signature := by
    rw [resolvedVariables, List.map_map]
    rfl
  rw [found, own, ← Marks.rejoined_eq_iff]
  exact ⟨Marks.rejoined_eq_of_signatures, fun same => by rw [same]⟩

end Bodies

/-- **Which signatures stay with their variables.**  The tables of a body that is written give its
variables in their order, the first one of each scope and slot with the last signature for it and
the others with none.  So each has its own exactly if of the variables that share scope and slot
only the first one has any, and the same goes for a body that is read again. -/
theorem signatures_rejoined {major : UInt16} {code : Code} {bytes : Bytes} {t : ConstantTables}
    (before : code.WrittenBefore major bytes t) :
    ∃ items layout body behind, Written major code bytes t items layout body behind ∧
      (∀ header : MethodHeader, (∀ frame, .frame frame ∈ code.instructions.toList →
          ∃ entry, header.entryFrame = .ok entry) →
        ∀ insns, ∃ marks, Reads (tables (contextOf t body.length) header insns) behind
            (writtenRanges layout.labels code.handlers, marks) ∧
          marks.variablesWithSignatures = Marks.rejoined (resolvedVariables layout.labels code)) ∧
      (Marks.rejoined (resolvedVariables layout.labels code) = resolvedVariables layout.labels code ↔
        Marks.SignedFirst (resolvedVariables layout.labels code)) ∧
      ∀ header code', decode t.pool t.bootstrap header .all bytes = .ok code' →
        (∃ numbering : Numbering, numbering.Distinct ∧
          (∀ v ∈ resolvedVariables layout.labels code,
            v.start.index ∈ numbering ∧ v.finish.index ∈ numbering) ∧
          code'.localVariables =
            (Marks.rejoined (resolvedVariables layout.labels code)).map
              (·.mapLabels numbering.label)) ∧
        (code'.localVariables.map LocalVariable.signature
          = code.localVariables.map LocalVariable.signature ↔
            Marks.SignedFirst (resolvedVariables layout.labels code)) := by
  obtain ⟨s, s', wf, encoded, later⟩ := before
  obtain ⟨-, -, parts⟩ := yields_encode major code s bytes s' wf encoded
  obtain ⟨items, layout, body, behind, written⟩ := parts t later
  refine ⟨items, layout, body, behind, written, fun header typed insns => ?_,
    Marks.rejoined_eq_iff _,
    fun header code' read => ⟨written.exists_variables read, written.signatures_iff read⟩⟩
  obtain ⟨entry, reads⟩ := written.exists_reads_tables typed
  exact ⟨_, reads insns, variablesWithSignatures_gathered ..⟩

/-! ### Two variables with one scope and slot -/

-- Powers of numbers are those of the core library, whatever algebra is imported beside them.
attribute [local instance (high)] instPowNat

/-- Two variables of one type with the same scope and slot.  Only the second one is generic. -/
def crossing : Code where
  maxStack := 0
  maxLocals := 1
  instructions := .ofList [.label ⟨0⟩, .op Opcode.vreturn .none, .label ⟨1⟩] 2
  handlers := []
  localVariables :=
    [⟨"a", "Ljava/util/List;", none, ⟨0⟩, ⟨1⟩, 0⟩,
      ⟨"b", "Ljava/util/List;", some "Ljava/util/List<TT;>;", ⟨0⟩, ⟨1⟩, 0⟩]

/-- Tables with all constants that they need. -/
def crossingTables : ConstantTables where
  pool := .ofEntries [.utf8 "a", .utf8 "Ljava/util/List;", .utf8 "b",
    .utf8 "Ljava/util/List<TT;>;", .utf8 "LocalVariableTable", .utf8 "LocalVariableTypeTable"]
  bootstrap := .empty

theorem wellFormed_crossingTables : crossingTables.WellFormed :=
  ⟨Pool.WellFormed.empty.foldl_push (by decide) (by decide), BootstrapTable.WellFormed.empty⟩

theorem addUtf8_crossing {text : String} {i : Nat}
    (known : crossingTables.pool.slots.toList.idxOf? (.utf8 text) = some i) :
    Builder.addUtf8 text crossingTables = .ok (UInt16.ofNat i) crossingTables :=
  Builder.add_of_known wellFormed_crossingTables (by simp) known

/-- The layout of the body. -/
def crossingLayout : Layout :=
  ⟨[(0, ⟨.label ⟨0⟩, 0, false⟩), (0, ⟨.op Opcode.vreturn .none, 0, false⟩),
    (1, ⟨.label ⟨1⟩, 0, false⟩)], 1⟩

theorem ofItems_crossing :
    Assembly.ofItems [⟨.label ⟨0⟩, 0, false⟩, ⟨.op Opcode.vreturn .none, 0, false⟩,
      ⟨.label ⟨1⟩, 0, false⟩] = .ok ⟨[Opcode.vreturn], crossingLayout.labels, []⟩ := by
  have settled : Layout.settle [⟨.label ⟨0⟩, 0, false⟩, ⟨.op Opcode.vreturn .none, 0, false⟩,
      ⟨.label ⟨1⟩, 0, false⟩] = .ok crossingLayout := by
    rw [Layout.settle]
    rfl
  unfold Assembly.ofItems
  rw [settled]
  rfl

/-- Their rows. -/
def crossingAttributes : List Attribute :=
  [⟨"LocalVariableTable", [0, 2, 0, 0, 0, 1, 0, 1, 0, 2, 0, 0, 0, 0, 0, 1, 0, 3, 0, 2, 0, 0]⟩,
    ⟨"LocalVariableTypeTable", [0, 1, 0, 0, 0, 1, 0, 3, 0, 4, 0, 0]⟩]

theorem encodeVariables_crossing :
    encodeVariables crossingLayout.labels crossing.localVariables crossingTables
      = .ok crossingAttributes crossingTables := by
  have starts : crossingLayout.labels.offset ⟨0⟩ = .ok 0 := by
    simp [crossingLayout, Layout.labels, LabelTable.offset, Std.HashMap.getElem_insert]
  have ends : crossingLayout.labels.offset ⟨1⟩ = .ok 1 := by
    simp [crossingLayout, Layout.labels, LabelTable.offset]
  have desc : Builder.addUtf8 "Ljava/util/List;" crossingTables = .ok 2 crossingTables :=
    addUtf8_crossing (by decide)
  have known : ∀ n : Nat, Builder.ofExcept (.ok n) = pure n := fun _ => rfl
  have first : encodeVariable crossingLayout.labels
      ⟨"a", "Ljava/util/List;", none, ⟨0⟩, ⟨1⟩, 0⟩ crossingTables
        = .ok ([0, 0, 0, 1, 0, 1, 0, 2, 0, 0], none) crossingTables := by
    unfold encodeVariable
    rw [starts, ends, known, known, pure_bind, pure_bind]
    have name : Builder.addUtf8 "a" crossingTables = .ok 1 crossingTables :=
      addUtf8_crossing (by decide)
    exact (Builder.bind_of_ok name).trans ((Builder.bind_of_ok desc).trans rfl)
  have second : encodeVariable crossingLayout.labels
      ⟨"b", "Ljava/util/List;", some "Ljava/util/List<TT;>;", ⟨0⟩, ⟨1⟩, 0⟩ crossingTables
        = .ok ([0, 0, 0, 1, 0, 3, 0, 2, 0, 0], some [0, 0, 0, 1, 0, 3, 0, 4, 0, 0])
          crossingTables := by
    unfold encodeVariable
    rw [starts, ends, known, known, pure_bind, pure_bind]
    have name : Builder.addUtf8 "b" crossingTables = .ok 3 crossingTables :=
      addUtf8_crossing (by decide)
    have signature : Builder.addUtf8 "Ljava/util/List<TT;>;" crossingTables
        = .ok 4 crossingTables := addUtf8_crossing (by decide)
    exact (Builder.bind_of_ok name).trans
      ((Builder.bind_of_ok desc).trans ((Builder.bind_of_ok signature).trans rfl))
  have rows : crossing.localVariables.mapM (encodeVariable crossingLayout.labels) crossingTables
      = .ok [([0, 0, 0, 1, 0, 1, 0, 2, 0, 0], none),
        ([0, 0, 0, 1, 0, 3, 0, 2, 0, 0], some [0, 0, 0, 1, 0, 3, 0, 4, 0, 0])] crossingTables := by
    rw [crossing, List.mapM_cons, List.mapM_cons, List.mapM_nil]
    refine (Builder.bind_of_ok first).trans ((Builder.bind_of_ok ?_).trans rfl)
    exact (Builder.bind_of_ok second).trans rfl
  refine (Builder.bind_of_ok (m := Builder.count "local variables" 2) rfl).trans ?_
  exact (Builder.bind_of_ok rows).trans rfl

theorem encode_crossing :
    ∃ bytes, crossing.encode 52 crossingTables = .ok bytes crossingTables := by
  have named : Builder.addUtf8 "LocalVariableTable" crossingTables = .ok 5 crossingTables :=
    addUtf8_crossing (by decide)
  have generic : Builder.addUtf8 "LocalVariableTypeTable" crossingTables
      = .ok 6 crossingTables := addUtf8_crossing (by decide)
  have attributes := Attribute.encodeAll_of_known (t := crossingTables)
    (fun name => if name = "LocalVariableTable" then 5 else 6)
    (show crossingAttributes.length < 65536 by decide)
    (by simpa only [crossingAttributes, List.forall_mem_cons] using
      ⟨named, generic, List.forall_mem_nil _⟩)
    (by decide)
  apply Exists.intro
  refine (Builder.bind_of_ok (m := [.label ⟨0⟩, .op Opcode.vreturn .none, .label ⟨1⟩].mapM
    Instruction.toItem) rfl).trans ?_
  refine (Builder.bind_of_ok (m := Builder.ofExcept _)
    (congrArg (Builder.ofExcept · crossingTables) ofItems_crossing)).trans ?_
  refine (Builder.bind_of_ok (m := Code.encodeRanges _ []) rfl).trans ?_
  refine (Builder.bind_of_ok (m := Code.encodeLines _ _) rfl).trans ?_
  refine (Builder.bind_of_ok encodeVariables_crossing).trans ?_
  refine (Builder.bind_of_ok (m := Code.encodeFrames _ 52 []) rfl).trans ?_
  exact (Builder.bind_of_ok (m := Attribute.encodeAll _) attributes).trans rfl

/-- The body is legible and in normal form. -/
theorem legible_crossing : crossing.Normal ∧ crossing.Legible := by
  have only : ∀ op operand, .op op operand ∈ crossing.instructions.toList →
      op = Opcode.vreturn ∧ operand = .none := by
    intro op operand member
    simpa [crossing] using member
  refine ⟨⟨fun op general v short member => ?_, fun op operand member => ?_⟩,
    by simp [crossing, ops, Instruction.isPseudo], ?_⟩
  · obtain ⟨rfl, -⟩ := only op .none member
    cases short
  · obtain ⟨-, rfl⟩ := only op operand member
    trivial
  · rintro insn member op operand rfl
    obtain ⟨rfl, rfl⟩ := only op operand member
    exact ⟨Option.some_ne_none _, rfl⟩

/-- The first one of the two variables gets the signature of the second one. -/
theorem signatures_rejoined_crossing :
    ∃ bytes, crossing.encode 52 crossingTables = .ok bytes crossingTables ∧
      ∀ header, (∃ code', decode crossingTables.pool crossingTables.bootstrap header .all bytes
          = .ok code') ∧
        ∀ code', decode crossingTables.pool crossingTables.bootstrap header .all bytes = .ok code' →
          code'.localVariables.map (fun v => (v.name, v.signature))
            = [("a", some "Ljava/util/List<TT;>;"), ("b", none)] := by
  obtain ⟨bytes, encoded⟩ := encode_crossing
  obtain ⟨items, layout, body, behind, written, -, -, read⟩ :=
    signatures_rejoined ⟨_, _, wellFormed_crossingTables, encoded, le_rfl⟩
  refine ⟨bytes, encoded, fun header => ⟨?_, fun code' decoded => ?_⟩⟩
  · have typed : ∀ frame, .frame frame ∈ crossing.instructions.toList →
        ∃ entry, header.entryFrame = .ok entry := fun frame member => by
      simp [crossing] at member
    exact (written.isOk_decode_iff typed legible_crossing.1).2 legible_crossing.2
  · obtain ⟨⟨numbering, -, -, variables'⟩, -⟩ := read header code' decoded
    rw [variables', List.map_map]
    simp [resolvedVariables, crossing, Marks.rejoined, Marks.lastSignature, scopeKey,
      LocalVariable.mapLabels]

end ClassInstrument.Code
