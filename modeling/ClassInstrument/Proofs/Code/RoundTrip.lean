import ClassInstrument.Proofs.Code.Retold

/-!
# Bodies written and read back

The bytes of a body that was written are read again, in a context whose constants are later ones.
Not everything that is written is read: a body without instructions is refused, and so is a byte
that names no instruction, or a switch over a range with no keys.  Every other body is read, and one
that satisfies `Code.Readable` says what it said before.

* `Instruction.Legible`, `Code.Legible` — what is read if it is written;
* `Code.General`, `Code.Normal` — bodies in normal form, which are read as they stand;
* `Written.reads_or_refuses` — **which instructions are read**;
* `Written.isOk_decode_iff` — **which bodies are read**, in normal form;
* `Code.HasEmptyTable`, `Code.decode_written`, `Code.refuses_written` — the same for readable bodies,
  which have switches over no keys at worst, and say what they said before.
-/

namespace ClassInstrument

open Decoder

/-- What can be read once it is written: the byte names an instruction, and a switch has keys. -/
def Instruction.Legible (insn : Instruction) : Prop :=
  ∀ op operand, insn = .op op operand → op.form? ≠ none ∧ operand.isEmptyTable = false

namespace Code

/-- What can be read once it is written: there are instructions, and all are legible. -/
def Legible (code : Code) : Prop :=
  ops code.instructions.toList ≠ [] ∧ ∀ insn ∈ code.instructions.toList, insn.Legible

/-- No instruction is a byte that names a low variable by itself. -/
def General (code : Code) : Prop :=
  ∀ op general v, op.form? = some (.shortVariable general v) →
    .op op .none ∉ code.instructions.toList

/-- Instructions in normal form: opcodes are general, and constants can be found again. -/
structure Normal (code : Code) : Prop where
  general : code.General
  representable : ∀ op operand, .op op operand ∈ code.instructions.toList → operand.Representable

/-- Some instruction is a switch over a range with no keys. -/
def HasEmptyTable (code : Code) : Prop :=
  ∃ op operand, .op op operand ∈ code.instructions.toList ∧ operand.isEmptyTable = true

/-- What stands in front of the tables: two limits, the length of the code and the code. -/
def head : Decoder (UInt16 × UInt16 × UInt32 × Bytes) := do
  let maxStack ← word
  let maxLocals ← word
  let length ← word (α := UInt32)
  if length == 0 || 65535 < length then malformed (.codeLength length)
  else
    let bytes ← take length.toNat
    return (maxStack, maxLocals, length, bytes)

/-- What is made of the code and the tables behind it. -/
def rest (pool : Pool) (bootstrap : BootstrapTable) (header : MethodHeader)
    (front : UInt16 × UInt16 × UInt32 × Bytes) : Decoder Code := do
  let ctx : BytecodeContext := ⟨pool, bootstrap, front.2.2.1.toNat⟩
  let code ← Decoder.ofExcept (ctx.instructions front.2.2.2)
  let read ← tables ctx header code
  Decoder.ofExcept (assemble front.1 front.2.1 front.2.2.1.toNat code read.1 read.2)

theorem decoder_eq (pool : Pool) (bootstrap : BootstrapTable) (header : MethodHeader) :
    decoder pool bootstrap header .all = head >>= rest pool bootstrap header := by
  unfold decoder head rest tables
  simp only [bind_assoc, pure_bind]
  congr 1
  funext maxStack
  congr 1
  funext maxLocals
  congr 1
  funext length
  split
  · rfl
  · simp only [bind_assoc, pure_bind]

theorem reads_head (maxStack maxLocals : UInt16) {body : Bytes} (some : 0 < body.length)
    (short : body.length ≤ 65535) :
    Reads head (Word.encode maxStack ++ (Word.encode maxLocals
      ++ (Word.encode (UInt32.ofNat body.length) ++ body)))
      (maxStack, maxLocals, UInt32.ofNat body.length, body) := by
  have toNat : (UInt32.ofNat body.length).toNat = body.length :=
    UInt32.toNat_ofNat_of_lt' (by show _ < 4294967296; omega)
  refine (Reads.word maxStack).bind ((Reads.word maxLocals).bind ((Reads.word _).bind ?_))
  rw [if_neg]
  · refine (Reads.take_of_length toNat.symm).bind_pure (Reads.pure _)
  · simp only [Bool.or_eq_true, beq_iff_eq, decide_eq_true_eq, not_or, UInt32.lt_iff_toNat_lt,
      ← UInt32.toNat_inj, toNat]
    exact ⟨Nat.pos_iff_ne_zero.1 some, Nat.not_lt.2 short⟩

/-! ### The code -/

section Written

variable {major : UInt16} {code : Code} {bytes : Bytes} {t : ConstantTables} {items : List Item}
  {layout : Layout} {body behind : Bytes}
  (written : Written major code bytes t items layout body behind)

include written in
theorem Written.spec : Layout.Settled items layout :=
  Layout.settle_spec (fun _ member =>
    let ⟨_, _, item⟩ := Traverse.exists_of_mem_right written.each member
    item.2.1) written.settled

include written in
/-- The elements of a body are placed with the constants that they refer to. -/
theorem Written.placed : List.Forall₂ (fun insn (p : Placed) => p.2.insn = insn
    ∧ ∀ op operand, insn = .op op operand → operand.Resolves t p.2.index)
    code.instructions.toList layout.placed := by
  refine Traverse.forall₂_trans ?_ written.each written.spec.each
  intro insn item p first second
  refine ⟨second.1.trans first.1, fun op operand same => ?_⟩
  rw [second.2]
  exact first.2.2 op operand same

include written in
theorem Written.laid : code.Laid layout := by
  refine ⟨written.spec.chained, ?_⟩
  have each := written.placed
  unfold Layout.insns
  generalize code.instructions.toList = insns, layout.placed = placed at each ⊢
  induction each with
  | nil => rfl
  | cons first _ ih => rw [List.map_cons, ih, first.1]

include written in
theorem Written.mem_placed {p : Placed} (member : p ∈ layout.placed) {op : Opcode}
    {operand : Operand} (same : p.2.insn = .op op operand) :
    .op op operand ∈ code.instructions.toList ∧ operand.Resolves t p.2.index := by
  obtain ⟨insn, inside, here, resolves⟩ := Traverse.exists_of_mem_right written.placed member
  rw [same] at here
  subst here
  exact ⟨inside, resolves op operand rfl⟩

include written in
/-- The code is as long as its layout. -/
theorem Written.length_body : body.length = layout.length ∧ body.length ≤ 65535 := by
  have same := Layout.length_code written.spec.chained written.emitted
  have short : layout.length ≤ 65535 := written.spec.short
  exact ⟨same, same ▸ short⟩

include written in
/-- The code is empty if nothing is executed. -/
theorem Written.length_pos : 0 < body.length ↔ ops code.instructions.toList ≠ [] := by
  obtain ⟨same, -⟩ := written.length_body
  have count := Layout.length_starts layout.placed
  rw [written.laid.same] at count
  have first := Layout.boundary_zero written.laid.chained
  rw [same, ← List.length_pos_iff, ← count]
  constructor
  · intro some
    by_contra none
    unfold Layout.boundary at first
    rw [List.getD_eq_default _ _ (Nat.not_lt.1 none)] at first
    omega
  · intro some
    have inside := (Layout.starts_ascend written.laid.chained).1 _ (List.getElem_mem some)
    omega

include written in
theorem Written.item_le {p : Placed} (member : p ∈ layout.placed) {chunk : Bytes}
    (h : Item.bytes layout.labels p = .ok chunk) : p.1 + chunk.length ≤ layout.length := by
  rw [Item.length_bytes h]
  exact (written.spec.chained.size_le member).2

variable {ctx : BytecodeContext} (serves : ctx.Serves t layout.labels)
  (length : ctx.length = layout.length)

include written serves length in
/-- **Every instruction is read back** that has an operand of its own, and is no switch over a range
with no keys. -/
theorem Written.readsItem {p : Placed} (member : p ∈ layout.placed)
    (own : ∀ op operand, p.2.insn = .op op operand →
      op.Takes operand ∧ operand.Representable ∧ operand.isEmptyTable = false) :
    ctx.ReadsItem layout.labels p := by
  intro op operand same chunk h
  have inside := written.item_le member h
  rw [← length] at inside
  obtain ⟨takes, representable, keys⟩ := own op operand same
  obtain ⟨offset, insn, index, far⟩ := p
  cases same
  obtain ⟨-, resolves⟩ := written.mem_placed member rfl
  refine Item.readsOp_opBytes serves takes resolves representable keys ?_ ?_ inside h
  · intro wide
    obtain ⟨op', target, same, form⟩ := written.spec.wide _ member wide
    cases same
    exact form
  · intro narrow target same distance known
    subst same
    exact written.spec.near _ member op target rfl narrow distance known

include written serves length in
/-- A switch over a range with no keys is refused. -/
theorem Written.refusesItem {p : Placed} (member : p ∈ layout.placed) {op : Opcode}
    {operand : Operand} (same : p.2.insn = .op op operand) (takes : op.Takes operand)
    (empty : operand.isEmptyTable = true) : ctx.RefusesItem layout.labels p := by
  refine ⟨op, operand, same, fun chunk h => ?_⟩
  have inside := written.item_le member h
  rw [← length] at inside
  obtain ⟨offset, insn, index, far⟩ := p
  cases same
  exact Item.refusesOp_opBytes serves takes empty inside h

include written in
/-- Every element has bytes. -/
theorem Written.exists_bytes {p : Placed} (member : p ∈ layout.placed) :
    ∃ chunk, Item.bytes layout.labels p = .ok chunk := by
  obtain ⟨chunks, each, -⟩ := Traverse.bind_eq_ok_iff.1 written.emitted
  obtain ⟨chunk, -, bytes⟩ :=
    Traverse.exists_of_mem_right (Traverse.mapM_eq_ok_iff.1 each).flip member
  exact ⟨chunk, bytes⟩

/-- A byte that names no instruction is refused. -/
theorem refusesItem_of_unknown {labels : LabelTable} {p : Placed} {op : Opcode}
    (same : p.2.insn = .op op .none) (unknown : op.form? = none) : ctx.RefusesItem labels p := by
  refine ⟨op, .none, same, fun chunk h => ?_⟩
  obtain ⟨offset, insn, index, far⟩ := p
  cases same
  have bytes : Item.opBytes labels offset index far op .none = .ok [op] := by
    unfold Item.opBytes
    rw [unknown]
  cases bytes.symm.trans h
  refine ⟨op, [], rfl, fun tail => ⟨.malformed (.opcode op offset), ?_⟩⟩
  unfold BytecodeContext.operand
  rw [unknown]
  rfl

include written serves length in
/-- **In normal form, what is legible is read and everything else is refused.** -/
theorem Written.reads_or_refuses (normal : code.Normal) {p : Placed} (member : p ∈ layout.placed) :
    p.2.insn.Legible ∧ ctx.ReadsItem layout.labels p
      ∨ ¬p.2.insn.Legible ∧ ctx.RefusesItem layout.labels p := by
  cases known : p.2.insn with
  | op op operand =>
    have original := (written.mem_placed member known).1
    obtain ⟨chunk, bytes⟩ := written.exists_bytes member
    obtain ⟨offset, insn, index, far⟩ := p
    cases known
    rcases Item.takes_or_bare bytes with takes | ⟨rfl, -, unknown | ⟨general, v, short⟩⟩
    · cases table : operand.isEmptyTable with
      | false =>
        refine .inl ⟨fun _ _ same => ?_, written.readsItem serves length member fun _ _ same => ?_⟩
        · cases same
          obtain ⟨form, known, -⟩ := takes
          exact ⟨fun none => (nomatch none.symm.trans known), table⟩
        · cases same
          exact ⟨takes, normal.representable op operand original, table⟩
      | true =>
        refine .inr ⟨fun legible => ?_, written.refusesItem serves length member rfl takes table⟩
        rw [(legible _ _ rfl).2] at table
        cases table
    · exact .inr ⟨fun legible => (legible _ _ rfl).1 unknown, refusesItem_of_unknown rfl unknown⟩
    · exact absurd original (normal.general op general v short)
  | _ =>
    refine .inl ⟨fun _ _ same => (nomatch same), fun _ _ same => ?_⟩
    rw [known] at same
    cases same

include written serves length in
/-- The instructions are read if all of them are legible. -/
theorem Written.instructions_eq (normal : code.Normal)
    (legible : ∀ insn ∈ code.instructions.toList, insn.Legible) :
    ctx.instructions body = .ok (rows layout) := by
  refine BytecodeContext.instructions_code written.spec.chained (fun p member => ?_) written.emitted
  have inside : p.2.insn ∈ code.instructions.toList := by
    rw [← written.laid.same]
    exact List.mem_map_of_mem member
  rcases written.reads_or_refuses serves length normal member with ⟨-, reads⟩ | ⟨illegible, -⟩
  · exact reads
  · exact absurd (legible _ inside) illegible

include written serves length in
/-- The instructions are refused if one of them is not legible. -/
theorem Written.refuses_instructions (normal : code.Normal)
    (illegible : ∃ insn ∈ code.instructions.toList, ¬insn.Legible) :
    ∃ e, ctx.instructions body = .error e := by
  obtain ⟨insn, inside, illegible⟩ := illegible
  rw [← written.laid.same] at inside
  obtain ⟨p, member, rfl⟩ := List.mem_map.1 inside
  refine BytecodeContext.refuses_code written.spec.chained
    (fun p member => (written.reads_or_refuses serves length normal member).imp And.right And.right)
    ⟨p, member, ?_⟩ written.emitted
  rcases written.reads_or_refuses serves length normal member with ⟨legible, -⟩ | ⟨-, refuses⟩
  · exact absurd legible illegible
  · exact refuses

/-! ### The tables -/

variable {header : MethodHeader} (readable : code.Readable header)

include written readable in
/-- Of the variables whose rows share scope and slot only the first one has a signature. -/
theorem Written.signedFirst : Marks.SignedFirst (resolvedVariables layout.labels code) := by
  have signed := readable.signatures
  have laid := written.laid
  unfold view at signed
  unfold Marks.SignedFirst resolvedVariables
  rw [List.pairwise_map] at signed ⊢
  refine signed.imp_of_mem fun {v w} hv hw plain same => plain ?_
  have total : (Layout.starts layout.placed).length = (ops code.instructions.toList).length := by
    rw [Layout.length_starts, laid.same]
  have short : layout.length ≤ 65535 := written.spec.short
  have ends := fun (u : LocalVariable) (hu : u ∈ code.localVariables) =>
    And.intro (laid.exists_position readable.placed (mem_references_variable hu
      (show u.start ∈ u.references by simp [LocalVariable.references])))
      (laid.exists_position readable.placed (mem_references_variable hu
        (show u.finish ∈ u.references by simp [LocalVariable.references])))
  obtain ⟨⟨a, startV, ha, offsetA⟩, b, finishV, hb, offsetB⟩ := ends v hv
  obtain ⟨⟨c, startW, hc, offsetC⟩, d, finishW, hd, offsetD⟩ := ends w hw
  have forwardsV := written.forwards v hv
  have forwardsW := written.forwards w hw
  have lastB := Layout.resolve_le laid.chained v.finish
  have lastD := Layout.resolve_le laid.chained w.finish
  simp only [scopeKey, LocalVariable.mapLabels, Prod.mk.injEq] at same
  rw [offsetA, offsetB] at forwardsV same
  rw [offsetC, offsetD] at forwardsW same
  rw [offsetB] at lastB
  rw [offsetD] at lastD
  dsimp only at forwardsV forwardsW lastB lastD same
  obtain ⟨starts, lengths, slot⟩ := same
  have first : Layout.boundary layout.placed layout.length c
      = Layout.boundary layout.placed layout.length a := by
    have equal := congrArg UInt16.toNat starts
    rwa [UInt16.toNat_ofNat_of_lt' (by show _ < 65536; omega),
      UInt16.toNat_ofNat_of_lt' (by show _ < 65536; omega)] at equal
  have last : Layout.boundary layout.placed layout.length d
      = Layout.boundary layout.placed layout.length b := by
    have equal := congrArg UInt16.toNat lengths
    rw [UInt16.toNat_ofNat_of_lt' (by show _ < 65536; omega),
      UInt16.toNat_ofNat_of_lt' (by show _ < 65536; omega)] at equal
    omega
  have same := (Layout.boundary_inj laid.chained (by omega) (by omega)).1 first
  have same' := (Layout.boundary_inj laid.chained (by omega) (by omega)).1 last
  simp only [LocalVariable.mapLabels, place, startV, finishV, startW, finishW, Option.getD_some, same,
    same', slot]

include written in
/-- Everything that is mentioned lies at an instruction or at the end. -/
theorem Written.strayOffset? (entry : Frame) :
    (gathered layout.labels major code (Assembly.framesOf layout) entry (rows layout)).strayOffset?
      layout.length ((rows layout).map Prod.fst) = none := by
  unfold Marks.strayOffset?
  rw [List.min?_eq_none_iff, List.filter_eq_nil_iff]
  intro o member
  rw [gathered_eq, List.mem_reverse] at member
  have there := written.laid.mem_places member
  rcases List.mem_append.1 there with start | last
  · simp [start]
  · simp [List.mem_singleton.1 last]

include written in
/-- What is put together has the instructions that are read back. -/
theorem Written.exists_assemble (entry : Frame) : ∃ code',
    assemble code.maxStack code.maxLocals layout.length (rows layout)
        (writtenRanges layout.labels code.handlers)
        (gathered layout.labels major code (Assembly.framesOf layout) entry (rows layout))
      = .ok code' ∧ code'.instructions.toList = rereadBody major code layout entry := by
  have numbers' : Numbering.ofMentions (gathered layout.labels major code
      (Assembly.framesOf layout) entry (rows layout)).mentioned.reverse
        = numbers major code layout := by
    rw [gathered_eq, List.reverse_reverse]
    rfl
  unfold assemble
  rw [written.strayOffset? entry]
  refine ⟨_, rfl, ?_⟩
  rw [numbers']
  exact Sequence.toList_ofList _ _

include written readable in
/-- What is put together is the body that is read back. -/
theorem Written.assemble_eq (entry : Frame) :
    assemble code.maxStack code.maxLocals layout.length (rows layout)
        (writtenRanges layout.labels code.handlers)
        (gathered layout.labels major code (Assembly.framesOf layout) entry (rows layout))
      = .ok (code.reread major layout entry) := by
  have variables' := variablesWithSignatures_of_signedFirst (written.signedFirst readable) major
    (Assembly.framesOf layout) entry (rows layout)
  have numbers' : Numbering.ofMentions (gathered layout.labels major code
      (Assembly.framesOf layout) entry (rows layout)).mentioned.reverse
        = numbers major code layout := by
    rw [gathered_eq, List.reverse_reverse]
    rfl
  unfold assemble
  rw [written.strayOffset? entry]
  simp only [variables', numbers']
  rfl

/-! ### The whole attribute -/

/-- The context in which a body is read, its code having a given length. -/
abbrev contextOf (t : ConstantTables) (length : Nat) : BytecodeContext :=
  ⟨t.pool, t.bootstrap, (UInt32.ofNat length).toNat⟩

include written in
theorem Written.length_context : (contextOf t body.length).length = layout.length := by
  obtain ⟨same, short⟩ := written.length_body
  rw [← same]
  exact UInt32.toNat_ofNat_of_lt' (by show _ < 4294967296; omega)

include written in
theorem Written.serves_context : (contextOf t body.length).Serves t layout.labels := by
  obtain ⟨same, short⟩ := written.length_body
  have length := written.length_context
  refine ⟨rfl, rfl, fun l => ?_, by omega⟩
  rw [length]
  exact Layout.resolve_le written.spec.chained l

variable (header) in
include written in
/-- The code and what stands in front of it are read unless the code is empty. -/
theorem Written.decode_eq (some : ops code.instructions.toList ≠ []) :
    ∃ position, decode t.pool t.bootstrap header .all bytes
      = (rest t.pool t.bootstrap header
        (code.maxStack, code.maxLocals, UInt32.ofNat body.length, body)
        ⟨position, behind⟩).map Prod.fst := by
  have front := onBytes_bind (reads_head code.maxStack code.maxLocals (written.length_pos.2 some)
    written.length_body.2) (rest t.pool t.bootstrap header) behind
  refine ⟨_, Eq.trans ?_ front⟩
  unfold decode
  rw [decoder_eq, written.whole]
  simp only [List.append_assoc]

variable (header) in
include written in
/-- A body without instructions is refused. -/
theorem Written.refuses_empty (none : ops code.instructions.toList = []) :
    ∃ e, decode t.pool t.bootstrap header .all bytes = .error e := by
  have empty : body = [] := by
    rw [← List.length_eq_zero_iff, ← Nat.le_zero]
    exact Nat.not_lt.1 fun some => written.length_pos.1 some none
  refine ⟨.malformed (.codeLength 0), ?_⟩
  unfold decode onBytes
  rw [decoder_eq, written.whole, empty]
  have front : head (Cursor.start (Word.encode code.maxStack ++ (Word.encode code.maxLocals
      ++ (Word.encode (UInt32.ofNat 0) ++ ([] ++ behind))))) = .error (.malformed (.codeLength 0)) := by
    unfold head Cursor.start
    rw [bind_of_ok (Reads.word code.maxStack _ _), bind_of_ok (Reads.word code.maxLocals _ _),
      bind_of_ok (Reads.word (UInt32.ofNat 0) _ _)]
    rfl
  rw [List.length_nil, bind_of_error front]

variable (typed : ∀ frame, .frame frame ∈ code.instructions.toList →
  ∃ entry, header.entryFrame = .ok entry)

include written typed in
/-- The tables are read, whatever code is in front of them. -/
theorem Written.exists_reads_tables : ∃ entry, ∀ insns,
    Reads (tables (contextOf t body.length) header insns) behind
      (writtenRanges layout.labels code.handlers,
        gathered layout.labels major code (Assembly.framesOf layout) entry insns) := by
  have laid := written.laid
  obtain ⟨entry, typed⟩ : ∃ entry, writtenFrames layout.labels major (Assembly.framesOf layout) ≠ [] →
      header.entryFrame = .ok entry := by
    cases known : header.entryFrame with
    | ok entry => exact ⟨entry, fun _ => rfl⟩
    | error e =>
      refine ⟨default, fun some => ?_⟩
      obtain ⟨frame, there⟩ := List.exists_mem_of_ne_nil (Assembly.framesOf layout) fun none =>
        some (by unfold writtenFrames; rw [none]; exact ite_self [])
      obtain ⟨entry, typed⟩ := typed _ (laid.mem_framesOf there).2
      rw [known] at typed
      cases typed
  refine ⟨entry, written.reads _ header entry written.serves_context typed ?_ fun frame member => ?_⟩
  · rw [Layout.framesOf_eq laid.chained]
    exact Layout.framesAt_ascend (Layout.starts_ascend laid.chained).2 _
  · rw [written.length_context]
    exact ((Layout.starts_ascend laid.chained).1 _ (laid.mem_framesOf member).1).2

include written typed in
/-- **A legible body in normal form** is put together from its instructions and its tables. -/
theorem Written.decode_eq_assemble (normal : code.Normal) (legible : code.Legible) :
    ∃ entry, decode t.pool t.bootstrap header .all bytes
      = assemble code.maxStack code.maxLocals layout.length (rows layout)
        (writtenRanges layout.labels code.handlers)
        (gathered layout.labels major code (Assembly.framesOf layout) entry (rows layout)) := by
  obtain ⟨entry, tables'⟩ := written.exists_reads_tables typed
  obtain ⟨position, whole⟩ := written.decode_eq header legible.1
  have length := written.length_context
  have insns := written.instructions_eq written.serves_context length normal legible.2
  obtain ⟨code', put, -⟩ := written.exists_assemble entry
  have read : Reads (rest t.pool t.bootstrap header
      (code.maxStack, code.maxLocals, UInt32.ofNat body.length, body)) behind code' := by
    refine (Reads.ofExcept insns).pure_bind ((tables' _).bind_pure (Reads.ofExcept ?_))
    show assemble _ _ (contextOf t body.length).length _ _ _ = _
    rw [length]
    exact put
  have last := read position []
  rw [List.append_nil] at last
  refine ⟨entry, ?_⟩
  rw [whole, last, put]
  rfl

variable (header) in
include written in
/-- A body with an instruction that is not legible is refused. -/
theorem Written.refuses_illegible (normal : code.Normal)
    (illegible : ∃ insn ∈ code.instructions.toList, ¬insn.Legible) :
    ∃ e, decode t.pool t.bootstrap header .all bytes = .error e := by
  by_cases none : ops code.instructions.toList = []
  · exact written.refuses_empty header none
  · obtain ⟨position, whole⟩ := written.decode_eq header none
    obtain ⟨e, refused⟩ :=
      written.refuses_instructions written.serves_context written.length_context normal illegible
    refine ⟨e, ?_⟩
    rw [whole]
    unfold rest
    rw [bind_of_error (e := e)]
    · rfl
    · show Decoder.ofExcept ((contextOf t body.length).instructions body) _ = _
      rw [refused]
      rfl

include written typed in
/-- **Which bodies in normal form are read**: the legible ones. -/
theorem Written.isOk_decode_iff (normal : code.Normal) :
    (∃ code', decode t.pool t.bootstrap header .all bytes = .ok code') ↔ code.Legible := by
  constructor
  · rintro ⟨code', read⟩
    refine ⟨fun none => ?_, fun insn inside => ?_⟩
    · obtain ⟨e, refused⟩ := written.refuses_empty header none
      rw [refused] at read
      cases read
    · by_contra illegible
      obtain ⟨e, refused⟩ :=
        written.refuses_illegible header normal ⟨insn, inside, illegible⟩
      rw [refused] at read
      cases read
  · intro legible
    obtain ⟨entry, whole⟩ := written.decode_eq_assemble typed normal legible
    obtain ⟨code', put, -⟩ := written.exists_assemble entry
    exact ⟨code', whole.trans put⟩

/-! ### Bodies that say the same -/

theorem Readable.normal (readable : code.Readable header) : code.Normal where
  general op general v short inside := by
    obtain ⟨form, known, takes⟩ := readable.takes op .none inside
    cases known.symm.trans short
    cases takes
  representable := readable.representable

theorem Readable.legible_iff (readable : code.Readable header) :
    code.Legible ↔ ¬code.HasEmptyTable := by
  constructor
  · rintro ⟨-, legible⟩ ⟨op, operand, inside, table⟩
    rw [(legible _ inside op operand rfl).2] at table
    cases table
  · intro keys
    refine ⟨readable.nonempty, ?_⟩
    rintro insn inside op operand rfl
    obtain ⟨form, known, -⟩ := readable.takes op operand inside
    refine ⟨fun none => (nomatch none.symm.trans known), ?_⟩
    exact Bool.eq_false_iff.2 fun empty => keys ⟨op, operand, inside, empty⟩

include written readable in
/-- **A body that was written is read back** and says what it said before, unless it has a switch
over a range with no keys. -/
theorem decode_written (keys : ¬code.HasEmptyTable) :
    ∃ code', decode t.pool t.bootstrap header .all bytes = .ok code' ∧ code'.WellPlaced
      ∧ code'.view = code.view.written major := by
  have laid := written.laid
  obtain ⟨entry, whole⟩ := written.decode_eq_assemble readable.typed readable.normal
    (readable.legible_iff.2 keys)
  exact ⟨code.reread major layout entry, whole.trans (written.assemble_eq readable entry),
    laid.wellPlaced_reread readable.placed major entry,
    laid.view_reread readable.placed major entry⟩

include written readable in
/-- **A switch over a range with no keys is refused.** -/
theorem refuses_written (table : code.HasEmptyTable) :
    ∃ e, decode t.pool t.bootstrap header .all bytes = .error e := by
  refine written.refuses_illegible header readable.normal ?_
  by_contra legible
  refine readable.legible_iff.1 ⟨readable.nonempty, fun insn inside => ?_⟩ table
  by_contra illegible
  exact legible ⟨insn, inside, illegible⟩

end Written

end Code

end ClassInstrument
