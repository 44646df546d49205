import ClassInstrument.Proofs.Code.Forms
import ClassInstrument.Proofs.Code.Tables

/-!
# All spellings of an instruction

An instruction in general form has several encodings: loads and stores of low locals have bytes of
their own, local variables and increments have a plain and a wide form, constants three forms,
`goto` and `jsr` a near and a far one, and switches are padded as their offset requires.  Here are
all of them, given without the decoder, and that each is read as the instruction it stands for.

* `BytecodeContext.ReadsOp` — the bytes of an instruction at an offset;
* `BytecodeContext.Reaches` — a distance of four bytes that leads to an offset;
* `Instruction.Spelled` — **the encodings of an instruction** at an offset;
* `Instruction.Spelled.reads` — **every encoding is read** as the instruction.
-/

namespace ClassInstrument

open Decoder

/-! ### Encodings -/

/-- The bytes of a distance that leads from an offset to another one in the code or at its end. -/
inductive BytecodeContext.Reaches (ctx : BytecodeContext) (offset : Nat) :
    Label → Bytes → Prop where
  | far {distance : Int32} {target : Nat} (reach : (offset : Int) + distance.toInt = target)
      (inside : target ≤ ctx.length) : Reaches ctx offset ⟨target⟩ (Word.encode distance)

/-- The bytes of a key with its target. -/
inductive BytecodeContext.KeyReaches (ctx : BytecodeContext) (offset : Nat) :
    Int32 × Label → Bytes → Prop where
  | pair {key : Int32} {target : Label} {bytes : Bytes}
      (reaches : ctx.Reaches offset target bytes) :
      KeyReaches ctx offset (key, target) (Word.encode key ++ bytes)

/-- The bytes behind a first byte at an offset up to the next multiple of four, whatever they
are. -/
def IsPadding (offset : Nat) (bytes : Bytes) : Prop :=
  bytes.length < 4 ∧ (offset + 1 + bytes.length) % 4 = 0

open BytecodeContext (Reaches KeyReaches)

/-- The bytes of an instruction at an offset.  Its labels are the offsets that it leads to. -/
inductive Instruction.Spelled (ctx : BytecodeContext) (offset : Nat) :
    Instruction → Bytes → Prop where
  | plain {op : Opcode} (bare : op.isPlain = true) : Spelled ctx offset (.simple op) [op]
  | byte (value : Int8) : Spelled ctx offset (.op Opcode.bipush (.int value.toInt32))
      (Opcode.bipush :: Word.encode value)
  | short (value : Int16) : Spelled ctx offset (.op Opcode.sipush (.int value.toInt32))
      (Opcode.sipush :: Word.encode value)
  | elementType (code : UInt8) :
      Spelled ctx offset (.op Opcode.newarray (.int code.toUInt32.toInt32)) [Opcode.newarray, code]
  | narrowConstant {index : UInt8} {constant : Constant}
      (found : ctx.pool.constant ctx.bootstrap index.toUInt16 = .ok constant) :
      Spelled ctx offset (.ldc constant) [Opcode.ldc, index]
  | wideConstant {op : Opcode} {index : UInt16} {constant : Constant}
      (wide : op = Opcode.ldcW ∨ op = Opcode.ldc2W)
      (found : ctx.pool.constant ctx.bootstrap index = .ok constant) :
      Spelled ctx offset (.ldc constant) (op :: Word.encode index)
  | shortLoad {op : Opcode} {index : UInt16} (load : Opcode.iload ≤ op ∧ op ≤ Opcode.aload)
      (low : index < 4) : Spelled ctx offset (.op op (.var index))
        [Opcode.iload0 + 4 * (op - Opcode.iload) + index.toUInt8]
  | shortStore {op : Opcode} {index : UInt16} (store : Opcode.istore ≤ op ∧ op ≤ Opcode.astore)
      (low : index < 4) : Spelled ctx offset (.op op (.var index))
        [Opcode.istore0 + 4 * (op - Opcode.istore) + index.toUInt8]
  | slot {op : Opcode} (uses : op.usesVariable = true) (index : UInt8) :
      Spelled ctx offset (.op op (.var index.toUInt16)) [op, index]
  | wideSlot {op : Opcode} (uses : op.usesVariable = true) (index : UInt16) :
      Spelled ctx offset (.op op (.var index)) (Opcode.wide :: op :: Word.encode index)
  | increment (index : UInt8) (amount : Int8) :
      Spelled ctx offset (.op Opcode.iinc (.increment index.toUInt16 amount.toInt16))
        (Opcode.iinc :: index :: Word.encode amount)
  | wideIncrement (index : UInt16) (amount : Int16) :
      Spelled ctx offset (.op Opcode.iinc (.increment index amount))
        (Opcode.wide :: Opcode.iinc :: (Word.encode index ++ Word.encode amount))
  | branch {op : Opcode} {distance : Int16} {target : Nat} (near : op.isNearBranch = true)
      (reach : (offset : Int) + distance.toInt = target) (inside : target ≤ ctx.length) :
      Spelled ctx offset (.op op (.jump ⟨target⟩)) (op :: Word.encode distance)
  | farGoto {target : Label} {bytes : Bytes} (reaches : Reaches ctx offset target bytes) :
      Spelled ctx offset (.op Opcode.goto (.jump target)) (Opcode.gotoW :: bytes)
  | farJsr {target : Label} {bytes : Bytes} (reaches : Reaches ctx offset target bytes) :
      Spelled ctx offset (.op Opcode.jsr (.jump target)) (Opcode.jsrW :: bytes)
  | tableSwitch {padding bytes : Bytes} {chunks : List Bytes} {default : Label} {low high : Int32}
      {targets : List Label} (padded : IsPadding offset padding)
      (other : Reaches ctx offset default bytes) (some : low.toInt ≤ high.toInt)
      (keys : (targets.length : Int) = high.toInt - low.toInt + 1)
      (each : List.Forall₂ (fun chunk target => Reaches ctx offset target chunk) chunks targets) :
      Spelled ctx offset (.op Opcode.tableswitch (.tableSwitch default low high targets))
        (Opcode.tableswitch :: (padding
          ++ (bytes ++ (Word.encode low ++ (Word.encode high ++ chunks.flatten)))))
  | lookupSwitch {padding bytes : Bytes} {chunks : List Bytes} {default : Label} {count : Int32}
      {pairs : List (Int32 × Label)} (padded : IsPadding offset padding)
      (other : Reaches ctx offset default bytes) (keys : (pairs.length : Int) = count.toInt)
      (each : List.Forall₂ (fun chunk pair => KeyReaches ctx offset pair chunk) chunks pairs) :
      Spelled ctx offset (.op Opcode.lookupswitch (.lookupSwitch default pairs))
        (Opcode.lookupswitch :: (padding ++ (bytes ++ (Word.encode count ++ chunks.flatten))))
  | field {op : Opcode} {index : UInt16} {member : MemberRef} {onInterface : Bool}
      (access : Opcode.getstatic ≤ op ∧ op ≤ Opcode.putfield)
      (found : ctx.pool.memberRef index = .ok (member, onInterface)) :
      Spelled ctx offset (.op op (.field member)) (op :: Word.encode index)
  | method {op : Opcode} {index : UInt16} {member : MemberRef} {onInterface : Bool}
      (call : Opcode.invokevirtual ≤ op ∧ op ≤ Opcode.invokestatic)
      (found : ctx.pool.memberRef index = .ok (member, onInterface)) :
      Spelled ctx offset (.op op (.method member onInterface)) (op :: Word.encode index)
  | interfaceMethod {index : UInt16} {member : MemberRef} {onInterface : Bool} (count zero : UInt8)
      (found : ctx.pool.memberRef index = .ok (member, onInterface)) :
      Spelled ctx offset (.op Opcode.invokeinterface (.method member onInterface))
        (Opcode.invokeinterface :: (Word.encode index ++ [count, zero]))
  | callSite {index : UInt16} {call : DynamicCall} (zero zero' : UInt8)
      (found : ctx.pool.dynamicCall ctx.bootstrap index = .ok call) :
      Spelled ctx offset (.op Opcode.invokedynamic (.invokeDynamic call))
        (Opcode.invokedynamic :: (Word.encode index ++ [zero, zero']))
  | type {op : Opcode} {index : UInt16} {name : String} (naming : op.namesType = true)
      (found : ctx.pool.className index = .ok name) :
      Spelled ctx offset (.op op (.type name)) (op :: Word.encode index)
  | multiArray {index : UInt16} {desc : String} (dims : UInt8)
      (found : ctx.pool.className index = .ok desc) :
      Spelled ctx offset (.op Opcode.multianewarray (.multiArray desc dims))
        (Opcode.multianewarray :: (Word.encode index ++ [dims]))

/-! ### Distances and padding are read -/

namespace BytecodeContext

variable {ctx : BytecodeContext} {offset : Nat}

/-- The bytes are read as an instruction at an offset. -/
def ReadsOp (ctx : BytecodeContext) (offset : Nat) (bytes : Bytes) (insn : Instruction) : Prop :=
  ∃ first rest, bytes = first :: rest ∧ ReadsAt (offset + 1) (ctx.operand offset first) rest insn

/-- The first byte says which form follows. -/
theorem readsOp_of_form {op : Opcode} {form : Form} {rest : Bytes} {insn : Instruction}
    (known : Opcode.form? op = some form)
    (h : ReadsAt (offset + 1) (ctx.formed offset op form) rest insn) :
    ctx.ReadsOp offset (op :: rest) insn := by
  refine ⟨op, rest, rfl, ?_⟩
  unfold operand
  rw [known]
  exact h

theorem Reaches.reads {target : Label} {bytes : Bytes} (h : Reaches ctx offset target bytes) :
    Reads (ctx.farTarget offset) bytes target := by
  cases h with
  | @far distance target reach inside =>
    refine (Reads.word distance).bind_pure (Reads.ofExcept ?_)
    rw [reach]
    exact target_of_le inside

theorem Reaches.length_eq {target : Label} {bytes : Bytes} (h : Reaches ctx offset target bytes) :
    bytes.length = 4 := by
  cases h
  exact Word.length_encode _

theorem KeyReaches.reads {pair : Int32 × Label} {bytes : Bytes}
    (h : KeyReaches ctx offset pair bytes) : Reads (do
      let key ← word (α := Int32)
      let target ← ctx.farTarget offset
      return (key, target)) bytes pair := by
  cases h with
  | @pair key target bytes reaches =>
    exact (Reads.word key).bind (reaches.reads.bind_pure (Reads.pure _))

theorem KeyReaches.length_eq {pair : Int32 × Label} {bytes : Bytes}
    (h : KeyReaches ctx offset pair bytes) : bytes.length = 8 := by
  cases h with
  | @pair key target bytes reaches =>
    rw [List.length_append, reaches.length_eq, Word.length_encode]
    rfl

theorem readsAt_align {padding : Bytes} (padded : IsPadding offset padding) :
    ReadsAt (offset + 1) (align 0 4) padding () := by
  obtain ⟨few, aligned⟩ := padded
  exact ReadsAt.align (by omega)

/-- Every key of a range has its target. -/
theorem readsAt_table {padding bytes : Bytes} {chunks : List Bytes} {default : Label}
    {low high : Int32} {targets : List Label} (padded : IsPadding offset padding)
    (other : Reaches ctx offset default bytes) (some : low.toInt ≤ high.toInt)
    (keys : (targets.length : Int) = high.toInt - low.toInt + 1)
    (each : List.Forall₂ (fun chunk target => Reaches ctx offset target chunk) chunks targets)
    (fits : targets.length ≤ ctx.length) :
    ReadsAt (offset + 1) (ctx.tableOperand offset)
      (padding ++ (bytes ++ (Word.encode low ++ (Word.encode high ++ chunks.flatten))))
      (.tableSwitch default low high targets) := by
  have order : ¬ high < low := by
    rw [Int32.lt_iff_toInt_lt]
    omega
  have few : ¬ (ctx.length : Int) < high.toInt - low.toInt + 1 := by omega
  have count : (high.toInt - low.toInt + 1).toNat = targets.length := by omega
  have entries : Reads (times targets.length (ctx.farTarget offset)) chunks.flatten targets :=
    Reads.times (each.imp fun _ _ reaches => reaches.reads)
  refine (readsAt_align padded).bind (Reads.bind other.reads ?_ _)
  refine (Reads.word low).bind ((Reads.word high).bind ?_)
  rw [if_neg order]
  dsimp only
  rw [if_neg few, count]
  exact entries.bind_pure (Reads.pure _)

/-- Keys come with their targets. -/
theorem readsAt_lookup {padding bytes : Bytes} {chunks : List Bytes} {default : Label}
    {count : Int32} {pairs : List (Int32 × Label)} (padded : IsPadding offset padding)
    (other : Reaches ctx offset default bytes) (keys : (pairs.length : Int) = count.toInt)
    (each : List.Forall₂ (fun chunk pair => KeyReaches ctx offset pair chunk) chunks pairs)
    (fits : pairs.length ≤ ctx.length) :
    ReadsAt (offset + 1) (ctx.lookupOperand offset)
      (padding ++ (bytes ++ (Word.encode count ++ chunks.flatten)))
      (.lookupSwitch default pairs) := by
  have few : ¬ (count.toInt < 0 || (ctx.length : Int) < count.toInt) = true := by
    simp only [Bool.or_eq_true, decide_eq_true_eq]
    omega
  have number : count.toInt.toNat = pairs.length := by omega
  have entries := Reads.times (each.imp fun _ _ reaches => reaches.reads)
  refine (readsAt_align padded).bind (Reads.bind other.reads ?_ _)
  refine (Reads.word count).bind ?_
  rw [if_neg few, number]
  exact entries.bind_pure (Reads.pure _)

/-! ### Entries of the pool are found -/

theorem readsConstantAt {index : UInt16} {constant : Constant}
    (found : ctx.pool.constant ctx.bootstrap index = .ok constant) :
    Reads (ctx.constantAt index) [] (.ldc constant) :=
  (Reads.ofExcept found).pure_bind (Reads.pure _)

theorem readsMember {index : UInt16} {found : MemberRef × Bool}
    (known : ctx.pool.memberRef index = .ok found) :
    Reads ctx.memberOperand (Word.encode index) found :=
  (Reads.word index).bind_pure (Reads.ofExcept known)

theorem readsType {index : UInt16} {name : String} (known : ctx.pool.className index = .ok name) :
    Reads ctx.typeOperand (Word.encode index) name :=
  (Reads.word index).bind_pure (Reads.ofExcept known)

end BytecodeContext

/-! ### Every encoding is read -/

open BytecodeContext

/-- **Every encoding is read** as the instruction that it stands for. -/
theorem Instruction.Spelled.reads {ctx : BytecodeContext} {offset : Nat} {insn : Instruction}
    {bytes : Bytes} (fits : offset + bytes.length ≤ ctx.length)
    (h : Instruction.Spelled ctx offset insn bytes) : ctx.ReadsOp offset bytes insn := by
  cases h with
  | plain bare =>
    exact readsOp_of_form (Opcode.form?_of_owns .plain (by decide) bare) (ReadsAt.pure _ _)
  | byte value =>
    have row : Reads (ctx.formed offset Opcode.bipush .signedByte) (Word.encode value)
        (.op Opcode.bipush (.int value.toInt32)) := (Reads.word value).bind_pure (Reads.pure _)
    exact readsOp_of_form rfl (row _)
  | short value =>
    have row : Reads (ctx.formed offset Opcode.sipush .signedShort) (Word.encode value)
        (.op Opcode.sipush (.int value.toInt32)) := (Reads.word value).bind_pure (Reads.pure _)
    exact readsOp_of_form rfl (row _)
  | elementType code =>
    have row : Reads (ctx.formed offset Opcode.newarray .elementType) [code]
        (.op Opcode.newarray (.int code.toUInt32.toInt32)) := Reads.byte (Reads.pure _)
    exact readsOp_of_form rfl (row _)
  | @narrowConstant index constant found =>
    have row : Reads (ctx.formed offset Opcode.ldc .narrowConstant) [index] (.ldc constant) :=
      Reads.byte (readsConstantAt found)
    exact readsOp_of_form rfl (row _)
  | @wideConstant op index constant wide found =>
    have row : Reads (ctx.formed offset op .wideConstant) (Word.encode index) (.ldc constant) :=
      (Reads.word index).bind_pure (readsConstantAt found)
    rcases wide with rfl | rfl
    · exact readsOp_of_form rfl (row _)
    · exact readsOp_of_form rfl (row _)
  | shortLoad load low =>
    exact readsOp_of_form (Opcode.form?_shortLoad _ load _ low) (ReadsAt.pure _ _)
  | shortStore store low =>
    exact readsOp_of_form (Opcode.form?_shortStore _ store _ low) (ReadsAt.pure _ _)
  | @slot op uses index =>
    have row : Reads (ctx.formed offset op .variable) [index] (.op op (.var index.toUInt16)) :=
      Reads.byte (Reads.pure _)
    exact readsOp_of_form (Opcode.form?_of_owns .variable (by decide) uses) (row _)
  | @wideSlot op uses index =>
    have row : Reads (ctx.formed offset Opcode.wide .wide) (op :: Word.encode index)
        (.op op (.var index)) := by
      refine Reads.byte ?_
      have other : ¬ (op == Opcode.iinc) = true := by
        intro same
        rw [eq_of_beq same] at uses
        exact absurd uses (by decide)
      rw [if_neg other, if_pos uses]
      exact (Reads.word index).bind_pure (Reads.pure _)
    exact readsOp_of_form rfl (row _)
  | increment index amount =>
    have row : Reads (ctx.formed offset Opcode.iinc .increment) (index :: Word.encode amount)
        (.op Opcode.iinc (.increment index.toUInt16 amount.toInt16)) :=
      Reads.byte ((Reads.word amount).bind_pure (Reads.pure _))
    exact readsOp_of_form rfl (row _)
  | wideIncrement index amount =>
    have row : Reads (ctx.formed offset Opcode.wide .wide)
        (Opcode.iinc :: (Word.encode index ++ Word.encode amount))
        (.op Opcode.iinc (.increment index amount)) :=
      Reads.byte ((Reads.word index).bind ((Reads.word amount).bind_pure (Reads.pure _)))
    exact readsOp_of_form rfl (row _)
  | @branch op distance target near reach inside =>
    have place : Reads (ctx.nearTarget offset) (Word.encode distance) ⟨target⟩ := by
      refine (Reads.word distance).bind_pure (Reads.ofExcept ?_)
      rw [reach]
      exact target_of_le inside
    have row : Reads (ctx.formed offset op .branch) (Word.encode distance)
        (.op op (.jump ⟨target⟩)) := place.bind_pure (Reads.pure _)
    exact readsOp_of_form (Opcode.form?_of_owns .branch (by decide) near) (row _)
  | @farGoto target bytes reaches =>
    have row : Reads (ctx.formed offset Opcode.gotoW (.wideBranch Opcode.goto)) bytes
        (.op Opcode.goto (.jump target)) := reaches.reads.bind_pure (Reads.pure _)
    exact readsOp_of_form rfl (row _)
  | @farJsr target bytes reaches =>
    have row : Reads (ctx.formed offset Opcode.jsrW (.wideBranch Opcode.jsr)) bytes
        (.op Opcode.jsr (.jump target)) := reaches.reads.bind_pure (Reads.pure _)
    exact readsOp_of_form rfl (row _)
  | @tableSwitch padding bytes chunks default low high targets padded other some keys each =>
    have rows := Item.length_flatten_of_forall₂ 4 each.flip fun _ _ reaches => reaches.length_eq
    have operand := readsAt_table padded other some keys each (by
      simp only [List.length_cons, List.length_append] at fits
      omega)
    have row : ReadsAt (offset + 1) (ctx.formed offset Opcode.tableswitch .tableSwitch) _ _ :=
      operand.bind (ReadsAt.pure _ _)
    rw [List.append_nil] at row
    exact readsOp_of_form rfl row
  | @lookupSwitch padding bytes chunks default count pairs padded other keys each =>
    have rows := Item.length_flatten_of_forall₂ 8 each.flip fun _ _ reaches => reaches.length_eq
    have operand := readsAt_lookup padded other keys each (by
      simp only [List.length_cons, List.length_append] at fits
      omega)
    have row : ReadsAt (offset + 1) (ctx.formed offset Opcode.lookupswitch .lookupSwitch) _ _ :=
      operand.bind (ReadsAt.pure _ _)
    rw [List.append_nil] at row
    exact readsOp_of_form rfl row
  | @field op index member onInterface access found =>
    have row : Reads (ctx.formed offset op .field) (Word.encode index) (.op op (.field member)) :=
      (readsMember found).bind_pure (Reads.pure _)
    have form := Opcode.form?_of_owns .field (by decide) (Form.owns_field_iff.2 access)
    exact readsOp_of_form form (row _)
  | @method op index member onInterface call found =>
    have row : Reads (ctx.formed offset op .method) (Word.encode index)
        (.op op (.method member onInterface)) := (readsMember found).bind_pure (Reads.pure _)
    have form := Opcode.form?_of_owns .method (by decide) (Form.owns_method_iff.2 call)
    exact readsOp_of_form form (row _)
  | @interfaceMethod index member onInterface count zero found =>
    have behind : Reads (skip 2) [count, zero] () := Reads.skip rfl
    have row : Reads (ctx.formed offset Opcode.invokeinterface .interfaceMethod)
        (Word.encode index ++ [count, zero])
        (.op Opcode.invokeinterface (.method member onInterface)) :=
      (readsMember found).bind (behind.bind_pure (Reads.pure _))
    exact readsOp_of_form rfl (row _)
  | @callSite index call zero zero' found =>
    have behind : Reads (skip 2) [zero, zero'] () := Reads.skip rfl
    have row : Reads (ctx.formed offset Opcode.invokedynamic .callSite)
        (Word.encode index ++ [zero, zero']) (.op Opcode.invokedynamic (.invokeDynamic call)) :=
      (Reads.word index).bind ((Reads.ofExcept found).pure_bind (behind.bind_pure (Reads.pure _)))
    exact readsOp_of_form rfl (row _)
  | @type op index name naming found =>
    have row : Reads (ctx.formed offset op .type) (Word.encode index) (.op op (.type name)) :=
      (readsType found).bind_pure (Reads.pure _)
    exact readsOp_of_form (Opcode.form?_of_owns .type (by decide) naming) (row _)
  | @multiArray index desc dims found =>
    have row : Reads (ctx.formed offset Opcode.multianewarray .multiArray)
        (Word.encode index ++ [dims]) (.op Opcode.multianewarray (.multiArray desc dims)) :=
      (readsType found).bind (Reads.byte (Reads.pure _))
    exact readsOp_of_form rfl (row _)

end ClassInstrument
