import ClassInstrument.Proofs.Code.Canonical
import ClassInstrument.Proofs.Code.Tiled

/-!
# Instructions that were read

What is known of the instructions of a body whatever bytes they were read from: every opcode is a
general one and has an operand of its own kind, no switch over a range is without keys, computed
constants are nested no deeper than they are followed, and offsets ascend.

* `Pool.nesting_constant`, `Pool.nesting_dynamicCall` — computed constants are not nested deeper;
* `Instruction.Read` — what is known of one instruction;
* `BytecodeContext.gives_formed` — every form gives such an instruction;
* `BytecodeContext.Rows` — what is known of all instructions with their offsets;
* `BytecodeContext.rows_instructions` — **whatever is read is known to be so**.
-/

namespace ClassInstrument

open Decoder

/-! ### Computed constants -/

namespace Pool

variable {p : Pool} {t : BootstrapTable}

theorem nestingAll_le {cs : List Constant} {n : Nat} (h : ∀ c ∈ cs, c.nesting ≤ n) :
    Constant.nestingAll cs ≤ n := by
  induction cs with
  | nil => simp [Constant.nestingAll]
  | cons c cs ih =>
    rw [Constant.nestingAll]
    exact Nat.max_le.2 ⟨h c List.mem_cons_self, ih fun c hc => h c (List.mem_cons_of_mem _ hc)⟩

/-- A constant is nested as deep as the call behind it, if there is one. -/
theorem nesting_constantWith {call : UInt16 → Except Failure DynamicCall} {n : Nat}
    (deep : ∀ index found, call index = .ok found → found.nesting ≤ n) {index : UInt16}
    {c : Constant} (h : p.constantWith call index = .ok c) : c.nesting ≤ n := by
  have plain : ∀ {c : Constant}, c.nesting = 0 → c.nesting ≤ n := fun same => by
    rw [same]
    exact Nat.zero_le n
  obtain ⟨entry, -, h⟩ := Traverse.bind_eq_ok_iff.1 h
  cases entry with
  | dynamic bootstrap nameAndType =>
    obtain ⟨found, known, h⟩ := Traverse.bind_eq_ok_iff.1 h
    cases h
    exact (Nat.le_of_eq (by rw [DynamicCall.toConstant, Constant.nesting, DynamicCall.nesting])).trans
      (deep index found known)
  | string text | classRef name | methodType desc | methodHandle kind reference =>
    obtain ⟨value, -, h⟩ := Traverse.bind_eq_ok_iff.1 h
    cases h
    exact plain (by rw [Constant.nesting]; intros; contradiction)
  | integer value | float bits | long value | double bits =>
    cases h
    exact plain (by rw [Constant.nesting]; intros; contradiction)
  | _ => cases h

theorem nesting_dynamicCallWithin {levels : Nat} {index : UInt16} {call : DynamicCall}
    (h : p.dynamicCallWithin t levels index = .ok call) : call.nesting ≤ levels := by
  induction levels generalizing index call with
  | zero => cases h
  | succ levels ih =>
    obtain ⟨⟨bootstrap, nameAndType⟩, -, h⟩ := Traverse.bind_eq_ok_iff.1 h
    dsimp only at h
    split at h
    · cases h
    · obtain ⟨⟨name, desc⟩, -, h⟩ := Traverse.bind_eq_ok_iff.1 h
      obtain ⟨args, known, h⟩ := Traverse.bind_eq_ok_iff.1 h
      obtain ⟨handle, -, h⟩ := Traverse.bind_eq_ok_iff.1 h
      cases h
      refine Nat.succ_le_succ (nestingAll_le fun c member => ?_)
      obtain ⟨i, -, found⟩ := Traverse.exists_of_mem_right (Traverse.mapM_eq_ok_iff.1 known) member
      exact nesting_constantWith (fun _ _ => ih) found

theorem nesting_dynamicCall {index : UInt16} {call : DynamicCall}
    (h : p.dynamicCall t index = .ok call) : call.nesting ≤ dynamicLevels :=
  nesting_dynamicCallWithin h

theorem nesting_constant {index : UInt16} {c : Constant} (h : p.constant t index = .ok c) :
    c.nesting ≤ dynamicLevels :=
  nesting_constantWith (fun _ _ => nesting_dynamicCall) h

end Pool

/-! ### One instruction -/

/-- What is known of an instruction that was read. -/
def Instruction.Read (insn : Instruction) : Prop :=
  ∃ op operand, insn = .op op operand ∧ op.Takes operand ∧ operand.Shallow
    ∧ operand.isEmptyTable = false

/-- Labels have nothing to do with the kind of an operand. -/
theorem Form.Takes.mapLabels {form : Form} {operand : Operand} (h : form.Takes operand)
    (f : Label → Label) : form.Takes (operand.mapLabels f) := by
  cases h <;> constructor

theorem Instruction.Read.mapLabels {insn : Instruction} (h : insn.Read) (f : Label → Label) :
    (insn.mapLabels f).Read := by
  obtain ⟨op, operand, rfl, ⟨form, known, takes⟩, shallow, keys⟩ := h
  refine ⟨op, operand.mapLabels f, rfl, ⟨form, known, takes.mapLabels f⟩, ?_, ?_⟩
  · cases operand <;> exact shallow
  · cases operand with
    | tableSwitch default low high targets => exact List.isEmpty_map.trans keys
    | _ => rfl

namespace BytecodeContext

variable (ctx : BytecodeContext)

/-- General opcodes that other bytes stand for have the form of their operand. -/
def generalForm (op : Opcode) : Bool :=
  match Opcode.form? op with
  | some (.shortVariable general _) => Opcode.form? general == some .variable
  | some (.wideBranch general) => Opcode.form? general == some .branch
  | _ => true

theorem all_generalForm : ∀ op : Opcode, generalForm op = true :=
  forall_byte (by decide +kernel)

variable {ctx} {offset : Nat} {op : Opcode}

theorem gives_op {form : Form} (known : Opcode.form? op = some form) {operand : Operand}
    (takes : form.Takes operand) (shallow : operand.Shallow)
    (keys : operand.isEmptyTable = false) : Gives (pure (.op op operand)) Instruction.Read :=
  .pure ⟨op, operand, rfl, ⟨form, known, takes⟩, shallow, keys⟩

theorem gives_constantAt (index : UInt16) : Gives (ctx.constantAt index) Instruction.Read :=
  (Gives.ofExcept fun c found => Pool.nesting_constant found).bind fun c shallow =>
    gives_op (show Opcode.form? _ = some .narrowConstant by decide) (.constant c) shallow rfl

/-- A switch over a range has a key. -/
theorem gives_tableOperand (base : Nat) : Gives (ctx.tableOperand base) fun operand =>
    ∃ default low high targets, operand = .tableSwitch default low high targets
      ∧ operand.isEmptyTable = false := by
  refine (Gives.any _).bind fun _ _ => (Gives.any _).bind fun default _ => ?_
  refine (Gives.any _).bind fun low _ => (Gives.any _).bind fun high _ => ?_
  refine .ite (fun _ => .malformed) fun order => .ite (fun _ => .malformed) fun _ => ?_
  refine (Gives.length_times _ _).bind fun targets count => ?_
  refine .pure ⟨default, low, high, targets, rfl, ?_⟩
  have some : low.toInt ≤ high.toInt := Int.not_lt.1 (mt Int32.lt_iff_toInt_lt.2 order)
  have pos : 0 < targets.length := by omega
  show targets.isEmpty = false
  exact List.isEmpty_eq_false_iff.2 (List.ne_nil_of_length_pos pos)

theorem gives_lookupOperand (base : Nat) : Gives (ctx.lookupOperand base) fun operand =>
    ∃ default pairs, operand = .lookupSwitch default pairs := by
  refine (Gives.any _).bind fun _ _ => (Gives.any _).bind fun default _ => ?_
  refine (Gives.any _).bind fun count _ => .ite (fun _ => .malformed) fun _ => ?_
  exact (Gives.any _).bind fun pairs _ => .pure ⟨default, pairs, rfl⟩

theorem gives_widened : Gives (widened offset) Instruction.Read := by
  refine (Gives.any _).bind fun op _ => .ite (fun _ => ?_) fun _ => .ite (fun takes => ?_) fun _ =>
    .malformed
  · exact (Gives.any _).bind fun index _ => (Gives.any _).bind fun amount _ =>
      gives_op (show Opcode.form? _ = some .increment by decide) (.increment _ _) trivial rfl
  · exact (Gives.any _).bind fun index _ =>
      gives_op (Opcode.form?_of_owns .variable (by decide) takes) (.slot _) trivial rfl

/-- **Every form gives an instruction that is known to be so.** -/
theorem gives_formed {form : Form} (known : Opcode.form? op = some form) :
    Gives (ctx.formed offset op form) Instruction.Read := by
  have any := fun {α : Type} (d : Decoder α) => Gives.any d
  cases form with
  | plain => exact gives_op known .plain trivial rfl
  | signedByte => exact (any _).bind fun value _ => gives_op known (.signedByte _) trivial rfl
  | signedShort => exact (any _).bind fun value _ => gives_op known (.signedShort _) trivial rfl
  | elementType => exact (any _).bind fun value _ => gives_op known (.elementType _) trivial rfl
  | narrowConstant => exact (any _).bind fun index _ => gives_constantAt _
  | wideConstant => exact (any _).bind fun index _ => gives_constantAt _
  | «variable» => exact (any _).bind fun index _ => gives_op known (.slot _) trivial rfl
  | shortVariable general index =>
    have form := all_generalForm op
    rw [generalForm, known] at form
    exact gives_op (beq_iff_eq.1 form) (.slot index) trivial rfl
  | increment =>
    exact (any _).bind fun index _ => (any _).bind fun amount _ =>
      gives_op known (.increment _ _) trivial rfl
  | branch => exact (any _).bind fun target _ => gives_op known (.branch _) trivial rfl
  | wideBranch general =>
    have form := all_generalForm op
    rw [generalForm, known] at form
    exact (any _).bind fun target _ => gives_op (beq_iff_eq.1 form) (.branch _) trivial rfl
  | tableSwitch =>
    refine (gives_tableOperand offset).bind fun operand
      ⟨default, low, high, targets, same, keys⟩ => ?_
    subst same
    exact gives_op known (.tableSwitch _ _ _ _) trivial keys
  | lookupSwitch =>
    refine (gives_lookupOperand offset).bind fun operand ⟨default, pairs, same⟩ => ?_
    subst same
    exact gives_op known (.lookupSwitch _ _) trivial rfl
  | field => exact (any _).bind fun found _ => gives_op known (.field _) trivial rfl
  | method => exact (any _).bind fun found _ => gives_op known (.method _ _) trivial rfl
  | interfaceMethod =>
    exact (any _).bind fun found _ => (any _).bind fun _ _ =>
      gives_op known (.interfaceMethod _ _) trivial rfl
  | callSite =>
    exact (any _).bind fun index _ => (Gives.ofExcept fun call found =>
      Pool.nesting_dynamicCall found).bind fun call shallow => (any _).bind fun _ _ =>
        gives_op known (.callSite call) shallow rfl
  | type => exact (any _).bind fun name _ => gives_op known (.type _) trivial rfl
  | multiArray =>
    exact (any _).bind fun desc _ => (any _).bind fun dims _ =>
      gives_op known (.multiArray _ _) trivial rfl
  | wide => exact gives_widened

theorem gives_operand : Gives (ctx.operand offset op) Instruction.Read := by
  unfold operand
  cases known : Opcode.form? op with
  | none => exact .malformed
  | some form => exact gives_formed known

/-! ### All instructions -/

/-- What is known of instructions that were read between two offsets. -/
structure Rows (first finish : Nat) (rows : List (Nat × Instruction)) : Prop where
  read : ∀ row ∈ rows, row.2.Read
  inside : ∀ row ∈ rows, first ≤ row.1 ∧ row.1 < finish
  ascend : rows.Pairwise fun a b => a.1 < b.1

theorem ReadsOp.read {chunk : Bytes} {insn : Instruction} (h : ctx.ReadsOp offset chunk insn) :
    insn.Read := by
  obtain ⟨first, rest, -, row⟩ := h
  exact gives_operand _ _ _ (row [])

theorem Tiles.rows {chunks : List Bytes} {rows : List (Nat × Instruction)}
    (tiles : ctx.Tiles offset chunks rows) :
    Rows offset (offset + chunks.flatten.length) rows where
  read := fun row member => by
    obtain ⟨chunk, reads⟩ := tiles.reads row member
    exact reads.read
  inside := tiles.inside
  ascend := tiles.ascend

/-- **Whatever instructions are read** are known to be so. -/
theorem rows_instructions {code : Bytes} {rows : List (Nat × Instruction)}
    (h : ctx.instructions code = .ok rows) :
    Rows 0 code.length rows ∧ (code ≠ [] → rows ≠ []) := by
  obtain ⟨chunks, rfl, tiles⟩ := instructions_eq_ok_iff.1 h
  refine ⟨Nat.zero_add chunks.flatten.length ▸ tiles.rows, fun some none => some ?_⟩
  subst none
  cases tiles
  rfl

end BytecodeContext

end ClassInstrument
