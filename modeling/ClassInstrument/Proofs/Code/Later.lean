import ClassInstrument.Code.Decode
import ClassInstrument.Proofs.Bytes.Gives
import ClassInstrument.Proofs.Pool.Later

/-!
# Bodies in later tables

The bytes of a body refer to constants, and constants of bootstrap methods, by their indices.  Where
the tables only grew, a reader that understood the bytes understands them as before: every
instruction, every exception range, every table behind the code.

* `BytecodeContext.follows_operand`, `BytecodeContext.persists_instructions` — instructions;
* `StackMap.follows_decode` — frames, which refer to classes;
* `Code.follows_decodeAttribute` — the tables behind the code, which refer to texts;
* `Code.persists_decode` — **a whole body**.
-/

namespace ClassInstrument

open Decoder Traverse

variable {t t' : ConstantTables} (later : t ≤ t') (length : Nat)

/-- What instructions in a body of some length refer to. -/
def ConstantTables.context (t : ConstantTables) (length : Nat) : BytecodeContext :=
  ⟨t.pool, t.bootstrap, length⟩

/-! ### Instructions -/

namespace BytecodeContext

include later

theorem follows_constantAt (index : UInt16) :
    Follows ((t.context length).constantAt index) ((t'.context length).constantAt index) id :=
  (Follows.ofExcept (Pool.persists_constant later index)).bind fun _ => Follows.refl _

theorem follows_memberOperand :
    Follows (t.context length).memberOperand (t'.context length).memberOperand id :=
  (Follows.refl _).bind fun index => Follows.ofExcept (Pool.persists_memberRef later index)

theorem follows_typeOperand :
    Follows (t.context length).typeOperand (t'.context length).typeOperand id :=
  (Follows.refl _).bind fun index => Follows.ofExcept (Pool.persists_className later index)

/-- The forms with an operand from the constant pool; all others are read without it. -/
theorem follows_formed (offset : Nat) (op : Opcode) (form : Form) :
    Follows ((t.context length).formed offset op form) ((t'.context length).formed offset op form)
      id := by
  cases form with
  | narrowConstant =>
    exact (Follows.refl _).bind fun index => follows_constantAt later length _
  | wideConstant =>
    exact (Follows.refl _).bind fun index => follows_constantAt later length index
  | field | method =>
    exact (follows_memberOperand later length).bind fun _ => Follows.refl _
  | interfaceMethod =>
    exact (follows_memberOperand later length).bind fun _ => Follows.refl _
  | callSite =>
    exact (Follows.refl _).bind fun index =>
      (Follows.ofExcept (Pool.persists_dynamicCall later index)).bind fun _ => Follows.refl _
  | type | multiArray => exact (follows_typeOperand later length).bind fun _ => Follows.refl _
  | _ => exact Follows.refl _

theorem follows_operand (offset : Nat) (op : Opcode) :
    Follows ((t.context length).operand offset op) ((t'.context length).operand offset op) id := by
  unfold operand
  cases op.form? with
  | none => exact Follows.refl _
  | some form => exact follows_formed later length offset op form

theorem persists_instructionsOnto (rounds : Nat) (read : List (Nat × Instruction)) (c : Cursor) :
    Persists ((t.context length).instructionsOnto rounds read c)
      ((t'.context length).instructionsOnto rounds read c) := by
  induction rounds generalizing read c with
  | zero => obtain ⟨position, rest⟩ := c; cases rest <;> exact Persists.refl _
  | succ rounds ih =>
    obtain ⟨position, rest⟩ := c
    cases rest with
    | nil => exact Persists.refl _
    | cons op rest =>
      intro all h
      rw [instructionsOnto] at h ⊢
      split at h
      · next insn cursor found =>
        rw [follows_operand later length position op _ insn cursor found]
        exact ih ((position, insn) :: read) cursor all h
      · cases h

theorem persists_instructions (code : Bytes) :
    Persists ((t.context length).instructions code) ((t'.context length).instructions code) :=
  persists_instructionsOnto later length code.length [] (.start code)

/-! ### Frames -/

theorem follows_verificationType :
    Follows (t.context length).verificationType (t'.context length).verificationType id := by
  refine (Follows.refl _).bind fun tag => ?_
  dsimp only [id]
  split
  all_goals first
    | exact (follows_typeOperand later length).bind fun _ => Follows.refl _
    | exact Follows.refl _

end BytecodeContext

section Frames

include later

theorem FrameChange.follows_decode : Follows (FrameChange.decode (t.context length))
    (FrameChange.decode (t'.context length)) id := by
  have type := BytecodeContext.follows_verificationType later length
  refine (Follows.refl _).bind fun kind => ?_
  unfold decodeBody
  refine Follows.ite (Follows.refl _) (Follows.ite (type.bind fun _ => Follows.refl _)
    (Follows.ite (Follows.refl _) ((Follows.refl _).bind fun delta => ?_)))
  refine Follows.ite (type.bind fun _ => Follows.refl _) (Follows.ite (Follows.refl _)
    (Follows.ite (Follows.refl _) (Follows.ite ?_ ?_)))
  · exact (type.times_same _).bind fun _ => Follows.refl _
  · exact type.table_same.bind fun _ => type.table_same.bind fun _ => Follows.refl _

theorem StackMap.follows_decode (entry : Frame) :
    Follows (StackMap.decode (t.context length) entry) (StackMap.decode (t'.context length) entry)
      id :=
  (Follows.refl _).bind fun count => Follows.iterate (fun _ =>
    (FrameChange.follows_decode later length).bind fun _ => Follows.refl _) count.toNat (start entry)

end Frames

/-! ### Tables behind the code -/

namespace Code

theorem follows_decodeRows {row row' : Marks → Decoder Marks}
    (each : ∀ marks, Follows (row marks) (row' marks) id) (marks : Marks) :
    Follows (decodeRows row marks) (decodeRows row' marks) id :=
  (Follows.refl _).bind fun count => Follows.iterate each count.toNat marks

include later

theorem follows_decodeRange :
    Follows (decodeRange (t.context length)) (decodeRange (t'.context length)) id := by
  refine (Follows.refl _).bind fun start => (Follows.refl _).bind fun finish => ?_
  refine (Follows.refl _).bind fun handler => (Follows.refl _).bind fun index => ?_
  exact (Follows.ofExcept (Pool.persists_optionalClassName later index)).bind fun _ =>
    Follows.refl _

theorem follows_decodeName :
    Follows (decodeName (t.context length)) (decodeName (t'.context length)) id :=
  (Follows.refl _).bind fun index => Follows.ofExcept (Pool.persists_utf8 later index)

theorem follows_decodeVariable (marks : Marks) :
    Follows (decodeVariable (t.context length) marks) (decodeVariable (t'.context length) marks)
      id := by
  refine (Follows.refl _).bind fun start => (Follows.refl _).bind fun scope => ?_
  refine (follows_decodeName later length).bind fun name => ?_
  exact (follows_decodeName later length).bind fun desc => Follows.refl _

theorem follows_decodeSignature (marks : Marks) :
    Follows (decodeSignature (t.context length) marks) (decodeSignature (t'.context length) marks)
      id := by
  refine (Follows.refl _).bind fun start => (Follows.refl _).bind fun scope => ?_
  refine (Follows.refl _).bind fun _ => (follows_decodeName later length).bind fun signature => ?_
  exact Follows.refl _

/-- Lines refer to nothing, variables and their types to texts, and frames to classes. -/
theorem persists_decodeTable (header : MethodHeader) (marks : Marks) (body : Bytes)
    (table : CodeTable) :
    Persists (decodeTable (t.context length) header marks body table)
      (decodeTable (t'.context length) header marks body table) := by
  cases table with
  | lines => exact Persists.refl _
  | localVariables =>
    exact fun _ => (follows_decodeRows (follows_decodeVariable later length) marks).onBytes
  | variableTypes =>
    exact fun _ => (follows_decodeRows (follows_decodeSignature later length) marks).onBytes
  | frames =>
    refine (Persists.refl _).bind fun entry => Persists.bind (fun _ => ?_) fun _ => Persists.refl _
    exact (StackMap.follows_decode later length entry).onBytes

theorem follows_decodeAttribute (header : MethodHeader) (options : ReadOptions) (marks : Marks) :
    Follows (decodeAttribute (t.context length) header options marks)
      (decodeAttribute (t'.context length) header options marks) id := by
  refine (follows_decodeName later length).bind fun name => (Follows.refl _).bind fun size => ?_
  refine (Follows.refl _).bind fun body => ?_
  dsimp only [id]
  cases CodeTable.ofName? name with
  | none => exact Follows.refl _
  | some table =>
    exact Follows.ite (Follows.ofExcept (persists_decodeTable later length header marks body table))
      (Follows.refl _)

/-! ### Whole bodies -/

theorem follows_decoder (header : MethodHeader) (options : ReadOptions) :
    Follows (decoder t.pool t.bootstrap header options)
      (decoder t'.pool t'.bootstrap header options) id := by
  refine (Follows.refl _).bind fun maxStack => (Follows.refl _).bind fun maxLocals => ?_
  refine (Follows.refl _).bind fun length => Follows.ite (Follows.refl _) ?_
  refine (Follows.refl _).bind fun bytes => ?_
  refine (Follows.ofExcept (BytecodeContext.persists_instructions later length.toNat bytes)).bind
    fun code => ?_
  refine (follows_decodeRange later length.toNat).table_same.bind fun ranges => ?_
  refine (Follows.refl _).bind fun count => ?_
  refine (Follows.iterate (follows_decodeAttribute later length.toNat header options) count.toNat
    _).bind fun marks => ?_
  exact Follows.refl _

/-- **A body is read the same in later tables**, whatever the reader leaves out. -/
theorem persists_decode (header : MethodHeader) (options : ReadOptions) (bytes : Bytes) :
    Persists (decode t.pool t.bootstrap header options bytes)
      (decode t'.pool t'.bootstrap header options bytes) :=
  fun _ => (follows_decoder later header options).onBytes

end Code

end ClassInstrument
