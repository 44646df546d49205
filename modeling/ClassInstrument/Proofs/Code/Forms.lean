import Mathlib.Tactic.SplitIfs
import ClassInstrument.Code.Emit
import ClassInstrument.Code.Bytecode
import ClassInstrument.Proofs.Bytes.Traverse
import ClassInstrument.Proofs.Opcode

/-!
# Instructions in general form

The writer picks the shortest form of an instruction, the reader gives back the general one.  Which
one that is depends on the opcode and, for some, on how large the operand is.

* `Form.Takes`, `Opcode.Takes` — the operands that the reader gives for an opcode;
* `Operand.sorted` — the operand as it is read back: a switch has its keys in order;
* `Item.takes_or_bare` — what is written: an operand that the opcode takes, or a byte with none;
* `Item.length_opBytes` — **an instruction takes as many bytes as it was laid out with**.
-/

namespace ClassInstrument

/-! ### Operands of opcodes -/

/-- The operands that the reader gives for the general opcodes of a form. -/
inductive Form.Takes : Form → Operand → Prop where
  | plain : Takes .plain .none
  | signedByte (value : Int32) : Takes .signedByte (.int value)
  | signedShort (value : Int32) : Takes .signedShort (.int value)
  | elementType (value : Int32) : Takes .elementType (.int value)
  | constant (c : Constant) : Takes .narrowConstant (.load c)
  | slot (index : UInt16) : Takes .variable (.var index)
  | increment (index : UInt16) (amount : Int16) : Takes .increment (.increment index amount)
  | branch (target : Label) : Takes .branch (.jump target)
  | tableSwitch (default : Label) (low high : Int32) (targets : List Label) :
    Takes .tableSwitch (.tableSwitch default low high targets)
  | lookupSwitch (default : Label) (pairs : List (Int32 × Label)) :
    Takes .lookupSwitch (.lookupSwitch default pairs)
  | field (member : MemberRef) : Takes .field (.field member)
  | method (member : MemberRef) (onInterface : Bool) : Takes .method (.method member onInterface)
  | interfaceMethod (member : MemberRef) (onInterface : Bool) :
    Takes .interfaceMethod (.method member onInterface)
  | callSite (call : DynamicCall) : Takes .callSite (.invokeDynamic call)
  | type (name : String) : Takes .type (.type name)
  | multiArray (desc : String) (dims : UInt8) : Takes .multiArray (.multiArray desc dims)

/-- The opcode is a general one, and the operand is of the kind that the reader gives for it. -/
def Opcode.Takes (op : Opcode) (operand : Operand) : Prop :=
  ∃ form, Opcode.form? op = some form ∧ form.Takes operand

/-- The operand with the keys of a switch in order. -/
def Operand.sorted : Operand → Operand
  | .lookupSwitch default pairs => .lookupSwitch default (pairs.mergeSort fun a b => a.1 ≤ b.1)
  | operand => operand

/-- Order and labels have nothing to do with each other. -/
theorem Operand.sorted_mapLabels (f : Label → Label) (operand : Operand) :
    (operand.mapLabels f).sorted = operand.sorted.mapLabels f := by
  cases operand with
  | lookupSwitch default pairs =>
    simp only [mapLabels, sorted]
    rw [List.map_mergeSort]
    intro a _ b _
    rfl
  | _ => rfl

/-! ### Lengths -/

namespace Item

theorem length_variableBytes (op : Opcode) (index : UInt16) :
    (variableBytes op index).length
      = if op != Opcode.ret && index ≤ 3 then 1 else if index ≤ 255 then 2 else 4 := by
  unfold variableBytes
  split_ifs <;> rfl

theorem length_incrementBytes (index : UInt16) (amount : Int16) :
    (incrementBytes index amount).length
      = if index ≤ 255 && fitsByte amount.toInt then 3 else 6 := by
  unfold incrementBytes
  split_ifs <;> rfl

theorem length_loadBytes (c : Constant) (index : UInt16) :
    (loadBytes c index).length = if !c.isWide && index ≤ 255 then 2 else 3 := by
  unfold loadBytes
  by_cases wide : c.isWide = true
  · rw [if_pos wide, if_neg (by simp [wide])]
    rfl
  · by_cases low : index ≤ 255
    · rw [if_neg wide, if_pos low, if_pos (by simp [wide, low])]
      rfl
    · rw [if_neg wide, if_neg low, if_neg (by simp [low])]
      rfl

theorem length_farBytes {labels : LabelTable} {offset : Nat} {target : Label} {bytes : Bytes}
    (h : farBytes labels offset target = .ok bytes) : bytes.length = 4 := by
  unfold farBytes at h
  cases d : labels.distance offset target with
  | error e => rw [d] at h; cases h
  | ok distance =>
    rw [d] at h
    cases h
    rfl

/-- Chunks of one length. -/
theorem length_flatten_of_forall₂ {α : Type} {R : α → Bytes → Prop} (width : Nat)
    {l : List α} {chunks : List Bytes} (h : List.Forall₂ R l chunks)
    (each : ∀ a bytes, R a bytes → bytes.length = width) :
    chunks.flatten.length = width * l.length := by
  induction h with
  | nil => rfl
  | cons first _ ih =>
    rw [List.flatten_cons, List.length_append, ih, each _ _ first, List.length_cons,
      Nat.mul_succ, Nat.add_comm]

theorem length_tableBytes {labels : LabelTable} {offset : Nat} {default : Label}
    {low high : Int32} {targets : List Label} {bytes : Bytes}
    (h : tableBytes labels offset default low high targets = .ok bytes) :
    bytes.length = 1 + switchPadding offset + 12 + 4 * targets.length := by
  unfold tableBytes at h
  split at h
  · cases h
  · obtain ⟨front, hfront, h⟩ := Traverse.bind_eq_ok_iff.1 h
    obtain ⟨chunks, hchunks, h⟩ := Traverse.bind_eq_ok_iff.1 h
    cases h
    have entries := length_flatten_of_forall₂ 4 (Traverse.mapM_eq_ok_iff.1 hchunks)
      fun _ _ => length_farBytes
    have words : ∀ value : Int32, (Word.encode value).length = 4 := Word.length_encode
    simp only [List.length_append, entries, length_farBytes hfront, words, switchHead,
      List.length_cons, List.length_replicate]
    omega

theorem length_lookupBytes {labels : LabelTable} {offset : Nat} {default : Label}
    {pairs : List (Int32 × Label)} {bytes : Bytes}
    (h : lookupBytes labels offset default pairs = .ok bytes) :
    bytes.length = 1 + switchPadding offset + 8 + 8 * pairs.length := by
  obtain ⟨front, hfront, h⟩ := Traverse.bind_eq_ok_iff.1 h
  obtain ⟨chunks, hchunks, h⟩ := Traverse.bind_eq_ok_iff.1 h
  cases h
  have words : ∀ value : Int32, (Word.encode value).length = 4 := Word.length_encode
  have entries := length_flatten_of_forall₂ 8 (Traverse.mapM_eq_ok_iff.1 hchunks) (by
    intro pair bytes hpair
    obtain ⟨far, hfar, rfl⟩ := Traverse.map_eq_ok_iff.1 hpair
    rw [List.length_append, length_farBytes hfar, words])
  simp only [List.length_append, entries, length_farBytes hfront, words, switchHead,
    List.length_cons, List.length_replicate, List.length_mergeSort]
  omega

theorem length_jumpBytes {labels : LabelTable} {offset : Nat} {far : Bool} {op : Opcode}
    {target : Label} {bytes : Bytes} (h : jumpBytes labels offset far op target = .ok bytes) :
    bytes.length = if far then 5 else 3 := by
  obtain ⟨distance, -, h⟩ := Traverse.bind_eq_ok_iff.1 h
  cases far <;> cases h <;> rfl

theorem length_interfaceBytes {op : Opcode} {member : MemberRef} {index : UInt16} {bytes : Bytes}
    (h : interfaceBytes op member index = .ok bytes) : bytes.length = 5 := by
  obtain ⟨type, -, h⟩ := Traverse.bind_eq_ok_iff.1 h
  dsimp only at h
  split at h
  · cases h
    rfl
  · cases h

/-- **What is written** has an operand that its opcode takes, or none at all.  The bytes without an
operand that no general opcode has are those that name a low variable, and those that name no
instruction. -/
theorem takes_or_bare {labels : LabelTable} {offset : Nat} {index : UInt16} {far : Bool}
    {op : Opcode} {operand : Operand} {bytes : Bytes}
    (h : opBytes labels offset index far op operand = .ok bytes) :
    op.Takes operand ∨ operand = .none ∧ bytes = [op]
      ∧ (op.form? = none ∨ ∃ general v, op.form? = some (.shortVariable general v)) := by
  unfold opBytes at h
  cases known : op.form? with
  | none =>
    rw [known] at h
    cases operand with
    | none =>
      cases h
      exact .inr ⟨rfl, rfl, .inl rfl⟩
    | _ => cases h
  | some form =>
    rw [known] at h
    cases form with
    | shortVariable general v =>
      cases operand with
      | none =>
        cases h
        exact .inr ⟨rfl, rfl, .inr ⟨general, v, rfl⟩⟩
      | _ => cases h
    | _ =>
      cases operand with
      | _ => first | exact .inl ⟨_, known, by constructor⟩ | cases h

theorem length_opBytes_of_takes {labels : LabelTable} {offset : Nat} {index : UInt16} {far : Bool}
    {op : Opcode} {operand : Operand} (takes : op.Takes operand) {bytes : Bytes}
    (h : opBytes labels offset index far op operand = .ok bytes) :
    bytes.length = opSize offset index far op operand := by
  obtain ⟨form, known, takes⟩ := takes
  unfold opBytes at h
  rw [known] at h
  cases takes with
  | plain | field member | callSite call | type name | multiArray desc dims =>
    cases h
    rfl
  | signedByte value | signedShort value | elementType value =>
    obtain rfl := eq_of_beq (Opcode.owns_of_form? known)
    dsimp only at h
    split at h <;> cases h
    rfl
  | constant c =>
    cases h
    exact length_loadBytes c index
  | slot v =>
    cases h
    exact length_variableBytes op v
  | increment v amount =>
    cases h
    exact length_incrementBytes v amount
  | branch target => exact length_jumpBytes h
  | tableSwitch default low high targets => exact length_tableBytes h
  | lookupSwitch default pairs => exact length_lookupBytes h
  | method member onInterface =>
    cases h
    have owns := Opcode.owns_of_form? known
    have other : (op == Opcode.invokeinterface) = false := beq_eq_false_iff_ne.2 (by
      rintro rfl
      exact absurd owns (by decide))
    rw [opSize, other]
    rfl
  | interfaceMethod member onInterface =>
    obtain rfl := eq_of_beq (Opcode.owns_of_form? known)
    exact length_interfaceBytes h

/-- **An instruction takes as many bytes as it was laid out with.** -/
theorem length_opBytes {labels : LabelTable} {offset : Nat} {index : UInt16} {far : Bool}
    {op : Opcode} {operand : Operand} {bytes : Bytes}
    (h : opBytes labels offset index far op operand = .ok bytes) :
    bytes.length = opSize offset index far op operand := by
  rcases takes_or_bare h with takes | ⟨rfl, rfl, -⟩
  · exact length_opBytes_of_takes takes h
  · rfl

end Item

end ClassInstrument
