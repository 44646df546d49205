import ClassInstrument.Code.Decode

/-!
# Reading looks at slots only

A pool and a bootstrap table know the first index of everything that they hold, but only a writer
asks for it.  Two tables with the same slots and the same methods are the same to a reader, in
whatever order their indices were found out.

* `Pool.dynamicCallWithin_congr` — calls, whose arguments are followed level by level;
* `BytecodeContext.instructions_congr` — the instructions of a body;
* `Code.decode_congr` — **a whole body**.
-/

namespace ClassInstrument

/-! ### Constants -/

namespace Pool

section Slots

variable {slots : Array Entry} {lookup lookup' : Std.HashMap Entry UInt16}

/-- What is computed from a call is the same if the call is. -/
theorem constantWith_congr {call call' : UInt16 → Except Failure DynamicCall} (h : call' = call) :
    constantWith ⟨slots, lookup'⟩ call' = constantWith ⟨slots, lookup⟩ call := by
  rw [h]
  rfl

variable {methods : Array BootstrapMethod} {known known' : Std.HashMap BootstrapMethod UInt16}

/-- Calls are the same on every level that is followed. -/
theorem dynamicCallWithin_congr (levels : Nat) :
    dynamicCallWithin ⟨slots, lookup'⟩ ⟨methods, known'⟩ levels
      = dynamicCallWithin ⟨slots, lookup⟩ ⟨methods, known⟩ levels := by
  induction levels with
  | zero => rfl
  | succ levels ih =>
    funext index
    simp only [dynamicCallWithin]
    rw [constantWith_congr ih]
    rfl

theorem dynamicCall_congr : dynamicCall ⟨slots, lookup'⟩ ⟨methods, known'⟩
    = dynamicCall ⟨slots, lookup⟩ ⟨methods, known⟩ :=
  dynamicCallWithin_congr dynamicLevels

theorem constant_congr : constant ⟨slots, lookup'⟩ ⟨methods, known'⟩
    = constant ⟨slots, lookup⟩ ⟨methods, known⟩ := by
  funext index
  exact congrFun (constantWith_congr dynamicCall_congr) index

end Slots

end Pool

/-! ### Instructions -/

namespace BytecodeContext

variable {slots : Array Entry} {lookup lookup' : Std.HashMap Entry UInt16}
  {methods : Array BootstrapMethod} {known known' : Std.HashMap BootstrapMethod UInt16}
  {length : Nat}

theorem constantAt_congr : constantAt ⟨⟨slots, lookup'⟩, ⟨methods, known'⟩, length⟩
    = constantAt ⟨⟨slots, lookup⟩, ⟨methods, known⟩, length⟩ := by
  unfold constantAt
  dsimp only
  rw [Pool.constant_congr]

theorem formed_congr (offset : Nat) (op : Opcode) (form : Form) :
    formed ⟨⟨slots, lookup'⟩, ⟨methods, known'⟩, length⟩ offset op form
      = formed ⟨⟨slots, lookup⟩, ⟨methods, known⟩, length⟩ offset op form := by
  cases form with
  | narrowConstant =>
    unfold formed
    dsimp only
    rw [constantAt_congr]
  | wideConstant =>
    unfold formed
    dsimp only
    rw [constantAt_congr]
  | callSite =>
    unfold formed
    dsimp only
    rw [Pool.dynamicCall_congr]
  | _ => rfl

variable (lookup known) in
theorem operand_congr : operand ⟨⟨slots, lookup'⟩, ⟨methods, known'⟩, length⟩
    = operand ⟨⟨slots, lookup⟩, ⟨methods, known⟩, length⟩ := by
  funext offset op
  unfold operand
  cases Opcode.form? op with
  | none => rfl
  | some form => exact formed_congr offset op form

theorem instructionsOnto_congr (rounds : Nat) (read : List (Nat × Instruction)) (c : Cursor) :
    instructionsOnto ⟨⟨slots, lookup'⟩, ⟨methods, known'⟩, length⟩ rounds read c
      = instructionsOnto ⟨⟨slots, lookup⟩, ⟨methods, known⟩, length⟩ rounds read c := by
  induction rounds generalizing read c with
  | zero => obtain ⟨position, rest⟩ := c; cases rest <;> rfl
  | succ rounds ih =>
    obtain ⟨position, rest⟩ := c
    cases rest with
    | nil => rfl
    | cons op rest =>
      simp only [instructionsOnto, operand_congr lookup known, ih]

variable (lookup known) in
theorem instructions_congr : instructions ⟨⟨slots, lookup'⟩, ⟨methods, known'⟩, length⟩
    = instructions ⟨⟨slots, lookup⟩, ⟨methods, known⟩, length⟩ := by
  funext code
  exact instructionsOnto_congr code.length [] (.start code)

end BytecodeContext

/-! ### Bodies -/

/-- **A body is read the same** from tables with the same slots and the same methods. -/
theorem Code.decode_congr {p p' : Pool} {b b' : BootstrapTable} (slots : p'.slots = p.slots)
    (methods : b'.methods = b.methods) : decode p' b' = decode p b := by
  obtain ⟨slots', lookup'⟩ := p'
  obtain ⟨methods', known'⟩ := b'
  obtain ⟨_, lookup⟩ := p
  obtain ⟨_, known⟩ := b
  cases slots
  cases methods
  funext header options bytes
  unfold decode decoder
  dsimp only
  simp only [BytecodeContext.instructions_congr lookup known]
  rfl

end ClassInstrument
