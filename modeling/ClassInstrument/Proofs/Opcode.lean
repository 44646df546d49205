import ClassInstrument.Code.Bytecode
import ClassInstrument.Code.Emit

/-!
# Facts about opcodes

What the parts of the library have to agree on about single opcodes is checked for all 256 of them.

* `forall_byte` — what is checked for all numbers holds for every byte;
* `Form.owns` — the general opcodes of a form;
* `Opcode.owns_of_form?`, `Opcode.form?_of_owns` — **an opcode is read in the form that owns it**;
* `Opcode.form?_shortLoad`, `Opcode.form?_shortStore` — the bytes of low locals.
-/

namespace ClassInstrument

/-- What holds for every number below 256 holds for every byte. -/
theorem forall_byte {P : UInt8 → Prop} (h : ∀ n, n < 256 → P (UInt8.ofNat n)) (byte : UInt8) :
    P byte := by
  have known := h byte.toNat byte.toNat_lt
  rwa [UInt8.ofNat_toNat] at known

/-! ### General opcodes -/

/-- The opcodes of a form, if general ones have it. -/
def Form.owns (op : Opcode) : Form → Bool
  | .plain => op.isPlain
  | .signedByte => op == Opcode.bipush
  | .signedShort => op == Opcode.sipush
  | .elementType => op == Opcode.newarray
  | .narrowConstant => op == Opcode.ldc
  | .variable => op.usesVariable
  | .increment => op == Opcode.iinc
  | .branch => op.isNearBranch
  | .tableSwitch => op == Opcode.tableswitch
  | .lookupSwitch => op == Opcode.lookupswitch
  | .field => Opcode.getstatic ≤ op && op ≤ Opcode.putfield
  | .method => Opcode.invokevirtual ≤ op && op ≤ Opcode.invokestatic
  | .interfaceMethod => op == Opcode.invokeinterface
  | .callSite => op == Opcode.invokedynamic
  | .type => op.namesType
  | .multiArray => op == Opcode.multianewarray
  | .wideConstant | .shortVariable .. | .wideBranch _ | .wide => true

theorem Form.owns_field_iff {op : Opcode} :
    Form.field.owns op = true ↔ Opcode.getstatic ≤ op ∧ op ≤ Opcode.putfield := by
  simp [owns]

theorem Form.owns_method_iff {op : Opcode} :
    Form.method.owns op = true ↔ Opcode.invokevirtual ≤ op ∧ op ≤ Opcode.invokestatic := by
  simp [owns]

/-- The forms that several general opcodes have. -/
def Form.shared : List Form := [.plain, .variable, .branch, .field, .method, .type]

namespace Opcode

theorem all_owns : ∀ op : Opcode, ((form? op).all (Form.owns op)
    && Form.shared.all fun form => !form.owns op || form? op == some form) = true :=
  -- both directions at once, so that the form of a byte is computed once
  forall_byte (by decide +kernel)

theorem owns_of_form? {op : Opcode} {form : Form} (h : form? op = some form) :
    form.owns op = true := by
  have all := (Bool.and_eq_true_iff.1 (all_owns op)).1
  rwa [h] at all

theorem form?_of_owns {op : Opcode} (form : Form) (shared : form ∈ Form.shared)
    (h : form.owns op = true) : form? op = some form := by
  have all := List.all_eq_true.1 (Bool.and_eq_true_iff.1 (all_owns op)).2 form shared
  rw [h] at all
  exact eq_of_beq all

/-- A form that does not belong to an opcode. -/
theorem beq_false {op other : Opcode} (h : (op != other) = true) : (op == other) = false :=
  Bool.not_eq_true' _ ▸ h

/-! ### Bytes of low locals -/

/-- The bytes that load a low local: four for each type. -/
theorem form?_shortLoad : ∀ op : Opcode, iload ≤ op ∧ op ≤ aload → ∀ index : UInt16, index < 4 →
    form? (iload0 + 4 * (op - iload) + index.toUInt8) = some (.shortVariable op index) := by
  have known : ∀ op : Opcode, iload ≤ op ∧ op ≤ aload → ∀ index < 4,
      form? (iload0 + 4 * (op - iload) + (UInt16.ofNat index).toUInt8)
        = some (.shortVariable op (UInt16.ofNat index)) := forall_byte (by decide +kernel)
  intro op load index low
  have found := known op load index.toNat (UInt16.lt_iff_toNat_lt.1 low)
  rwa [UInt16.ofNat_toNat] at found

/-- The bytes that store into a low local: four for each type. -/
theorem form?_shortStore : ∀ op : Opcode, istore ≤ op ∧ op ≤ astore → ∀ index : UInt16, index < 4 →
    form? (istore0 + 4 * (op - istore) + index.toUInt8) = some (.shortVariable op index) := by
  have known : ∀ op : Opcode, istore ≤ op ∧ op ≤ astore → ∀ index < 4,
      form? (istore0 + 4 * (op - istore) + (UInt16.ofNat index).toUInt8)
        = some (.shortVariable op (UInt16.ofNat index)) := forall_byte (by decide +kernel)
  intro op store index low
  have found := known op store index.toNat (UInt16.lt_iff_toNat_lt.1 low)
  rwa [UInt16.ofNat_toNat] at found

end Opcode

end ClassInstrument
