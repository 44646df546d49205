import ClassInstrument.Proofs.Opcode
import ClassInstrument.Typing.Transfer

/-!
# Kinds of instructions

The table of instructions says of what kind an opcode is, and whoever goes through the kinds takes
something for granted about the opcodes of each.  All of it is checked for every opcode at once, so
that the kind of a byte is looked up a single time.

* `Slot.width` — the slots that a value takes;
* `Action.effect?`, `Action.balanced` — the effect of a kind is that of the other table;
* `Action.fewCopies` — copies take at most two slots more than what is copied;
* `Action.knownFor` — the types in the table are of finished objects, apart from `new`;
* `Action.storesFor` — which instructions store values of one slot, and which ones of two;
* `Opcode.all_actions` — **every kind is what it is taken for**.
-/

namespace ClassInstrument

/-- The slots that a value of a type takes. -/
def Slot.width (slot : Slot) : Nat := (Slot.widen slot).length

theorem Slot.width_le (slot : Slot) : slot.width ≤ 2 := by
  unfold width widen
  split <;> simp

theorem Slot.width_narrow {slot : Slot} (narrow : slot.isWide = false) : slot.width = 1 := by
  simp [width, widen, narrow]

/-- The effect of an instruction of a kind that tells it. -/
def Action.effect? : Action → Option StackEffect
  | .replace count result => some ⟨count, (result.map Slot.width).getD 0⟩
  | .load type => some ⟨0, type.width⟩
  | .loadReference | .create => some ⟨0, 1⟩
  | .loadElement => some ⟨2, 1⟩
  | .store wide => some ⟨if wide then 2 else 1, 0⟩
  | .shuffle count copies => some ⟨count, copies.length⟩
  | .increment => some ⟨0, 0⟩
  | .createPrimitives | .createReferences | .cast => some ⟨1, 1⟩
  | .constant | .field | .call | .callSite | .createMulti | .subroutine => none

/-- What effects take for granted about an opcode of some kind. -/
def Action.belongs (op : Opcode) : Action → Bool
  | .loadReference => op == Opcode.aload
  | .loadElement => op == Opcode.aaload
  | .shuffle count copies => copies.all (· < count)
  | .constant => op == Opcode.ldc
  | .field => op != Opcode.ldc && op.isFieldAccess
  | .call => op != Opcode.ldc && !op.isFieldAccess && op.isInvoke
  | .callSite => op == Opcode.invokedynamic
  | .createMulti => op == Opcode.multianewarray
  | _ => true

/-- Both tables say the same of an opcode of some kind.  Subroutines are measured, but not
typed. -/
def Action.balanced (op : Opcode) (action : Action) : Bool :=
  action.belongs op && (action == .subroutine || op.stackEffect? == action.effect?)

/-- Copies take at most two slots more than what is copied. -/
def Action.fewCopies : Action → Bool
  | .shuffle count copies => copies.length ≤ count + 2
  | _ => true

/-- The types that the table of instructions gives are of finished objects, and only `new` creates
others. -/
def Action.knownFor (op : Opcode) : Action → Bool
  | .replace _ (some (.uninitialized _)) | .load (.uninitialized _) => false
  | .create => op == Opcode.new
  | _ => true

/-- Which instructions store values of one slot, and which ones of two. -/
def Action.storesFor (op : Opcode) : Action → Bool
  | .store wide =>
    if wide then [Opcode.lload, Opcode.dload, Opcode.lstore, Opcode.dstore].contains op
    else [Opcode.istore, Opcode.fstore, Opcode.astore].contains op
  | _ => true

namespace Opcode

/-- **Every kind is what it is taken for.** -/
theorem all_actions : ∀ op : Opcode, (action? op).all (fun action => action.balanced op
    && (action.fewCopies && (action.knownFor op && action.storesFor op))) = true :=
  forall_byte (by decide +kernel)

/-- An instruction that control does not pass only takes slots, if it is typed at all. -/
theorem all_final : ∀ op : Opcode, isUnconditional op = true →
    (match action? op with
      | some (.replace _ none) | some .subroutine | none => true
      | _ => false) = true :=
  forall_byte (by decide +kernel)

variable {op : Opcode} {action : Action}

theorem checked_of_action (known : op.action? = some action) : action.balanced op = true
    ∧ action.fewCopies = true ∧ action.knownFor op = true ∧ action.storesFor op = true := by
  have all := all_actions op
  rw [known, Option.all_some] at all
  simpa only [Bool.and_eq_true] using all

theorem all_known (op : Opcode) : (action? op).all (Action.knownFor op) = true := by
  cases known : action? op with
  | none => rfl
  | some action => exact (checked_of_action known).2.2.1

theorem copies_le {count : Nat} {copies : List Nat}
    (known : op.action? = some (.shuffle count copies)) : copies.length ≤ count + 2 :=
  of_decide_eq_true (checked_of_action known).2.1

end Opcode

end ClassInstrument
