import ClassInstrument.Code.Basic

/-!
# Typing states

The types of the locals and of the operand stack at one point, slot by slot: a `long` or `double`
takes its slot and a `top` behind it.  Here the label of an uninitialized object *is* the number of
the step that created it.

* `Slot` — the type of a slot;
* `State` — locals and operand stack;
* `State.push`, `State.pop`, `State.drop`, `State.load`, `State.store` — the moves of instructions;
* `State.retype` — what a constructor call does to an object everywhere at once;
* `Slot.expand` / `Slot.collapse` — from the entries of a frame to slots, and back.
-/

namespace ClassInstrument

/-- The type of a slot; allocation sites are step numbers. -/
abbrev Slot := VerificationType

namespace Slot

/-- The slots of an entry: two for a wide one. -/
def widen (entry : Slot) : List Slot := if entry.isWide then [entry, .top] else [entry]

/-- The slots of some entries. -/
def expand (entries : List Slot) : List Slot := entries.flatMap widen

/-- The entries of some slots (first entry first), behind those already found (last first).  The
slot behind a wide one is part of it. -/
def collapseOnto (found : List Slot) : List Slot → List Slot
  | [] => found.reverse
  | [slot] => (slot :: found).reverse
  | slot :: next :: slots =>
    if slot.isWide then collapseOnto (slot :: found) slots
    else collapseOnto (slot :: found) (next :: slots)

/-- The entries of some slots. -/
def collapse (slots : List Slot) : List Slot := collapseOnto [] slots

/-- The type without an allocation site, which is no type that a declaration can give. -/
def declared : VerificationType → Slot
  | .uninitialized _ => .top
  | type => type

end Slot

/-- The types of all slots at one point. -/
structure State where
  locals : List Slot
  /-- The operand stack, its top first. -/
  stack : List Slot
deriving DecidableEq, Inhabited, Repr

namespace State

/-! ### The operand stack -/

/-- There is not enough on the operand stack. -/
def underflow {α : Type} : Except Failure α := .error (.encoding .underflow)

/-- Put a value on the operand stack; a wide one takes two slots. -/
def push (slot : Slot) (s : State) : State := { s with stack := (Slot.widen slot).reverse ++ s.stack }

/-- Take one slot from the operand stack. -/
def pop (s : State) : Except Failure (Slot × State) :=
  match s.stack with
  | slot :: stack => .ok (slot, { s with stack })
  | [] => underflow

/-- Take slots from the operand stack. -/
def drop (count : Nat) (s : State) : Except Failure State :=
  if count ≤ s.stack.length then .ok { s with stack := s.stack.drop count } else underflow

/-- Take slots from the operand stack and put a value there. -/
def convert (count : Nat) (slot : Slot) (s : State) : Except Failure State :=
  (s.drop count).map (push slot)

/-- Put copies of the topmost slots on the operand stack in place of them.  Each number tells
which slot to copy, 0 being the top; the last copy is on top in the end. -/
def shuffle (count : Nat) (copies : List Nat) (s : State) : Except Failure State :=
  if count ≤ s.stack.length then
    .ok { s with stack := (copies.filterMap (s.stack[·]?)).reverse ++ s.stack.drop count }
  else underflow

/-! ### The locals -/

/-- There is no such local. -/
def outOfRange {α : Type} (index : UInt16) : Except Failure α :=
  .error (.encoding (.localRange index))

/-- The type of a local. -/
def load (index : UInt16) (s : State) : Except Failure Slot :=
  match s.locals[index.toNat]? with
  | some slot => .ok slot
  | none => outOfRange index

/-- Locals in which the one before an index is no longer the first half of a wide value. -/
def cutBefore (locals : List Slot) (index : Nat) : List Slot :=
  if index = 0 then locals
  else
    match locals[index - 1]? with
    | some slot => if slot.isWide then locals.set (index - 1) .top else locals
    | none => locals

/-- Put a value into a local.  A wide value of which this was the second half is gone. -/
def store (index : UInt16) (slot : Slot) (s : State) : Except Failure State :=
  let width := (Slot.widen slot).length
  if s.locals.length < index.toNat + width then outOfRange index
  else
    let locals := (cutBefore s.locals index.toNat).set index.toNat slot
    .ok { s with locals := if slot.isWide then locals.set (index.toNat + 1) .top else locals }

/-- Change a type everywhere. -/
def retype (source target : Slot) (s : State) : State :=
  let change (slot : Slot) : Slot := if slot = source then target else slot
  ⟨s.locals.map change, s.stack.map change⟩

end State

end ClassInstrument
