import ClassInstrument.Typing.Merge
import Mathlib.Data.List.Forall2

/-!
# The order of types

A value of one type can stand where another type is expected.  Which class can stand for which is
not known here: it is left to an order of classes that the hierarchy has to go by.

* `Slot.Assignable`, `State.Assignable` — one type, or all types of a state, can stand for
  another;
* `State.Fits` — a state can stand where another one is expected;
* `Hierarchy.GoesBy` — the hierarchy goes by an order of classes;
* `State.assignable_merge` — **what two states have in common can stand for both**.
-/

namespace ClassInstrument

variable {le : String → String → Prop}

/-- A value of the first type can stand where the second one is expected, if the first class of an
ordered pair can stand for the second. -/
inductive Slot.Assignable (le : String → String → Prop) : Slot → Slot → Prop
  | refl (slot : Slot) : Assignable le slot slot
  | null (name : String) : Assignable le .null (.object name)
  | object {name above : String} (h : le name above) : Assignable le (.object name) (.object above)
  | top (slot : Slot) : Assignable le slot .top

/-- All types of a state can stand for those of another one with as many of them. -/
structure State.Assignable (le : String → String → Prop) (s s' : State) : Prop where
  locals : List.Forall₂ (Slot.Assignable le) s.locals s'.locals
  stack : List.Forall₂ (Slot.Assignable le) s.stack s'.stack

/-- A state can stand for the one that is expected, and there is one. -/
def State.Fits (le : String → String → Prop) (s : State) (expected : Option State) : Prop :=
  ∃ s', expected = some s' ∧ s.Assignable le s'

/-- The hierarchy goes by an order of classes: the common class of two is above both, and one
class is above all. -/
structure Hierarchy.GoesBy (h : Hierarchy) (le : String → String → Prop) : Prop where
  refl : ∀ name, le name name
  trans : ∀ a b c, le a b → le b c → le a c
  greatest : ∀ name, le name objectClass
  left : ∀ a b, le a (h.common a b)
  right : ∀ a b, le b (h.common a b)

/-- Without any knowledge only the greatest class is above another one. -/
theorem Hierarchy.flat_goesBy : flat.GoesBy fun a b => a = b ∨ b = objectClass where
  refl _ := .inl rfl
  trans a b c first second := by
    rcases second with rfl | top
    · exact first
    · exact .inr top
  greatest _ := .inr rfl
  left _ _ := .inr rfl
  right _ _ := .inr rfl

/-- If every class is below every other one, all hierarchies go by that. -/
theorem Hierarchy.goesBy_true (h : Hierarchy) : h.GoesBy fun _ _ => True :=
  ⟨fun _ => trivial, fun _ _ _ _ _ => trivial, fun _ => trivial, fun _ _ => trivial,
    fun _ _ => trivial⟩

/-! ### Slots -/

section Slots

variable {h : Hierarchy}

theorem Slot.Assignable.trans (order : h.GoesBy le) {a b c : Slot} (first : Assignable le a b)
    (second : Assignable le b c) : Assignable le a c := by
  cases second with
  | refl => exact first
  | top => exact .top a
  | null name =>
    cases first with
    | refl => exact .null name
  | object above =>
    cases first with
    | refl => exact .object above
    | null => exact .null _
    | object below => exact .object (order.trans _ _ _ below above)

/-- What two types have in common can stand for both. -/
theorem Slot.assignable_merge (order : h.GoesBy le) (current incoming : Slot) :
    Assignable le current (merge h current incoming)
      ∧ Assignable le incoming (merge h current incoming) := by
  unfold merge
  split
  · next same =>
    subst same
    exact ⟨.refl _, .refl _⟩
  · split
    · exact ⟨.null _, .refl _⟩
    · exact ⟨.refl _, .null _⟩
    · next a b _ =>
      split
      · exact ⟨.object (order.greatest a), .object (order.greatest b)⟩
      · exact ⟨.object (order.left a b), .object (order.right a b)⟩
    · exact ⟨.top _, .top _⟩

end Slots

/-! ### Lists of slots -/

theorem forall₂_zipWith_left {α β : Type} {R : α → α → Prop} {f : α → β → α}
    (above : ∀ a b, R a (f a b)) {l : List α} {m : List β} (long : l.length ≤ m.length) :
    List.Forall₂ R l (List.zipWith f l m) := by
  induction l generalizing m with
  | nil => exact .nil
  | cons a l ih =>
    cases m with
    | nil => cases long
    | cons b m => exact .cons (above a b) (ih (Nat.le_of_succ_le_succ long))

theorem forall₂_zipWith_right {α β : Type} {R : β → β → Prop} {f : α → β → β}
    (above : ∀ a b, R b (f a b)) {l : List α} {m : List β} (long : m.length ≤ l.length) :
    List.Forall₂ R m (List.zipWith f l m) := by
  rw [List.zipWith_comm]
  exact forall₂_zipWith_left (fun b a => above a b) long

namespace State

/-- What is lost when a wide value is cut in half can stand for it. -/
theorem assignable_cutHalves (locals : List Slot) :
    List.Forall₂ (Slot.Assignable le) locals (cutHalves locals) := by
  refine forall₂_zipWith_left (fun slot next => ?_) ?_
  · split
    · exact .top slot
    · exact .refl slot
  · rw [List.length_append, List.length_map, List.length_tail, List.length_singleton]
    omega

/-! ### States -/

theorem Assignable.refl (s : State) : s.Assignable le s :=
  ⟨List.forall₂_same.2 fun slot _ => .refl slot, List.forall₂_same.2 fun slot _ => .refl slot⟩

variable {h : Hierarchy} (order : h.GoesBy le)

include order

theorem assignable_trans {l m r : List Slot} (first : List.Forall₂ (Slot.Assignable le) l m)
    (second : List.Forall₂ (Slot.Assignable le) m r) : List.Forall₂ (Slot.Assignable le) l r := by
  induction first generalizing r with
  | nil => exact second
  | cons below _ ih =>
    cases second with
    | cons above rest => exact .cons (below.trans order above) (ih rest)

theorem Assignable.trans {s s' s'' : State} (first : s.Assignable le s')
    (second : s'.Assignable le s'') : s.Assignable le s'' :=
  ⟨assignable_trans order first.locals second.locals,
    assignable_trans order first.stack second.stack⟩

/-- **What two states have in common can stand for both.** -/
theorem assignable_merge {current incoming : State}
    (locals : current.locals.length = incoming.locals.length)
    (stack : current.stack.length = incoming.stack.length) :
    current.Assignable le (merge h current incoming)
      ∧ incoming.Assignable le (merge h current incoming) := by
  have left := fun a b => (Slot.assignable_merge order a b).1
  have right := fun a b => (Slot.assignable_merge order a b).2
  refine ⟨⟨?_, forall₂_zipWith_left left (Nat.le_of_eq stack)⟩,
    ⟨?_, forall₂_zipWith_right right (Nat.le_of_eq stack.symm)⟩⟩
  · exact assignable_trans order (forall₂_zipWith_left left (Nat.le_of_eq locals))
      (assignable_cutHalves _)
  · exact assignable_trans order (forall₂_zipWith_right right (Nat.le_of_eq locals.symm))
      (assignable_cutHalves _)

end State

end ClassInstrument
