import ClassInstrument.Typing.Hierarchy
import ClassInstrument.Typing.State

/-!
# Merging typing states

Where paths meet, a slot has what the types on all paths have in common.

* `Slot.merge` — of two types;
* `State.merge` — of two states, slot by slot; their operand stacks have the same height.
-/

namespace ClassInstrument

/-- What two types have in common. -/
def Slot.merge (h : Hierarchy) (current incoming : Slot) : Slot :=
  if current = incoming then current
  else
    match current, incoming with
    | .null, .object name | .object name, .null => .object name
    | .object a, .object b =>
      if isArrayDescriptor a || isArrayDescriptor b then .object objectClass else .object (h.common a b)
    | _, _ => .top

namespace State

/-- Locals in which every wide value still has its second half. -/
def cutHalves (locals : List Slot) : List Slot :=
  List.zipWith (fun slot (next : Option Slot) =>
      if slot.isWide && next != some .top then .top else slot)
    locals (locals.tail.map some ++ [none])

/-- What two states have in common. -/
def merge (h : Hierarchy) (current incoming : State) : State :=
  ⟨cutHalves (List.zipWith (Slot.merge h) current.locals incoming.locals),
    List.zipWith (Slot.merge h) current.stack incoming.stack⟩

end State

end ClassInstrument
