import Mathlib.Algebra.GroupWithZero.Nat
import ClassInstrument.Proofs.Descriptor
import ClassInstrument.Typing.Frames

/-!
# What a method starts with

A method starts with its receiver and its arguments in the first locals.  The entry frame lists all
of them, but their slots are added in two bytes, and from 65536 slots on the sum starts again at
zero.

* `MethodType.parameterSlots`, `MethodHeader.entrySlots` — the slots, however many there are;
* `MethodType.toNat_argumentSlots`, `MethodHeader.toNat_counted` — **what is counted of them**;
* `MethodHeader.Fits` — methods with few enough of them;
* `MethodHeader.length_entryFrame` — the entry frame has all of them.
-/

namespace ClassInstrument

/-! ### Sums in two bytes -/

/-- The slots of all parameters, however many there are. -/
def MethodType.parameterSlots (type : MethodType) : Nat := (type.params.map FieldType.slots).sum

theorem toNat_foldl_add (params : List FieldType) (sum : UInt16) :
    (params.foldl (fun sum param => sum + UInt16.ofNat param.slots) sum).toNat
      = (sum.toNat + (params.map FieldType.slots).sum) % 65536 := by
  induction params generalizing sum with
  | nil => exact (Nat.mod_eq_of_lt sum.toNat_lt).symm
  | cons param params ih =>
    rw [List.foldl_cons, ih, List.map_cons, List.sum_cons, UInt16.toNat_add, UInt16.toNat_ofNat']
    omega

/-- **The slots of the arguments are counted modulo 2^16.** -/
theorem MethodType.toNat_argumentSlots (type : MethodType) :
    type.argumentSlots.toNat = type.parameterSlots % 65536 := calc
  _ = (0 + type.parameterSlots) % 65536 := toNat_foldl_add type.params 0
  _ = type.parameterSlots % 65536 := by rw [Nat.zero_add]

theorem Slot.expand_append (entries entries' : List Slot) :
    expand (entries ++ entries') = expand entries ++ expand entries' :=
  List.flatMap_append

namespace MethodHeader

/-- The slots of the receiver and of all arguments, however many there are. -/
def entrySlots (header : MethodHeader) (type : MethodType) : Nat :=
  type.parameterSlots + if header.access.isStatic then 0 else 1

/-- The receiver and all arguments take few enough slots to be counted. -/
def Fits (header : MethodHeader) : Prop :=
  ∀ type, methodType header.desc = .ok type → header.entrySlots type ≤ 65535

/-- **The slots of the receiver and the arguments are counted modulo 2^16.** -/
theorem toNat_counted (header : MethodHeader) (type : MethodType) :
    (type.argumentSlots + if header.access.isStatic then 0 else 1).toNat
      = header.entrySlots type % 65536 := by
  unfold entrySlots
  rw [UInt16.toNat_add, type.toNat_argumentSlots]
  split
  · exact Nat.mod_mod _ _
  · show (type.parameterSlots % 65536 + 1) % 65536 = (type.parameterSlots + 1) % 65536
    omega

variable {header : MethodHeader} {type : MethodType} {frame : Frame}

/-- The entry frame has a slot for the receiver and those of all arguments. -/
theorem length_entryFrame (parsed : methodType header.desc = .ok type)
    (first : header.entryFrame = .ok frame) :
    (Slot.expand frame.locals).length = header.entrySlots type := by
  obtain ⟨_, parsed', rest⟩ := Traverse.bind_eq_ok_iff.1 first
  cases parsed.symm.trans parsed'
  cases rest
  have arguments : (Slot.expand (type.params.map FieldType.verificationType)).length
      = type.parameterSlots := by
    unfold Slot.expand MethodType.parameterSlots
    rw [List.length_flatMap, List.map_map]
    congr 1
    refine List.map_congr_left fun param _ => ?_
    cases param <;> rfl
  rw [Slot.expand_append, List.length_append, arguments, Nat.add_comm]
  unfold entrySlots
  congr 1
  split
  · rfl
  · unfold receiver
    split <;> rfl

/-- The entry frame has no objects that have still to be made. -/
theorem declared_entryFrame (first : header.entryFrame = .ok frame) :
    frame.locals.map Slot.declared = frame.locals := by
  obtain ⟨type, -, rest⟩ := Traverse.bind_eq_ok_iff.1 first
  cases rest
  refine (List.map_congr_left fun entry member => ?_).trans (List.map_id _)
  rcases List.mem_append.1 member with this | argument
  · split at this
    · cases this
    · rw [List.mem_singleton.1 this]
      unfold receiver
      split <;> rfl
  · obtain ⟨param, -, rfl⟩ := List.mem_map.1 argument
    cases param <;> rfl

end MethodHeader

end ClassInstrument
