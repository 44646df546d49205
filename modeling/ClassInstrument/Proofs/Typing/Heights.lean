import ClassInstrument.Proofs.Bytes.Traverse
import ClassInstrument.Proofs.Typing.Actions

/-!
# Heights of operand stacks

One table tells how many slots an instruction takes and puts, another one what it does to their
types.  Both agree on what an instruction does to the height of the operand stack, but for calls
that take one slot more than two bytes can count.

* `StackEffect.Moves` — an effect leads from one height to another;
* `State.drop_moves`, `State.convert_moves`, `State.shuffle_moves` — the effects of moves;
* `Opcode.balanced` — the two tables agree on every opcode that is typed;
* `Step.LoadsNarrow` — no value of two slots is loaded as a reference;
* `Step.Overflows` — calls that take more slots than are counted;
* `TypingContext.execute_moves` — **an instruction that can be executed has its effect**, if it is
  none of them;
* `TypingContext.length_execute_le` — no instruction puts more than two slots on top of what it
  takes.
-/

namespace ClassInstrument

/-- The effect leads from one height of an operand stack to another. -/
def StackEffect.Moves (effect : StackEffect) (before after : Nat) : Prop :=
  effect.pop ≤ before ∧ after = before - effect.pop + effect.push

namespace StackEffect.Moves

theorem refl (height : Nat) : Moves ⟨0, 0⟩ height height := ⟨Nat.zero_le _, rfl⟩

/-- A value is put on the operand stack. -/
theorem push {count before between : Nat} (moves : Moves ⟨count, 0⟩ before between)
    (slots : Nat) : Moves ⟨count, slots⟩ before (between + slots) :=
  ⟨moves.1, congrArg (· + slots) moves.2⟩

/-- One more slot is taken. -/
theorem pop {count before between after : Nat} (moves : Moves ⟨count, 0⟩ before between)
    (one : between = after + 1) : Moves ⟨count + 1, 0⟩ before after := by
  obtain ⟨enough, left⟩ := moves
  dsimp only at enough left
  exact ⟨show count + 1 ≤ before by omega, show after = before - (count + 1) + 0 by omega⟩

end StackEffect.Moves

/-! ### Moves -/

namespace State

variable {s s' : State}

theorem length_push (slot : Slot) (s : State) :
    (s.push slot).stack.length = s.stack.length + slot.width := by
  simp only [push, Slot.width, List.length_append, List.length_reverse]
  omega

theorem length_retype (source target : Slot) (s : State) :
    (s.retype source target).stack.length = s.stack.length := by
  simp only [retype, List.length_map]

theorem stack_of_pop {slot : Slot} (popped : s.pop = .ok (slot, s')) :
    s.stack = slot :: s'.stack := by
  unfold pop at popped
  split at popped
  · next same =>
    cases popped
    exact same
  · cases popped

/-- One slot is taken, and the rest of a computation leaves the height as it is. -/
theorem length_of_pop {rest : Slot × State → Except Failure State}
    (keeps : ∀ slot left, rest (slot, left) = .ok s' → s'.stack.length = left.stack.length)
    (done : (s.pop >>= rest) = .ok s') : s.stack.length = s'.stack.length + 1 := by
  obtain ⟨⟨slot, left⟩, popped, done⟩ := Traverse.bind_eq_ok_iff.1 done
  rw [stack_of_pop popped, List.length_cons, keeps slot left done]

theorem stack_of_store {index : UInt16} {slot : Slot} (stored : s.store index slot = .ok s') :
    s'.stack = s.stack := by
  unfold store at stored
  dsimp only at stored
  split at stored
  · cases stored
  · cases stored
    rfl

theorem drop_moves {count : Nat} (dropped : s.drop count = .ok s') :
    StackEffect.Moves ⟨count, 0⟩ s.stack.length s'.stack.length := by
  unfold drop at dropped
  split at dropped
  · next enough =>
    cases dropped
    exact ⟨enough, List.length_drop⟩
  · cases dropped

theorem push_moves (slot : Slot) (s : State) :
    StackEffect.Moves ⟨0, slot.width⟩ s.stack.length (s.push slot).stack.length := by
  rw [length_push]
  exact (StackEffect.Moves.refl _).push slot.width

theorem convert_moves {count : Nat} {slot : Slot} (converted : s.convert count slot = .ok s') :
    StackEffect.Moves ⟨count, slot.width⟩ s.stack.length s'.stack.length := by
  obtain ⟨between, dropped, rfl⟩ := Traverse.map_eq_ok_iff.1 converted
  rw [length_push]
  exact (drop_moves dropped).push slot.width

theorem shuffle_moves {count : Nat} {copies : List Nat} (inside : ∀ i ∈ copies, i < count)
    (shuffled : s.shuffle count copies = .ok s') :
    StackEffect.Moves ⟨count, copies.length⟩ s.stack.length s'.stack.length := by
  unfold shuffle at shuffled
  split at shuffled
  · next enough =>
    cases shuffled
    refine ⟨enough, ?_⟩
    have all : (copies.filterMap (s.stack[·]?)).length = copies.length := by
      refine List.filterMap_length_eq_length.2 fun i member => ?_
      have less : i < s.stack.length := Nat.lt_of_lt_of_le (inside i member) enough
      simp [less]
    show (_ ++ _ : List Slot).length = _
    rw [List.length_append, List.length_reverse, all, List.length_drop]
    exact Nat.add_comm _ _
  · cases shuffled

end State

/-! ### Types of values -/

theorem FieldType.width_slot (type : FieldType) : type.slot.width = type.slots := by
  cases type <;> rfl

theorem Constant.width_slot {constant : Constant} {type : Slot} (h : constant.slot = .ok type) :
    constant.slots = .ok type.width := by
  cases constant with
  | dynamic name desc handle args =>
    obtain ⟨parsed, field, rfl⟩ := Traverse.map_eq_ok_iff.1 h
    exact Traverse.map_eq_ok_iff.2 ⟨parsed, field, parsed.width_slot.symm⟩
  | _ =>
    cases h
    rfl

/-! ### Both tables -/

section Balanced

variable {op : Opcode} {action : Action} (known : op.action? = some action)

include known

theorem Opcode.belongs : action.belongs op = true :=
  (Bool.and_eq_true_iff.1 (checked_of_action known).1).1

/-- **Both tables agree.** -/
theorem Opcode.balanced (typed : action ≠ .subroutine) : op.stackEffect? = action.effect? := by
  have both := (checked_of_action known).1
  rcases Bool.or_eq_true_iff.1 (Bool.and_eq_true_iff.1 both).2 with same | same
  · exact absurd (eq_of_beq same) typed
  · exact eq_of_beq same

/-- The effect of an instruction of a kind that tells it. -/
theorem stackEffect_of_action {effect : StackEffect} (tells : action.effect? = some effect)
    (operand : Operand) : stackEffect op operand = .ok effect := by
  have measured := Opcode.balanced known (by rintro rfl; cases tells)
  unfold stackEffect
  rw [measured, tells]

end Balanced

/-! ### Operands that tell the effect -/

theorem stackEffect_constant {op : Opcode} (known : op.action? = some .constant)
    (constant : Constant) : stackEffect op (.load constant)
      = constant.slots.map fun slots => ⟨0, slots⟩ := by
  rw [show op = Opcode.ldc from eq_of_beq (Opcode.belongs known)]
  rfl

theorem stackEffect_callSite {op : Opcode} (known : op.action? = some .callSite)
    (call : DynamicCall) :
    stackEffect op (.invokeDynamic call) = (methodType call.desc).map (callEffect 0) := by
  rw [show op = Opcode.invokedynamic from eq_of_beq (Opcode.belongs known)]
  rfl

theorem stackEffect_createMulti {op : Opcode} (known : op.action? = some .createMulti)
    (desc : String) (dims : UInt8) :
    stackEffect op (.multiArray desc dims) = .ok ⟨dims.toNat, 1⟩ := by
  rw [show op = Opcode.multianewarray from eq_of_beq (Opcode.belongs known)]
  rfl

theorem stackEffect_field {op : Opcode} (known : op.action? = some .field) (member : MemberRef) :
    stackEffect op (.field member)
      = (fieldType member.desc).map fun type => fieldEffect op type.slots := by
  have measured := Opcode.balanced known nofun
  obtain ⟨notLdc, access⟩ := Bool.and_eq_true_iff.1 (Opcode.belongs known)
  unfold stackEffect
  rw [measured]
  dsimp only [Action.effect?]
  rw [Opcode.beq_false notLdc, if_neg Bool.false_ne_true, if_pos access]

theorem stackEffect_call {op : Opcode} (known : op.action? = some .call) (member : MemberRef)
    (interface : Bool) : stackEffect op (.method member interface)
      = (methodType member.desc).map
        (callEffect (if op == Opcode.invokestatic then 0 else 1)) := by
  have measured := Opcode.balanced known nofun
  obtain ⟨others, invoke⟩ := Bool.and_eq_true_iff.1 (Opcode.belongs known)
  obtain ⟨notLdc, noAccess⟩ := Bool.and_eq_true_iff.1 others
  unfold stackEffect
  rw [measured]
  dsimp only [Action.effect?]
  rw [Opcode.beq_false notLdc, if_neg Bool.false_ne_true,
    if_neg (by simpa using noAccess), if_pos invoke]

/-! ### Instructions -/

/-- What an instruction loads from a local, or from an array of references, takes one slot. -/
structure Step.LoadsNarrow (step : Step) (s : State) : Prop where
  fromLocal : ∀ index type, step.opcode = Opcode.aload → step.operand = .var index →
    s.load index = .ok type → type.isWide = false
  fromArray : ∀ array type, step.opcode = Opcode.aaload → s.stack[1]? = some array →
    elementSlot array = .ok type → type.isWide = false

/-- A call with a receiver whose arguments are counted as 65535 slots.  In two bytes there is no
room for one more, and the slots that the call takes are counted as none at all. -/
def Step.Overflows (step : Step) : Prop :=
  step.opcode.action? = some .call ∧ step.opcode ≠ Opcode.invokestatic
    ∧ ∃ member onInterface type, step.operand = .method member onInterface
      ∧ methodType member.desc = .ok type ∧ type.argumentSlots = 65535

/-- If there is room for the receiver, a call is measured by all slots that it takes. -/
theorem callEffect_eq {receiver : UInt16} {type : MethodType}
    (room : type.argumentSlots.toNat + receiver.toNat < 65536) : callEffect receiver type
      = ⟨type.argumentSlots.toNat + receiver.toNat, type.returnSlots⟩ := by
  unfold callEffect
  rw [UInt16.toNat_add, Nat.mod_eq_of_lt room]

/-- A call that can be counted is measured by all slots that it takes. -/
theorem stackEffect_of_few {step : Step} (few : ¬step.Overflows)
    (known : step.opcode.action? = some .call) {member : MemberRef} {interface : Bool}
    (operand : step.operand = .method member interface) {type : MethodType}
    (parsed : methodType member.desc = .ok type) :
    stackEffect step.opcode (.method member interface)
      = .ok ⟨type.argumentSlots.toNat + if step.opcode == Opcode.invokestatic then 0 else 1,
        type.returnSlots⟩ := by
  have arguments := type.argumentSlots.toNat_lt
  rw [stackEffect_call known, parsed]
  by_cases static : step.opcode = Opcode.invokestatic
  · rw [static]
    exact congrArg Except.ok (callEffect_eq arguments)
  · have counted : type.argumentSlots.toNat ≠ 65535 := fun full =>
      few ⟨known, static, member, interface, type, operand, parsed, UInt16.toNat_inj.1 full⟩
    rw [if_neg (by simpa using static), if_neg (by simpa using static)]
    exact congrArg Except.ok (callEffect_eq (show _ + 1 < 65536 by omega))

theorem FieldType.slots_le (type : FieldType) : type.slots ≤ 2 := by
  rw [← type.width_slot]
  exact Slot.width_le _

theorem MethodType.returnSlots_le (type : MethodType) : type.returnSlots ≤ 2 := by
  unfold returnSlots
  cases type.result with
  | none => exact Nat.zero_le _
  | some result => exact result.slots_le

namespace TypingContext

variable {ctx : TypingContext} {s s' : State}

theorem length_result (type : MethodType) (s : State) :
    (result type s).stack.length = s.stack.length + type.returnSlots := by
  unfold result MethodType.returnSlots
  split
  · next result found => rw [State.length_push, found, FieldType.width_slot]; rfl
  · next found => rw [found]; rfl

theorem field_moves {opcode : Opcode} {type : FieldType}
    (done : field opcode type s = .ok s') :
    (fieldEffect opcode type.slots).Moves s.stack.length s'.stack.length := by
  unfold field at done
  unfold fieldEffect
  by_cases getstatic : (opcode == Opcode.getstatic) = true
  · rw [if_pos getstatic] at done ⊢
    cases done
    rw [← type.width_slot]
    exact State.push_moves type.slot s
  rw [if_neg getstatic] at done ⊢
  by_cases putstatic : (opcode == Opcode.putstatic) = true
  · rw [if_pos putstatic] at done ⊢
    exact State.drop_moves done
  rw [if_neg putstatic] at done ⊢
  by_cases getfield : (opcode == Opcode.getfield) = true
  · rw [if_pos getfield] at done ⊢
    rw [← type.width_slot]
    exact State.convert_moves done
  · rw [if_neg getfield] at done ⊢
    rw [Nat.add_comm]
    exact State.drop_moves done

theorem fieldEffect_le (opcode : Opcode) (type : FieldType) :
    (fieldEffect opcode type.slots).push ≤ (fieldEffect opcode type.slots).pop + 2 := by
  have two := type.slots_le
  unfold fieldEffect
  split
  · exact two
  · split
    · exact Nat.zero_le _
    · split
      · exact Nat.le_trans two (Nat.le_succ 2)
      · exact Nat.zero_le _

theorem length_receive {opcode : Opcode} {name : String}
    (received : ctx.receive opcode name s = .ok s') :
    s.stack.length = s'.stack.length + 1 := by
  refine State.length_of_pop (fun receiver left done => ?_) received
  dsimp only at done
  split at done
  · obtain ⟨target, -, retyped⟩ := Traverse.bind_eq_ok_iff.1 done
    cases retyped
    rw [State.length_retype]
  · cases done
    rfl

/-- A call takes its arguments and its receiver. -/
theorem call_moves {opcode : Opcode} {member : MemberRef}
    (called : ctx.call opcode member s = .ok s') : ∃ type, methodType member.desc = .ok type
      ∧ StackEffect.Moves
        ⟨type.argumentSlots.toNat + if opcode == Opcode.invokestatic then 0 else 1,
          type.returnSlots⟩ s.stack.length s'.stack.length := by
  obtain ⟨type, parsed, rest⟩ := Traverse.bind_eq_ok_iff.1 called
  obtain ⟨left, dropped, rest⟩ := Traverse.bind_eq_ok_iff.1 rest
  obtain ⟨taken, receives, rest⟩ := Traverse.ite_bind_eq_ok rest
  cases rest
  have arguments := State.drop_moves dropped
  refine ⟨type, parsed, ?_⟩
  rw [length_result]
  split at receives
  · next static =>
    cases receives
    rw [if_pos static]
    exact arguments.push type.returnSlots
  · next virtual =>
    rw [if_neg virtual]
    exact (arguments.pop (length_receive receives)).push type.returnSlots

/-- An element of an array of references takes the place of the array and the index. -/
theorem element_moves (loaded : (s.pop >>= fun index => index.2.pop >>= fun array =>
      elementSlot array.1 >>= fun type => .ok (array.2.push type)) = .ok s') :
    ∃ array type, s.stack[1]? = some array ∧ elementSlot array = .ok type
      ∧ StackEffect.Moves ⟨2, type.width⟩ s.stack.length s'.stack.length := by
  obtain ⟨⟨index, between⟩, popped, rest⟩ := Traverse.bind_eq_ok_iff.1 loaded
  obtain ⟨⟨array, left⟩, popped', rest⟩ := Traverse.bind_eq_ok_iff.1 rest
  obtain ⟨type, element, rest⟩ := Traverse.bind_eq_ok_iff.1 rest
  cases rest
  have stack : s.stack = index :: array :: left.stack := by
    rw [State.stack_of_pop popped, State.stack_of_pop popped']
  refine ⟨array, type, by rw [stack]; rfl, element, ?_⟩
  rw [State.length_push, stack]
  exact (((StackEffect.Moves.refl _).pop rfl).pop rfl).push type.width

/-- A value of one or two slots is taken, the second slot first. -/
theorem store_moves {wide : Bool} {taken : State}
    (half : (if wide then s.drop 1 else .ok s) = .ok taken)
    (one : taken.stack.length = s'.stack.length + 1) :
    StackEffect.Moves ⟨if wide then 2 else 1, 0⟩ s.stack.length s'.stack.length := by
  cases wide with
  | true => exact (State.drop_moves half).pop one
  | false =>
    cases half
    exact (StackEffect.Moves.refl _).pop one

/-- An instruction that can be executed has an effect, which puts at most two slots on top of what
it takes.  That is the effect that is measured, unless a value of two slots is loaded as a
reference, or a call takes more slots than are counted. -/
theorem exists_effect {position : Nat} {step : Step}
    (executed : ctx.execute position step s = .ok s') :
    ∃ effect : StackEffect, effect.Moves s.stack.length s'.stack.length
      ∧ effect.push ≤ effect.pop + 2
      ∧ (step.LoadsNarrow s → ¬step.Overflows →
        stackEffect step.opcode step.operand = .ok effect) := by
  have told : ∀ {action : Action} {effect : StackEffect}, step.opcode.action? = some action →
      action.effect? = some effect → step.LoadsNarrow s → ¬step.Overflows →
      stackEffect step.opcode step.operand = .ok effect :=
    fun known tells _ _ => stackEffect_of_action known tells _
  have two : ∀ (count : Nat) (type : Slot), type.width ≤ count + 2 := fun count type =>
    Nat.le_trans type.width_le (Nat.le_add_left 2 count)
  have result : ∀ (count : Nat) (type : MethodType), type.returnSlots ≤ count + 2 :=
    fun count type => Nat.le_trans type.returnSlots_le (Nat.le_add_left 2 count)
  unfold execute at executed
  split at executed
  · next count action => exact ⟨_, State.drop_moves executed, Nat.zero_le _, told action rfl⟩
  · next count type action =>
    exact ⟨_, State.convert_moves executed, two _ type, told action rfl⟩
  · next constant action operand =>
    obtain ⟨type, slot, rfl⟩ := Traverse.map_eq_ok_iff.1 executed
    refine ⟨_, State.push_moves type s, two 0 type, fun _ _ => ?_⟩
    rw [operand, stackEffect_constant action, Constant.width_slot slot]
    rfl
  · next type index action operand =>
    cases executed
    exact ⟨_, State.push_moves type s, two 0 type, told action rfl⟩
  · next index action operand =>
    obtain ⟨type, loaded, rfl⟩ := Traverse.map_eq_ok_iff.1 executed
    refine ⟨_, State.push_moves type s, two 0 type, fun narrow few => ?_⟩
    rw [Slot.width_narrow
      (narrow.fromLocal index type (eq_of_beq (Opcode.belongs action)) operand loaded)]
    exact told action rfl narrow few
  · next action =>
    obtain ⟨array, type, second, element, moves⟩ := element_moves executed
    refine ⟨_, moves, two 2 type, fun narrow few => ?_⟩
    rw [Slot.width_narrow
      (narrow.fromArray array type (eq_of_beq (Opcode.belongs action)) second element)]
    exact told action rfl narrow few
  · next _ wide action =>
    obtain ⟨taken, half, rest⟩ := Traverse.ite_bind_eq_ok executed
    refine ⟨_, store_moves half (State.length_of_pop (fun type left done => ?_) rest),
      Nat.zero_le _, told action rfl⟩
    dsimp only at done
    split at done
    · rw [State.stack_of_store done]
    · cases done
  · next count copies action =>
    have inside : ∀ i ∈ copies, i < count := fun i member =>
      of_decide_eq_true (List.all_eq_true.1 (Opcode.belongs action) i member)
    exact ⟨_, State.shuffle_moves inside executed, Opcode.copies_le action, told action rfl⟩
  · next index amount action operand =>
    have same := State.stack_of_store executed
    exact ⟨_, same ▸ StackEffect.Moves.refl _, Nat.zero_le _, told action rfl⟩
  · cases executed
  · next member action operand =>
    obtain ⟨type, parsed, done⟩ := Traverse.bind_eq_ok_iff.1 executed
    refine ⟨_, field_moves done, fieldEffect_le _ type, fun _ _ => ?_⟩
    rw [operand, stackEffect_field action, parsed]
    rfl
  · next member interface action operand =>
    obtain ⟨type, parsed, moves⟩ := call_moves executed
    refine ⟨_, moves, result _ type, fun _ few => ?_⟩
    rw [operand]
    exact stackEffect_of_few few action operand parsed
  · next call action operand =>
    obtain ⟨type, parsed, rest⟩ := Traverse.bind_eq_ok_iff.1 executed
    obtain ⟨taken, dropped, rest⟩ := Traverse.bind_eq_ok_iff.1 rest
    cases rest
    refine ⟨⟨type.argumentSlots.toNat, type.returnSlots⟩, ?_, result _ type, fun _ _ => ?_⟩
    · rw [length_result]
      exact (State.drop_moves dropped).push type.returnSlots
    · rw [operand, stackEffect_callSite action, parsed]
      exact congrArg Except.ok (callEffect_eq type.argumentSlots.toNat_lt)
  · next action =>
    cases executed
    exact ⟨_, State.push_moves _ s, two 0 _, told action rfl⟩
  · next code action operand =>
    split at executed
    · exact ⟨_, State.convert_moves executed, two 1 _, told action rfl⟩
    · cases executed
  · next name action operand =>
    exact ⟨_, State.convert_moves executed, two 1 _, told action rfl⟩
  · next name action operand =>
    exact ⟨_, State.convert_moves executed, two 1 _, told action rfl⟩
  · next desc dims action operand =>
    refine ⟨_, State.convert_moves executed, two _ _, fun _ _ => ?_⟩
    rw [operand, stackEffect_createMulti action]
    rfl
  · cases executed
  · cases executed

/-- A call that takes more slots than are counted is measured by none of them. -/
theorem overflow_moves {position : Nat} {step : Step} (overflows : step.Overflows)
    (executed : ctx.execute position step s = .ok s') : ∃ push,
      stackEffect step.opcode step.operand = .ok ⟨0, push⟩
        ∧ StackEffect.Moves ⟨65536, push⟩ s.stack.length s'.stack.length := by
  obtain ⟨action, static, member, interface, type, operand, parsed, full⟩ := overflows
  unfold execute at executed
  rw [action, operand] at executed
  obtain ⟨type', parsed', moves⟩ := call_moves executed
  cases parsed.symm.trans parsed'
  have virtual : ¬(step.opcode == Opcode.invokestatic) = true := by simpa using static
  rw [if_neg virtual, full] at moves
  refine ⟨type.returnSlots, ?_, moves⟩
  rw [operand, stackEffect_call action, parsed, if_neg virtual]
  show Except.ok (callEffect 1 type) = _
  rw [callEffect, full]
  rfl

/-- **An instruction that can be executed has its effect**, unless it loads a value of two slots
as a reference, and just if it does not take more slots than are counted. -/
theorem execute_moves {position : Nat} {step : Step} (narrow : step.LoadsNarrow s)
    (executed : ctx.execute position step s = .ok s') :
    ∃ effect, stackEffect step.opcode step.operand = .ok effect
      ∧ (effect.Moves s.stack.length s'.stack.length ↔ ¬step.Overflows) := by
  by_cases overflows : step.Overflows
  · obtain ⟨push, measured, moves⟩ := overflow_moves overflows executed
    refine ⟨_, measured, fun counted => ?_, fun few => absurd overflows few⟩
    obtain ⟨enough, left⟩ := moves
    have more := counted.2
    dsimp only at enough left more
    omega
  · obtain ⟨effect, moves, -, measured⟩ := exists_effect executed
    exact ⟨effect, measured narrow overflows, fun _ => overflows, fun _ => moves⟩

/-- On an operand stack that can be counted, every instruction has its effect. -/
theorem execute_moves_of_low {position : Nat} {step : Step} (narrow : step.LoadsNarrow s)
    (low : s.stack.length ≤ 65535) (executed : ctx.execute position step s = .ok s') :
    ∃ effect, stackEffect step.opcode step.operand = .ok effect
      ∧ effect.Moves s.stack.length s'.stack.length := by
  obtain ⟨effect, measured, moves⟩ := execute_moves narrow executed
  refine ⟨effect, measured, moves.2 fun overflows => ?_⟩
  obtain ⟨push, -, enough, -⟩ := overflow_moves overflows executed
  dsimp only at enough
  omega

/-- No instruction puts more than two slots on top of what it takes. -/
theorem length_execute_le {position : Nat} {step : Step}
    (executed : ctx.execute position step s = .ok s') :
    s'.stack.length ≤ s.stack.length + 2 := by
  obtain ⟨effect, ⟨enough, left⟩, few, -⟩ := exists_effect executed
  omega

/-- An instruction that control does not pass puts nothing on the operand stack. -/
theorem length_le_of_unconditional {position : Nat} {step : Step}
    (off : step.opcode.isUnconditional = true)
    (executed : ctx.execute position step s = .ok s') : s'.stack.length ≤ s.stack.length := by
  have final := Opcode.all_final step.opcode off
  unfold execute at executed
  split at final
  · next count action =>
    rw [action] at executed
    obtain ⟨-, left⟩ := State.drop_moves executed
    dsimp only at left
    omega
  · next action =>
    rw [action] at executed
    cases executed
  · next action =>
    rw [action] at executed
    cases executed
  · cases final

/-- Subroutines cannot be executed. -/
theorem ne_jsr_of_execute {position : Nat} {step : Step}
    (executed : ctx.execute position step s = .ok s') : step.opcode ≠ Opcode.jsr := by
  intro jsr
  unfold execute at executed
  rw [jsr, show Opcode.action? Opcode.jsr = some .subroutine by decide] at executed
  cases executed

end TypingContext

end ClassInstrument
