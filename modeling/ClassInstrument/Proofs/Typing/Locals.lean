import ClassInstrument.Proofs.Bytes.Traverse
import ClassInstrument.Proofs.Typing.Transfer

/-!
# What instructions do to locals

Most instructions only move the operand stack.  A store puts a value into one local or two, and a
constructor call makes an object of its receiver everywhere.  Nothing else happens to locals, so
whatever those two keep, every instruction keeps.

* `State.written` — locals in which a value is put;
* `State.Reworked` — all that an instruction makes of locals;
* `TypingContext.execute_reworked` — **no instruction makes anything else of them**.
-/

namespace ClassInstrument

namespace Slot

theorem width_wide {slot : Slot} (wide : slot.isWide = true) : slot.width = 2 := by
  simp [width, widen, wide]

theorem width_pos (slot : Slot) : 0 < slot.width := by
  unfold width widen
  split <;> simp

end Slot

namespace State

variable {s s' : State}

/-! ### Wide slots -/

/-- A slot that takes two is kept or replaced by one that does not. -/
theorem getElem?_set_top {slots : List Slot} {index i : Nat} {slot : Slot}
    (here : (slots.set index .top)[i]? = some slot) (wide : slot.isWide = true) :
    slots[i]? = some slot := by
  rw [List.getElem?_set] at here
  split at here
  · split at here <;> cases here
    cases wide
  · exact here

theorem getElem?_cutBefore {locals : List Slot} {index i : Nat} {slot : Slot}
    (here : (cutBefore locals index)[i]? = some slot) (wide : slot.isWide = true) :
    locals[i]? = some slot := by
  unfold cutBefore at here
  split at here
  · exact here
  · split at here
    · split at here
      · exact getElem?_set_top here wide
      · exact here
    · exact here

/-- Locals in which a value is put. -/
def written (locals : List Slot) (index : Nat) (slot : Slot) : List Slot :=
  let locals := (cutBefore locals index).set index slot
  if slot.isWide then locals.set (index + 1) .top else locals

theorem store_eq_ok_iff {index : UInt16} {slot : Slot} :
    s.store index slot = .ok s' ↔ index.toNat + slot.width ≤ s.locals.length
      ∧ s' = { s with locals := written s.locals index.toNat slot } := by
  unfold store
  dsimp only
  split
  · next outside =>
    exact ⟨fun h => (nomatch h), fun ⟨fits, _⟩ => absurd outside (Nat.not_lt.2 fits)⟩
  · next fits =>
    exact ⟨fun h => ⟨Nat.not_lt.1 fits, (Except.ok.inj h).symm⟩, fun ⟨_, same⟩ => same ▸ rfl⟩

theorem length_written (locals : List Slot) (index : Nat) (slot : Slot) :
    (written locals index slot).length = locals.length := by
  unfold written
  dsimp only
  split <;> simp only [List.length_set, length_cutBefore]

/-- A wide slot behind a store is the value that was stored, or it was there before. -/
theorem getElem?_written {locals : List Slot} {index i : Nat} {slot other : Slot}
    (here : (written locals index slot)[i]? = some other) (wide : other.isWide = true) :
    i = index ∧ other = slot ∨ i ≠ index ∧ locals[i]? = some other := by
  have first : ((cutBefore locals index).set index slot)[i]? = some other := by
    unfold written at here
    dsimp only at here
    split at here
    · exact getElem?_set_top here wide
    · exact here
  rw [List.getElem?_set] at first
  split at first
  · next same =>
    split at first
    · exact .inl ⟨same.symm, (Option.some.inj first).symm⟩
    · cases first
  · next apart => exact .inr ⟨Ne.symm apart, getElem?_cutBefore first wide⟩

/-- A wide slot was there before one type was changed everywhere, if that became no wide one. -/
theorem getElem?_retyped {locals : List Slot} {source target slot : Slot} {i : Nat}
    (narrow : target = source ∨ source ≠ .top ∧ target.isWide = false)
    (here : (locals.map fun slot => if slot = source then target else slot)[i]? = some slot)
    (wide : slot.isWide = true) : locals[i]? = some slot := by
  rw [List.getElem?_map] at here
  obtain ⟨old, there, rfl⟩ := Option.map_eq_some_iff.1 here
  split at wide
  · next same =>
    rcases narrow with rfl | ⟨-, narrow⟩
    · rw [if_pos same, there, same]
    · rw [narrow] at wide
      cases wide
  · next other => rw [if_neg other, there]

/-! ### Moves of the operand stack -/

theorem locals_of_drop {count : Nat} (done : s.drop count = .ok s') : s'.locals = s.locals := by
  unfold drop at done
  split at done <;> cases done
  rfl

theorem locals_of_convert {count : Nat} {slot : Slot} (done : s.convert count slot = .ok s') :
    s'.locals = s.locals := by
  obtain ⟨taken, dropped, rfl⟩ := Traverse.map_eq_ok_iff.1 done
  exact (locals_of_drop dropped : taken.locals = s.locals)

theorem locals_of_shuffle {count : Nat} {copies : List Nat}
    (done : s.shuffle count copies = .ok s') : s'.locals = s.locals := by
  unfold shuffle at done
  split at done <;> cases done
  rfl

theorem locals_of_pop {slot : Slot} (done : s.pop = .ok (slot, s')) : s'.locals = s.locals := by
  unfold pop at done
  split at done <;> cases done
  rfl

/-! ### All that happens -/

/-- **All that an instruction makes of locals**: they are left as they are, a value is put where
there is room for it, or one type is changed everywhere, but for nothing at all and not to a wide
one. -/
inductive Reworked (locals : List Slot) : List Slot → Prop
  | kept : Reworked locals locals
  | written {index : Nat} {slot : Slot} (fits : index + slot.width ≤ locals.length) :
    Reworked locals (written locals index slot)
  | retyped {source target : Slot}
    (narrow : target = source ∨ source ≠ .top ∧ target.isWide = false) :
    Reworked locals (locals.map fun slot => if slot = source then target else slot)

theorem Reworked.of_eq {locals locals' : List Slot} (same : locals' = locals) :
    Reworked locals locals' :=
  same ▸ .kept

/-- There are as many locals as before. -/
theorem Reworked.length {locals locals' : List Slot} (reworked : Reworked locals locals') :
    locals'.length = locals.length := by
  cases reworked with
  | kept => rfl
  | written => exact length_written _ _ _
  | retyped => exact List.length_map _

end State

/-! ### Instructions -/

namespace TypingContext

open State

variable {ctx : TypingContext} {s s' : State} {step : Step}

/-- A constructor call makes an object of what it is called on, or leaves it as it is. -/
theorem initialized_narrow {receiver target : Slot} (done : ctx.initialized receiver = .ok target) :
    target = receiver ∨ receiver ≠ .top ∧ target.isWide = false := by
  unfold initialized at done
  split at done
  · cases done
    exact .inr ⟨nofun, rfl⟩
  · split at done
    · split at done
      · cases done
        exact .inr ⟨nofun, rfl⟩
      · cases done
    · cases done
  · exact .inl (Except.ok.inj done).symm

theorem locals_result (type : MethodType) (s : State) : (result type s).locals = s.locals := by
  unfold result
  split <;> rfl

theorem locals_of_field {opcode : Opcode} {type : FieldType}
    (done : field opcode type s = .ok s') : s'.locals = s.locals := by
  unfold field at done
  split at done
  · cases done
    rfl
  · split at done
    · exact locals_of_drop done
    · split at done
      · exact locals_of_convert done
      · exact locals_of_drop done

theorem receive_reworked {opcode : Opcode} {name : String}
    (done : ctx.receive opcode name s = .ok s') : Reworked s.locals s'.locals := by
  obtain ⟨⟨receiver, taken⟩, popped, done⟩ := Traverse.bind_eq_ok_iff.1 done
  have same : taken.locals = s.locals := locals_of_pop popped
  dsimp only at done
  split at done
  · obtain ⟨target, initialized, done⟩ := Traverse.bind_eq_ok_iff.1 done
    cases done
    rw [← same]
    exact .retyped (initialized_narrow initialized)
  · cases done
    exact .of_eq same

theorem call_reworked {opcode : Opcode} {member : MemberRef}
    (done : ctx.call opcode member s = .ok s') : Reworked s.locals s'.locals := by
  obtain ⟨type, -, done⟩ := Traverse.bind_eq_ok_iff.1 done
  obtain ⟨taken, dropped, done⟩ := Traverse.bind_eq_ok_iff.1 done
  have same : taken.locals = s.locals := locals_of_drop dropped
  dsimp only at done
  split at done
  · cases done
    exact .of_eq ((locals_result type taken).trans same)
  · obtain ⟨received, receives, done⟩ := Traverse.bind_eq_ok_iff.1 done
    cases done
    rw [locals_result, ← same]
    exact receive_reworked receives

/-- Put what is on top of the operand stack into the local that an instruction names. -/
def storeTaken (step : Step) (taken : State) : Except Failure State := do
  let (type, s) ← taken.pop
  match step.operand with
  | .var index => s.store index type
  | _ => mismatch step

theorem execute_store {position : Nat} {wide : Bool}
    (action : step.opcode.action? = some (.store wide)) :
    ctx.execute position step s = (if wide then s.drop 1 else .ok s) >>= storeTaken step := by
  unfold execute
  rw [action]
  cases wide <;> rfl

theorem storeTaken_reworked {taken : State} (done : storeTaken step taken = .ok s') :
    Reworked taken.locals s'.locals := by
  obtain ⟨⟨slot, rest⟩, popped, done⟩ := Traverse.bind_eq_ok_iff.1 done
  have same : rest.locals = taken.locals := locals_of_pop popped
  dsimp only at done
  split at done
  · obtain ⟨fits, rfl⟩ := store_eq_ok_iff.1 done
    rw [← same]
    exact .written fits
  · cases done

/-- **No instruction makes anything else of locals.** -/
theorem execute_reworked {position : Nat} (executed : ctx.execute position step s = .ok s') :
    Reworked s.locals s'.locals := by
  by_cases stores : ∃ wide, step.opcode.action? = some (.store wide)
  · obtain ⟨wide, action⟩ := stores
    rw [execute_store action] at executed
    obtain ⟨taken, half, executed⟩ := Traverse.bind_eq_ok_iff.1 executed
    have same : taken.locals = s.locals := by
      cases wide with
      | false => exact congrArg State.locals (Except.ok.inj half).symm
      | true => exact locals_of_drop half
    rw [← same]
    exact storeTaken_reworked executed
  revert executed
  -- of what is left only `iinc` and constructor calls change locals
  fun_cases execute ctx position step s <;> intro executed
  case case1 => exact .of_eq (locals_of_drop executed)
  case case7 action _ => exact absurd ⟨true, action⟩ stores
  case case8 wide action _ _ => exact absurd ⟨wide, action⟩ stores
  case case10 =>
    obtain ⟨fits, rfl⟩ := store_eq_ok_iff.1 executed
    exact .written fits
  case case11 | case17 | case21 | case22 => cases executed
  case case2 | case16 | case18 | case19 | case20 => exact .of_eq (locals_of_convert executed)
  case case4 | case15 =>
    cases executed
    exact .kept
  case case3 | case5 =>
    obtain ⟨type, -, rfl⟩ := Traverse.map_eq_ok_iff.1 executed
    exact .kept
  case case6 =>
    obtain ⟨⟨_, first⟩, popped, executed⟩ := Traverse.bind_eq_ok_iff.1 executed
    obtain ⟨⟨array, second⟩, popped', executed⟩ := Traverse.bind_eq_ok_iff.1 executed
    obtain ⟨type, -, executed⟩ := Traverse.bind_eq_ok_iff.1 executed
    cases executed
    exact .of_eq ((locals_of_pop popped').trans (locals_of_pop popped))
  case case9 => exact .of_eq (locals_of_shuffle executed)
  case case12 =>
    obtain ⟨type, -, executed⟩ := Traverse.bind_eq_ok_iff.1 executed
    exact .of_eq (locals_of_field executed)
  case case13 => exact call_reworked executed
  case case14 =>
    obtain ⟨type, -, executed⟩ := Traverse.bind_eq_ok_iff.1 executed
    obtain ⟨taken, dropped, executed⟩ := Traverse.bind_eq_ok_iff.1 executed
    cases executed
    exact .of_eq ((locals_result type taken).trans (locals_of_drop dropped))

end TypingContext

end ClassInstrument
