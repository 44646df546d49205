import ClassInstrument.Code.Maxima
import ClassInstrument.Proofs.Typing.Halves
import ClassInstrument.Proofs.Typing.Heights
import ClassInstrument.Proofs.Typing.Solve

/-!
# More locals than are used

Locals that no instruction names hold nothing from the entry on, and nothing depends on them.  So
an instruction does with more locals what it does with fewer, as long as no value of two slots
reaches over the end of those that are named.

* `State.pad` — a state with more locals;
* `Slot.Whole` — no value of two slots reaches over the end;
* `State.merge_pad` — states meet with more locals just as with fewer;
* `Step.NamesBelow`, `Step.StoresNarrow` — no value reaches over the end of the locals;
* `TypingContext.execute_pad` — **an instruction does the same with more locals**.
-/

namespace ClassInstrument

open Traverse

/-! ### Slots -/

namespace Slot

/-- Every value of two slots has room for both of them. -/
def Whole (slots : List Slot) : Prop :=
  ∀ (i : Nat) (slot : Slot), slots[i]? = some slot → slot.isWide = true → i + 1 < slots.length

theorem Paired.whole {slots : List Slot} (paired : Paired slots) : Whole slots :=
  fun i slot here wide => (List.getElem?_eq_some_iff.1 (paired i slot here wide)).1

/-- A type in common that takes two slots is the type of both. -/
theorem eq_of_isWide_merge {h : Hierarchy} {current incoming : Slot}
    (wide : (merge h current incoming).isWide = true) : merge h current incoming = current := by
  unfold merge at wide ⊢
  split
  · rfl
  · next other =>
    rw [if_neg other] at wide
    split at wide
    · cases wide
    · cases wide
    · split at wide <;> cases wide
    · cases wide

theorem Whole.zipWith_merge {h : Hierarchy} {slots slots' : List Slot} (whole : Whole slots)
    (length : slots.length = slots'.length) : Whole (List.zipWith (merge h) slots slots') := by
  intro i slot here wide
  obtain ⟨a, b, left, -, rfl⟩ := List.getElem?_zipWith_eq_some.1 here
  rw [eq_of_isWide_merge wide] at wide
  rw [List.length_zipWith, ← length, Nat.min_self]
  exact whole i a left wide

end Slot

namespace State

/-! ### Cutting values in half -/

theorem cutBefore_append {locals rest : List Slot} {index : Nat} (inside : index ≤ locals.length) :
    cutBefore (locals ++ rest) index = cutBefore locals index ++ rest := by
  unfold cutBefore
  split
  · rfl
  · have less : index - 1 < locals.length := by omega
    rw [List.getElem?_append_left less]
    split
    · split
      · exact List.set_append_left _ _ less
      · rfl
    · rfl

/-- Nothing is cut at the end if nothing reaches over it. -/
theorem cutHalves_append {locals : List Slot} (whole : Slot.Whole locals) (more : Nat) :
    cutHalves (locals ++ List.replicate more .top)
      = cutHalves locals ++ List.replicate more .top := by
  apply List.ext_getElem?
  intro i
  have length := length_cutHalves locals
  rw [getElem?_cutHalves]
  by_cases less : i < locals.length
  · have front := @List.getElem?_append_left _ _ (List.replicate more .top) i (length.symm ▸ less)
    rw [front, getElem?_cutHalves, List.getElem?_append_left less,
      List.getElem?_eq_getElem less, Option.map_some, Option.map_some]
    cases wide : locals[i].isWide with
    | false => rfl
    | true =>
      rw [List.getElem?_append_left (whole i _ (List.getElem?_eq_getElem less) wide)]
  · rw [List.getElem?_append_right (Nat.not_lt.1 less)]
    refine Eq.trans ?_ (List.getElem?_append_right (length.symm ▸ Nat.not_lt.1 less)).symm
    rw [length, List.getElem?_replicate]
    split <;> rfl

/-! ### Moves -/

/-- The state with more locals behind the others, which hold nothing. -/
def pad (more : Nat) (s : State) : State :=
  { s with locals := s.locals ++ List.replicate more .top }

variable {more : Nat} {s s' : State}

@[simp]
theorem stack_pad : (s.pad more).stack = s.stack := rfl

theorem length_pad : (s.pad more).locals.length = s.locals.length + more := by
  rw [pad, List.length_append, List.length_replicate]

theorem pad_injective (same : s.pad more = s'.pad more) : s = s' := by
  obtain ⟨locals, stack⟩ := s
  obtain ⟨locals', stack'⟩ := s'
  rw [pad, pad, mk.injEq] at same
  obtain ⟨front, rfl⟩ := same
  exact congrArg (mk · stack) (List.append_cancel_right front)

theorem pop_pad : (s.pad more).pop = s.pop.map fun popped => (popped.1, popped.2.pad more) := by
  obtain ⟨locals, stack⟩ := s
  cases stack <;> rfl

theorem drop_pad (count : Nat) : (s.pad more).drop count = (s.drop count).map (pad more) := by
  unfold drop
  by_cases enough : count ≤ s.stack.length <;>
    simp only [stack_pad, enough, if_true, if_false] <;> rfl

theorem convert_pad (count : Nat) (slot : Slot) :
    (s.pad more).convert count slot = (s.convert count slot).map (pad more) := by
  unfold convert
  rw [drop_pad]
  cases s.drop count <;> rfl

theorem shuffle_pad (count : Nat) (copies : List Nat) :
    (s.pad more).shuffle count copies = (s.shuffle count copies).map (pad more) := by
  unfold shuffle
  by_cases enough : count ≤ s.stack.length <;>
    simp only [stack_pad, enough, if_true, if_false] <;> rfl

theorem load_pad {index : UInt16} (inside : index.toNat < s.locals.length) :
    (s.pad more).load index = s.load index := by
  unfold load pad
  rw [List.getElem?_append_left inside]

theorem retype_pad {source target : Slot} (keeps : source = .top → target = .top) :
    (s.pad more).retype source target = (s.retype source target).pad more := by
  unfold retype pad
  dsimp only
  rw [List.map_append, List.map_replicate]
  congr 3
  split
  · next same => exact keeps same.symm
  · rfl

/-- A value that there is room for is put into the same locals, whatever is behind them. -/
theorem written_append {locals rest : List Slot} {index : Nat} {slot : Slot}
    (fits : index + slot.width ≤ locals.length) :
    written (locals ++ rest) index slot = written locals index slot ++ rest := by
  have positive := slot.width_pos
  unfold written
  dsimp only
  rw [cutBefore_append (by omega), List.set_append_left _ _ (by rw [length_cutBefore]; omega)]
  split
  · next wide =>
    rw [Slot.width_wide wide] at fits
    exact List.set_append_left _ _ (by rw [List.length_set, length_cutBefore]; omega)
  · rfl

theorem store_pad {index : UInt16} {slot : Slot}
    (fits : index.toNat + slot.width ≤ s.locals.length) :
    (s.pad more).store index slot = (s.store index slot).map (pad more) := by
  rw [store_eq_ok_iff.2 ⟨fits, rfl⟩]
  refine store_eq_ok_iff.2 ⟨by rw [length_pad]; omega, ?_⟩
  rw [pad, pad, written_append fits]

/-! ### States that meet -/

theorem merge_pad {h : Hierarchy} (whole : Slot.Whole s.locals)
    (length : s.locals.length = s'.locals.length) :
    merge h (s.pad more) (s'.pad more) = (merge h s s').pad more := by
  have rest : List.zipWith (Slot.merge h) (List.replicate more .top) (List.replicate more .top)
      = List.replicate more .top := by
    rw [List.zipWith_replicate']
    rfl
  unfold merge pad
  dsimp only
  rw [List.zipWith_append length, rest, cutHalves_append (whole.zipWith_merge length)]

end State

/-! ### Instructions -/

/-- What an instruction that stores one slot takes from the operand stack is no value of two. -/
def Step.StoresNarrow (step : Step) (s : State) : Prop :=
  [Opcode.istore, Opcode.fstore, Opcode.astore].contains step.opcode = true →
    ∀ slot ∈ s.stack.head?, slot.isWide = false

/-- The locals that an instruction names are among some. -/
def Step.NamesBelow (step : Step) (count : Nat) : Prop :=
  ∀ used, Code.slotsUsed step.insn = some used → used ≤ count

/-- An instruction that names one local names one that is there. -/
theorem Step.NamesBelow.var {step : Step} {count : Nat} (names : step.NamesBelow count)
    {index : UInt16} (operand : step.operand = .var index) :
    (index.toNat +
      if [Opcode.lload, Opcode.dload, Opcode.lstore, Opcode.dstore].contains step.opcode then 2
      else 1) ≤ count := by
  refine names _ ?_
  rw [Step.insn, operand]
  rfl

theorem Step.NamesBelow.increment {step : Step} {count : Nat} (names : step.NamesBelow count)
    {index : UInt16} {amount : Int16} (operand : step.operand = .increment index amount) :
    index.toNat + 1 ≤ count := by
  refine names _ ?_
  rw [Step.insn, operand]
  rfl

/-- A computation that starts from a changed result. -/
theorem bind_map_eq {α β γ δ : Type} {x : Except Failure α} {change : α → γ}
    {f : α → Except Failure β} {g : γ → Except Failure δ} {view : β → δ}
    (each : ∀ a, x = .ok a → g (change a) = (f a).map view) :
    (x.map change >>= g) = (x >>= f).map view := by
  cases x with
  | error e => rfl
  | ok a => exact each a rfl

/-- A computation whose result is changed. -/
theorem map_bind_eq {α β δ : Type} {x : Except Failure α} {f : α → Except Failure β}
    {g : α → Except Failure δ} {view : β → δ} (each : ∀ a, x = .ok a → g a = (f a).map view) :
    (x >>= g) = (x >>= f).map view := by
  cases x with
  | error e => rfl
  | ok a => exact each a rfl

namespace TypingContext

open State

variable {ctx : TypingContext} {more : Nat} {s s' : State} {step : Step}

theorem receive_pad (opcode : Opcode) (name : String) :
    ctx.receive opcode name (s.pad more) = (ctx.receive opcode name s).map (pad more) := by
  unfold receive
  rw [pop_pad]
  refine bind_map_eq fun ⟨receiver, taken⟩ _ => ?_
  dsimp only
  split
  · refine map_bind_eq fun target done => ?_
    refine congrArg Except.ok (retype_pad fun top => ?_)
    rcases initialized_narrow done with same | ⟨object, -⟩
    · exact same.trans top
    · exact absurd top object
  · rfl

theorem result_pad (type : MethodType) :
    result type (s.pad more) = (result type s).pad more := by
  unfold result
  split <;> rfl

theorem call_pad (opcode : Opcode) (member : MemberRef) :
    ctx.call opcode member (s.pad more) = (ctx.call opcode member s).map (pad more) := by
  unfold call
  refine map_bind_eq fun type _ => ?_
  rw [drop_pad]
  refine bind_map_eq fun taken _ => ?_
  dsimp only
  split
  · exact congrArg Except.ok (result_pad type)
  · rw [receive_pad]
    exact bind_map_eq fun taken _ => congrArg Except.ok (result_pad type)

theorem field_pad (opcode : Opcode) (type : FieldType) :
    field opcode type (s.pad more) = (field opcode type s).map (pad more) := by
  unfold field
  split
  · rfl
  · split
    · exact drop_pad _
    · split
      · exact convert_pad _ _
      · exact drop_pad _

/-- There is room for what an instruction stores. -/
theorem room_of_store {wide : Bool} (action : step.opcode.action? = some (.store wide))
    (names : step.NamesBelow s.locals.length) (narrow : step.StoresNarrow s) {taken : State}
    (done : (if wide then s.drop 1 else .ok s) = .ok taken) {index : UInt16}
    (operand : step.operand = .var index) {slot : Slot} (top : slot ∈ taken.stack.head?) :
    index.toNat + slot.width ≤ taken.locals.length := by
  have stores := (Opcode.checked_of_action action).2.2.2
  have below := names.var operand
  cases wide with
  | true =>
    have both : [Opcode.lload, Opcode.dload, Opcode.lstore, Opcode.dstore].contains step.opcode
      = true := stores
    rw [if_pos both] at below
    rw [if_pos rfl] at done
    have := slot.width_le
    rw [locals_of_drop done]
    omega
  | false =>
    rw [if_neg Bool.false_ne_true] at done
    cases done
    rw [Slot.width_narrow (narrow stores slot top)]
    split at below <;> omega

theorem storeTaken_pad {taken : State}
    (room : ∀ index, step.operand = .var index → ∀ slot ∈ taken.stack.head?,
      index.toNat + Slot.width slot ≤ taken.locals.length) :
    storeTaken step (taken.pad more) = (storeTaken step taken).map (pad more) := by
  unfold storeTaken
  rw [pop_pad]
  refine bind_map_eq fun ⟨slot, rest⟩ popped => ?_
  dsimp only
  split
  · next index operand =>
    refine store_pad ?_
    rw [locals_of_pop popped]
    exact room index operand slot (by rw [stack_of_pop popped]; rfl)
  · rfl

/-- **An instruction does the same with more locals**, if the ones that it names are there without
them. -/
theorem execute_pad {position : Nat} (names : step.NamesBelow s.locals.length)
    (narrow : step.StoresNarrow s) :
    ctx.execute position step (s.pad more) = (ctx.execute position step s).map (pad more) := by
  by_cases stores : ∃ wide, step.opcode.action? = some (.store wide)
  · obtain ⟨wide, action⟩ := stores
    have taken : (if wide then (s.pad more).drop 1 else .ok (s.pad more))
        = (if wide then s.drop 1 else .ok s).map (pad more) := by
      cases wide
      · rfl
      · exact drop_pad 1
    rw [execute_store action, execute_store action, taken]
    exact bind_map_eq fun taken done => storeTaken_pad fun index operand slot top =>
      room_of_store action names narrow done operand top
  -- what is left moves the operand stack, but for loads and `iinc`, which name a local
  fun_cases execute ctx position step s <;> simp only [execute, *]
  case case1 => exact drop_pad _
  case case2 => exact convert_pad _ _
  case case3 constant _ _ => cases constant.slot <;> rfl
  case case4 => rfl
  case case5 index operand _ =>
    have below := names.var operand
    rw [load_pad (by split at below <;> omega)]
    cases s.load index <;> rfl
  case case6 =>
    rw [pop_pad]
    refine bind_map_eq fun ⟨_, taken⟩ _ => ?_
    dsimp only
    rw [pop_pad]
    exact bind_map_eq fun ⟨array, taken⟩ _ => map_bind_eq fun type _ => rfl
  case case7 action _ => exact absurd ⟨true, action⟩ stores
  case case8 wide action _ _ => exact absurd ⟨wide, action⟩ stores
  case case9 => exact shuffle_pad _ _
  case case10 index amount operand _ => exact store_pad (names.increment operand)
  case case11 => rfl
  case case12 => exact map_bind_eq fun type _ => field_pad _ type
  case case13 => exact call_pad _ _
  case case14 =>
    refine map_bind_eq fun type _ => ?_
    rw [drop_pad]
    exact bind_map_eq fun taken _ => congrArg Except.ok (result_pad type)
  case case15 | case17 | case21 | case22 => rfl
  case case16 | case18 | case19 | case20 => exact convert_pad _ _

end TypingContext

end ClassInstrument
