import ClassInstrument.Proofs.Typing.Solve

/-!
# What a typing depends on

A typing is made from the instructions that control reaches and from the handlers around them.  Two
problems that agree on those have the same typing, whatever else differs: the instructions that are
never reached, and how the exception ranges are put together.

* `TypingProblem.Agrees` — two problems say the same wherever control goes;
* `TypingContext.execute_congr` — an instruction does the same in both;
* `TypingProblem.round_persists`, `TypingProblem.run_persists` — one round, and all rounds;
* `TypingProblem.solve_persists` — **the typing of one is the typing of the other**.
-/

namespace ClassInstrument

open Traverse

/-! ### Instructions -/

namespace TypingContext

variable {ctx ctx' : TypingContext} {made : Nat → Prop} {count : Nat} {s : State}
  (owner : ctx'.owner = ctx.owner)
  (sites : ∀ site, made site →
    ctx'.steps[site]?.map Step.insn = ctx.steps[site]?.map Step.insn)

include owner sites in
/-- An allocation site tells the same of its object. -/
theorem initialized_congr {receiver : Slot} (known : receiver.MadeBy made) :
    ctx'.initialized receiver = ctx.initialized receiver := by
  cases receiver with
  | uninitialized site =>
    have same := sites site.index known
    unfold initialized
    dsimp only
    cases here : ctx.steps[site.index]? with
    | none =>
      rw [here] at same
      rw [Option.map_eq_none_iff.1 same]
    | some step =>
      rw [here] at same
      obtain ⟨step', there, insn⟩ := Option.map_eq_some_iff.1 same
      obtain ⟨marks, opcode, operand⟩ := step
      obtain ⟨marks', opcode', operand'⟩ := step'
      cases insn
      rw [there]
      rfl
  | uninitializedThis => exact congrArg (fun name => Except.ok (VerificationType.object name)) owner
  | _ => rfl

include owner sites in
theorem receive_congr (tracked : s.Tracked made count) (opcode : Opcode) (name : String) :
    ctx'.receive opcode name s = ctx.receive opcode name s := by
  have popped := tracked.pop
  unfold receive
  cases top : s.pop with
  | error e => rfl
  | ok receiver =>
    rw [top] at popped
    dsimp only [Except.bind, bind]
    rw [initialized_congr owner sites popped.1]

include owner sites in
theorem call_congr (tracked : s.Tracked made count) (opcode : Opcode) (member : MemberRef) :
    ctx'.call opcode member s = ctx.call opcode member s := by
  unfold call
  refine bind_congr fun type => ?_
  have dropped := tracked.drop type.argumentSlots.toNat
  cases done : s.drop type.argumentSlots.toNat with
  | error e => rfl
  | ok taken =>
    rw [done] at dropped
    dsimp only [Except.bind, bind]
    split
    · rfl
    · rw [receive_congr owner sites dropped]

include owner sites in
/-- **An instruction does the same** where the same is known of allocation sites. -/
theorem execute_congr (tracked : s.Tracked made count) (position : Nat) (step : Step) :
    ctx'.execute position step s = ctx.execute position step s := by
  have called : ∀ member, ctx'.call step.opcode member s = ctx.call step.opcode member s :=
    fun member => call_congr owner sites tracked _ member
  unfold execute
  simp only [called]

/-- The marks in front of an instruction have nothing to do with what it does. -/
theorem execute_of_insn {position : Nat} {step step' : Step} (same : step'.insn = step.insn) :
    ctx.execute position step' s = ctx.execute position step s := by
  obtain ⟨marks, opcode, operand⟩ := step
  obtain ⟨marks', opcode', operand'⟩ := step'
  cases same
  rfl

end TypingContext

/-! ### Problems -/

/-- **Two problems say the same wherever control goes**: they have the same instructions there, and
the same handlers around them, in their order. -/
structure TypingProblem.Agrees (p q : TypingProblem) : Prop where
  hierarchy : q.hierarchy = p.hierarchy
  owner : q.context.owner = p.context.owner
  size : q.size = p.size
  insn : ∀ i, p.Reached i →
    q.context.steps[i]?.map Step.insn = p.context.steps[i]?.map Step.insn
  target : ∀ l j, p.target l = .ok j → q.target l = .ok j
  handlers : ∀ i, p.Reached i →
    (q.handlers.filter (·.covers i)).map (fun r => (r.target, r.caught))
      = (p.handlers.filter (·.covers i)).map fun r => (r.target, r.caught)

namespace TypingProblem

/-- A handler is used by its place and by what it finds on the operand stack. -/
theorem mergeHandlers_eq (p : TypingProblem) (i : Nat) (before behind : State) (t : Typing) :
    p.mergeHandlers i before behind t
      = ((p.handlers.filter (·.covers i)).map fun r => (r.target, r.caught)).foldlM (fun t r => do
          let t ← p.mergeInto t r.1 ⟨before.locals, [r.2]⟩
          p.mergeInto t r.1 ⟨behind.locals, [r.2]⟩) t := by
  rw [List.foldlM_map]
  rfl

variable {p q : TypingProblem} (agrees : p.Agrees q) {count : Nat} {t : Typing}

include agrees

theorem mergeInto_persists (t : Typing) (i : Nat) (incoming : State) :
    Persists (p.mergeInto t i incoming) (q.mergeInto t i incoming) := by
  intro t' merged
  rw [mergeInto_eq] at merged ⊢
  rw [agrees.hierarchy]
  cases known : t.state? i with
  | none =>
    rw [known] at merged
    exact merged
  | some current =>
    rw [known] at merged
    dsimp only at merged ⊢
    split at merged
    · cases merged
    · next heights =>
      rw [if_neg heights]
      exact merged

theorem mergeHandlers_persists {i : Nat} (reached : p.Reached i) (before behind : State)
    (t : Typing) : Persists (p.mergeHandlers i before behind t)
      (q.mergeHandlers i before behind t) := by
  rw [mergeHandlers_eq, mergeHandlers_eq, agrees.handlers i reached]
  refine Persists.foldlM (fun t r => ?_) _ _
  exact (mergeInto_persists agrees t _ _).bind fun t => mergeInto_persists agrees t _ _

theorem successors_persists {i : Nat} {step step' : Step} (same : step'.insn = step.insn) :
    Persists (p.successors i step) (q.successors i step') := by
  obtain ⟨marks, opcode, operand⟩ := step
  obtain ⟨marks', opcode', operand'⟩ := step'
  cases same
  refine Persists.bind (Persists.mapM fun l _ => agrees.target l) fun targets => ?_
  rw [agrees.size]
  exact Persists.refl _

/-- **One round gives the same.** -/
theorem round_persists (sane : p.Sane count t) {i : Nat} {step step' : Step} {before : State}
    (known : t.state? i = some before) (same : step'.insn = step.insn) :
    Persists (p.round t i step before) (q.round t i step' before) := by
  have reached := sane.reached i before known
  unfold round
  rw [TypingContext.execute_of_insn same, TypingContext.execute_congr agrees.owner
    (fun site created => agrees.insn site created.1) (sane.tracked i before known)]
  refine Persists.bind (Persists.refl _) fun behind => ?_
  refine (mergeHandlers_persists agrees reached before behind _).bind fun t => ?_
  refine (successors_persists agrees same).bind fun next => ?_
  exact Persists.foldlM (fun t j => mergeInto_persists agrees t j behind) _ _

/-- **All rounds give the same.** -/
theorem run_persists (posed : p.Posed) (rounds : Nat) (t : Typing) (sane : p.Sane count t) :
    Persists (p.run rounds t) (q.run rounds t) := by
  induction rounds generalizing t with
  | zero =>
    obtain ⟨states, pending, height⟩ := t
    cases pending <;> exact Persists.refl _
  | succ rounds ih =>
    obtain ⟨states, pending, height⟩ := t
    cases pending with
    | nil => exact Persists.refl _
    | cons i pending =>
      have sane' : p.Sane count ⟨states, pending, height⟩ := sane.waiting
      cases known : states[i]?.join with
      | none =>
        rw [run_skip p (.inl known), run_skip q (.inl known)]
        exact ih _ sane'
      | some before =>
        have insn := agrees.insn i (sane.reached i before known)
        cases here : p.context.steps[i]? with
        | none =>
          rw [here] at insn
          rw [run_skip p (.inr here), run_skip q (.inr (Option.map_eq_none_iff.1 insn))]
          exact ih _ sane'
        | some step =>
          rw [here] at insn
          obtain ⟨step', there, same⟩ := Option.map_eq_some_iff.1 insn
          rw [run_round p known here, run_round q known there]
          intro t' ran
          obtain ⟨t₁, done, ran⟩ := bind_eq_ok_iff.1 ran
          have outcome := round_outcome p.hierarchy.goesBy_true posed sane' known here
          exact bind_eq_ok_iff.2 ⟨t₁, round_persists agrees sane' known same t₁ done,
            ih t₁ (outcome.of_ok done).1 t' ran⟩

/-- **The typing of one problem is the typing of the other.** -/
theorem solve_persists (posed : p.Posed) {entry : State} (tracked : entry.Tracked p.Creates count) :
    Persists (p.solve entry) (q.solve entry) := by
  unfold solve
  dsimp only
  have rounds : q.rounds entry.locals.length = p.rounds entry.locals.length := by
    rw [TypingProblem.rounds, TypingProblem.rounds, agrees.size, agrees.hierarchy]
  rw [agrees.size, rounds]
  split
  · exact Persists.refl _
  · next some =>
    have start : 0 < p.size := Nat.pos_of_ne_zero some
    intro t' solved
    obtain ⟨t, merged, ran⟩ := bind_eq_ok_iff.1 solved
    have outcome := mergeInto_outcome p.hierarchy.goesBy_true (p.sane_unknown count) start
      (.start start) tracked
    refine bind_eq_ok_iff.2 ⟨t, mergeInto_persists agrees _ _ _ t merged, ?_⟩
    exact run_persists agrees posed _ t (outcome.of_ok merged).1 t' ran

end TypingProblem

end ClassInstrument
