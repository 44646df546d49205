import ClassInstrument.Proofs.Bytes.Traverse
import ClassInstrument.Proofs.Typing.Heights
import ClassInstrument.Proofs.Typing.Order
import ClassInstrument.Proofs.Typing.Transfer
import ClassInstrument.Typing.Solve

/-!
# States that are settled

What is known before a step only ever moves up, and a step whose state has changed is executed
again.  So whatever is not waiting to be executed is settled: the state behind it can stand for
what is known wherever control goes on.

* `TypingProblem.Reached` — the steps that control can reach;
* `TypingProblem.Flows` — **one step is settled**;
* `Typing.Grows` — what one typing knows, another one knows too, or better;
* `Typing.Attained` — the greatest height is that of some operand stack;
* `TypingProblem.round_outcome` — one round settles its step;
* `TypingProblem.Solved`, `TypingProblem.solve_outcome` — **in the end all steps are settled**.
-/

namespace ClassInstrument

variable {le : String → String → Prop}

/-! ### What is known -/

namespace Typing

/-- The state before a step, if it was reached. -/
def state? (t : Typing) (i : Nat) : Option State := t.states[i]?.join

/-- A state can stand for the one before a step. -/
def Accepts (t : Typing) (le : String → String → Prop) (i : Nat) (s : State) : Prop :=
  s.Fits le (t.state? i)

/-- A handler accepts the locals before and behind a step. -/
def Catches (t : Typing) (le : String → String → Prop) (r : HandlerRange) (before behind : State) :
    Prop :=
  t.Accepts le r.target ⟨before.locals, [r.caught]⟩
    ∧ t.Accepts le r.target ⟨behind.locals, [r.caught]⟩

/-- Some operand stack is as high as the greatest one. -/
def Attained (t : Typing) : Prop := ∃ i s, t.state? i = some s ∧ t.height ≤ s.stack.length

/-- From one typing to another states move up, and no height is made up. -/
structure Rises (le : String → String → Prop) (t t' : Typing) : Prop where
  states : ∀ i s, t.state? i = some s → t'.Accepts le i s
  height : t.height ≤ t'.height
  attained : t'.height ≤ t.height ∨ t'.Attained

/-- From one typing to the next states move up, and each one that does waits. -/
structure Grows (le : String → String → Prop) (t t' : Typing) : Prop extends Rises le t t' where
  pending : ∀ i, i ∉ t'.pending → i ∉ t.pending ∧ t'.state? i = t.state? i

/-- A typing in which a state before a step becomes known, or known better. -/
def put (t : Typing) (i : Nat) (s : State) : Typing :=
  ⟨t.states.setIfInBounds i (some s), i :: t.pending, max t.height s.stack.length⟩

theorem state?_put {t : Typing} {i : Nat} (inside : i < t.states.size) (s : State) (j : Nat) :
    (t.put i s).state? j = if i = j then some s else t.state? j := by
  unfold put state?
  dsimp only
  rw [Array.getElem?_setIfInBounds]
  split
  · rfl
  · rfl

theorem Grows.refl (t : Typing) : t.Grows le t where
  states _ s known := ⟨s, known, .refl s⟩
  height := Nat.le_refl _
  attained := .inl (Nat.le_refl _)
  pending _ settled := ⟨settled, rfl⟩

/-- A height that is accepted somewhere is attained. -/
theorem Accepts.attained {t : Typing} {i : Nat} {s : State} (accepts : t.Accepts le i s)
    (bound : t.height ≤ s.stack.length) : t.Attained := by
  obtain ⟨s', known, below⟩ := accepts
  exact ⟨i, s', known, below.stack.length_eq ▸ bound⟩

section Order

variable {h : Hierarchy} (order : h.GoesBy le)

include order

theorem Accepts.mono {t t' : Typing} (rises : t.Rises le t') {i : Nat} {s : State}
    (accepts : t.Accepts le i s) : t'.Accepts le i s := by
  obtain ⟨s', known, below⟩ := accepts
  obtain ⟨s'', known', above⟩ := rises.states i s' known
  exact ⟨s'', known', below.trans order above⟩

theorem Catches.mono {t t' : Typing} (rises : t.Rises le t') {r : HandlerRange}
    {before behind : State} (catches : t.Catches le r before behind) :
    t'.Catches le r before behind :=
  ⟨catches.1.mono order rises, catches.2.mono order rises⟩

theorem Rises.trans {t t' t'' : Typing} (first : t.Rises le t') (second : t'.Rises le t'') :
    t.Rises le t'' where
  states i s known := Accepts.mono order second (first.states i s known)
  height := Nat.le_trans first.height second.height
  attained := by
    rcases second.attained with lower | attained
    · rcases first.attained with lower' | ⟨i, s, known, bound⟩
      · exact .inl (Nat.le_trans lower lower')
      · exact .inr ((second.states i s known).attained (Nat.le_trans lower bound))
    · exact .inr attained

theorem Grows.trans {t t' t'' : Typing} (first : t.Grows le t') (second : t'.Grows le t'') :
    t.Grows le t'' where
  toRises := first.toRises.trans order second.toRises
  pending i settled := by
    obtain ⟨earlier, same⟩ := second.pending i settled
    obtain ⟨earliest, same'⟩ := first.pending i earlier
    exact ⟨earliest, same.trans same'⟩

end Order

/-- A state that moves up. -/
theorem grows_put {t : Typing} {i : Nat} (inside : i < t.states.size) {s : State}
    (above : ∀ s', t.state? i = some s' → s'.Assignable le s) : t.Grows le (t.put i s) where
  states j s' known := by
    by_cases same : i = j
    · subst same
      exact ⟨s, by rw [state?_put inside, if_pos rfl], above s' known⟩
    · exact ⟨s', by rw [state?_put inside, if_neg same, known], .refl s'⟩
  height := Nat.le_max_left _ _
  attained := by
    rcases Nat.le_total s.stack.length t.height with lower | higher
    · exact .inl (Nat.max_le.2 ⟨Nat.le_refl _, lower⟩)
    · exact .inr ⟨i, s, by rw [state?_put inside, if_pos rfl],
        Nat.max_le.2 ⟨higher, Nat.le_refl _⟩⟩
  pending j settled := by
    rw [put, List.mem_cons, not_or] at settled
    exact ⟨settled.2, by rw [state?_put inside, if_neg fun same => settled.1 same.symm]⟩

end Typing

/-! ### What holds at all times -/

namespace TypingProblem

/-- The steps that control can reach: the first one, and those it goes to from a step that is
reached, to its targets, behind it, or to a handler around it. -/
inductive Reached (p : TypingProblem) : Nat → Prop
  | start (some : 0 < p.size) : Reached p 0
  | jump {i j : Nat} {step : Step} {label : Label} (reached : Reached p i)
      (here : p.context.steps[i]? = some step) (target : label ∈ step.operand.targets)
      (place : p.target label = .ok j) : Reached p j
  | next {i : Nat} {step : Step} (reached : Reached p i) (here : p.context.steps[i]? = some step)
      (on : step.opcode.isUnconditional = false) (inside : i + 1 < p.size) : Reached p (i + 1)
  | handler {i : Nat} {r : HandlerRange} (reached : Reached p i) (range : r ∈ p.handlers)
      (covered : r.covers i = true) : Reached p r.target

variable (p : TypingProblem)

/-- The handlers stand before steps, and each catches objects of a class. -/
structure Posed : Prop where
  target : ∀ r ∈ p.handlers, r.target < p.size
  caught : ∀ r ∈ p.handlers, ∃ name, r.caught = .object name

/-- A step that is reached creates an object. -/
def Creates (i : Nat) : Prop :=
  p.Reached i ∧ ∃ step, p.context.steps[i]? = some step ∧ step.opcode = Opcode.new

/-- What is known of the states at all times. -/
structure Sane (count : Nat) (t : Typing) : Prop where
  size : t.states.size = p.size
  reached : ∀ i s, t.state? i = some s → p.Reached i
  tracked : ∀ i s, t.state? i = some s → s.Tracked p.Creates count
  height : ∀ i s, t.state? i = some s → s.stack.length ≤ t.height

/-- **A step is settled**: it can be executed in the state before it, and what is behind it can
stand for what is known wherever control goes on. -/
structure Flows (le : String → String → Prop) (t : Typing) (i : Nat) (s : State) (step : Step)
    (behind : State) : Prop where
  here : p.context.steps[i]? = some step
  executed : p.context.execute i step s = .ok behind
  height : behind.stack.length ≤ t.height
  jump : ∀ label ∈ step.operand.targets, ∃ j, p.target label = .ok j ∧ t.Accepts le j behind
  next : step.opcode.isUnconditional = false → t.Accepts le (i + 1) behind
  caught : ∀ r ∈ p.handlers, r.covers i = true → t.Catches le r s behind

variable {p} {count : Nat} {t : Typing}

theorem Sane.put (sane : p.Sane count t) {i : Nat} (inside : i < p.size) (reached : p.Reached i)
    {s : State} (tracked : s.Tracked p.Creates count) : p.Sane count (t.put i s) := by
  rw [← sane.size] at inside
  have each : ∀ j s', (t.put i s).state? j = some s' →
      j = i ∧ s' = s ∨ t.state? j = some s' := by
    intro j s' known
    rw [Typing.state?_put inside] at known
    split at known
    · next same => exact .inl ⟨same.symm, (Option.some.inj known).symm⟩
    · exact .inr known
  refine ⟨?_, fun j s' known => ?_, fun j s' known => ?_, fun j s' known => ?_⟩
  · rw [Typing.put, Array.size_setIfInBounds, sane.size]
  · rcases each j s' known with ⟨rfl, -⟩ | old
    · exact reached
    · exact sane.reached j s' old
  · rcases each j s' known with ⟨-, rfl⟩ | old
    · exact tracked
    · exact sane.tracked j s' old
  · rcases each j s' known with ⟨-, rfl⟩ | old
    · exact Nat.le_max_right _ _
    · exact Nat.le_trans (sane.height j s' old) (Nat.le_max_left _ _)

/-- Which steps wait has nothing to do with what is known. -/
theorem Sane.waiting {states : Array (Option State)} {pending pending' : List Nat} {height : Nat}
    (sane : p.Sane count ⟨states, pending, height⟩) : p.Sane count ⟨states, pending', height⟩ :=
  ⟨sane.size, sane.reached, sane.tracked, sane.height⟩

/-- A step that has a state keeps track of allocation sites. -/
theorem Sane.execute (sane : p.Sane count t) {i : Nat} {before : State} {step : Step}
    (known : t.state? i = some before) (here : p.context.steps[i]? = some step) :
    Ends (State.Tracked p.Creates count) (p.context.execute i step before) := by
  have created : ∀ site, p.Creates site → site < p.context.steps.size :=
    fun site ⟨_, _, there, _⟩ => (Array.getElem?_eq_some_iff.1 there).1
  exact TypingContext.execute_tracked (sane.tracked i before known) created
    fun new => ⟨sane.reached i before known, step, here, new⟩

/-- What a handler finds where a step is done. -/
theorem Posed.tracked (posed : p.Posed) {s : State} (tracked : s.Tracked p.Creates count)
    {r : HandlerRange} (range : r ∈ p.handlers) :
    State.Tracked p.Creates count ⟨s.locals, [r.caught]⟩ := by
  obtain ⟨name, caught⟩ := posed.caught r range
  refine ⟨tracked.length, tracked.locals, fun slot single => ?_⟩
  rw [List.mem_singleton.1 single, caught]
  exact trivial

theorem Flows.mono {h : Hierarchy} (order : h.GoesBy le) {t' : Typing} (rises : t.Rises le t')
    {i : Nat} {s : State} {step : Step} {behind : State} (flows : p.Flows le t i s step behind) :
    p.Flows le t' i s step behind where
  here := flows.here
  executed := flows.executed
  height := Nat.le_trans flows.height rises.height
  jump label member := by
    obtain ⟨j, target, accepts⟩ := flows.jump label member
    exact ⟨j, target, accepts.mono order rises⟩
  next on := (flows.next on).mono order rises
  caught r member covers := (flows.caught r member covers).mono order rises

/-! ### One round -/

section Round

variable (order : p.hierarchy.GoesBy le) (posed : p.Posed)

theorem target_outcome (label : Label) : Ends (fun j => j < p.size) (p.target label) := by
  unfold target Positions.get
  cases p.positions[label]? with
  | none => exact trivial
  | some position =>
    show Ends _ (if position < p.size then _ else _)
    split
    · next less => exact less
    · exact trivial

/-- How a state is merged into what is known before a step. -/
theorem mergeInto_eq (p : TypingProblem) (t : Typing) (i : Nat) (incoming : State) :
    p.mergeInto t i incoming = match t.state? i with
      | none => .ok (t.put i incoming)
      | some current =>
        if current.stack.length ≠ incoming.stack.length then
          .error (.encoding (.stackHeights current.stack.length incoming.stack.length
            ((p.context.steps[i]?.map Step.insn).getD default)))
        else if State.merge p.hierarchy current incoming = current then .ok t
        else .ok (t.put i (State.merge p.hierarchy current incoming)) := by
  obtain ⟨states, pending, height⟩ := t
  rfl

include order in
/-- A state is merged into what is known before a step, which can stand for it afterwards. -/
theorem mergeInto_outcome (sane : p.Sane count t) {i : Nat} (less : i < p.size)
    (reached : p.Reached i) {incoming : State} (tracked : incoming.Tracked p.Creates count) :
    Ends (fun t' => p.Sane count t' ∧ t.Grows le t' ∧ t'.Accepts le i incoming)
      (p.mergeInto t i incoming) := by
  have bound : i < t.states.size := by rw [sane.size]; exact less
  have moved : ∀ {s : State}, s.Tracked p.Creates count → incoming.Assignable le s →
      (∀ s', t.state? i = some s' → s'.Assignable le s) →
      p.Sane count (t.put i s) ∧ t.Grows le (t.put i s) ∧ (t.put i s).Accepts le i incoming :=
    fun {s} tracked below above => ⟨sane.put less reached tracked, Typing.grows_put bound above,
      s, by rw [Typing.state?_put bound, if_pos rfl], below⟩
  obtain ⟨states, pending, height⟩ := t
  unfold mergeInto
  dsimp only
  split
  · next unknown =>
    refine moved tracked (.refl incoming) fun s' known => ?_
    rw [show states[i]?.join = some s' from known] at unknown
    cases unknown
  · next current known =>
    split
    · exact trivial
    · next stack =>
      have own := sane.tracked i current known
      have above := State.assignable_merge order (own.length.trans tracked.length.symm)
        (Decidable.not_not.1 stack)
      split
      · next same =>
        rw [same] at above
        exact ⟨sane, .refl _, current, known, above.2⟩
      · refine moved (State.tracked_merge own tracked) above.2 fun s' known' => ?_
        rw [show states[i]?.join = some s' from known'] at known
        cases known
        exact above.1

include order in
/-- Two states that are merged one after the other. -/
theorem mergeBoth_outcome (sane : p.Sane count t) {i : Nat} (less : i < p.size)
    (reached : p.Reached i) {first second : State} (tracked : first.Tracked p.Creates count)
    (tracked' : second.Tracked p.Creates count) :
    Ends (fun t' => p.Sane count t' ∧ t.Grows le t'
      ∧ t'.Accepts le i first ∧ t'.Accepts le i second)
      (p.mergeInto t i first >>= fun t => p.mergeInto t i second) := by
  refine (mergeInto_outcome order sane less reached tracked).bind fun t' ⟨sane', grows, here⟩ => ?_
  refine (mergeInto_outcome order sane' less reached tracked').imp ?_
  exact fun t'' ⟨sane'', grows', there⟩ =>
    ⟨sane'', grows.trans order grows', here.mono order grows'.toRises, there⟩

include order posed in
/-- All handlers around a step accept the locals before and behind it. -/
theorem mergeHandlers_outcome (sane : p.Sane count t) {i : Nat} (reached : p.Reached i)
    {before behind : State} (tracked : before.Tracked p.Creates count)
    (tracked' : behind.Tracked p.Creates count) :
    Ends (fun t' => p.Sane count t' ∧ t.Grows le t'
      ∧ ∀ r ∈ p.handlers, r.covers i = true → t'.Catches le r before behind)
      (p.mergeHandlers i before behind t) := by
  have all : Ends (fun t' => p.Sane count t' ∧ t.Grows le t'
      ∧ ∀ r ∈ p.handlers.filter (·.covers i), t'.Catches le r before behind)
      (p.mergeHandlers i before behind t) := by
    refine Ends.foldlM (I := fun (done : List HandlerRange) t' => p.Sane count t'
      ∧ t.Grows le t' ∧ ∀ r ∈ done, t'.Catches le r before behind)
      ⟨sane, .refl t, fun _ h => (nomatch h)⟩ ?_
    intro done r member t' ⟨sane', grows, earlier⟩
    obtain ⟨range, covers⟩ := List.mem_filter.1 member
    refine (mergeBoth_outcome order sane' (posed.target r range) (reached.handler range covers)
      (posed.tracked tracked range) (posed.tracked tracked' range)).imp ?_
    intro t'' ⟨sane'', grows', here⟩
    refine ⟨sane'', grows.trans order grows', fun r' member' => ?_⟩
    rcases List.mem_append.1 member' with old | new
    · exact (earlier r' old).mono order grows'.toRises
    · rw [List.mem_singleton.1 new]
      exact here
  exact all.imp fun t' ⟨sane', grows, caught⟩ => ⟨sane', grows, fun r member covers =>
    caught r (List.mem_filter.2 ⟨member, covers⟩)⟩

/-- Where control goes on behind a step that is reached. -/
theorem successors_outcome {i : Nat} (reached : p.Reached i) {step : Step}
    (here : p.context.steps[i]? = some step) :
    Ends (fun next => (∀ label ∈ step.operand.targets, ∃ j ∈ next, p.target label = .ok j)
      ∧ (step.opcode.isUnconditional = false → i + 1 ∈ next)
      ∧ ∀ j ∈ next, p.Reached j ∧ j < p.size) (p.successors i step) := by
  have all : Ends (List.Forall₂ (fun label j => label ∈ step.operand.targets
      ∧ j < p.size ∧ p.target label = .ok j) step.operand.targets)
      (step.operand.targets.mapM p.target) :=
    Ends.mapM fun label member => (target_outcome label).self.imp fun j ⟨less, place⟩ =>
      ⟨member, less, place⟩
  refine all.bind fun targets found => ?_
  have jump : ∀ label ∈ step.operand.targets, ∃ j ∈ targets, p.target label = .ok j := by
    intro label member
    obtain ⟨j, inside, -, -, place⟩ := Traverse.exists_of_mem_right found.flip member
    exact ⟨j, inside, place⟩
  have back : ∀ j ∈ targets, p.Reached j ∧ j < p.size := by
    intro j member
    obtain ⟨label, -, target, less, place⟩ := Traverse.exists_of_mem_right found member
    exact ⟨reached.jump here target place, less⟩
  split
  · next stops => exact ⟨jump, fun on => absurd stops (by simp [on]), back⟩
  · next on =>
    rw [Bool.not_eq_true] at on
    split
    · next less =>
      refine ⟨fun label member => ?_, fun _ => List.mem_append_right _ List.mem_cons_self,
        fun j member => ?_⟩
      · obtain ⟨j, inside, place⟩ := jump label member
        exact ⟨j, List.mem_append_left _ inside, place⟩
      · rcases List.mem_append.1 member with target | next
        · exact back j target
        · rw [List.mem_singleton.1 next]
          exact ⟨reached.next here on less, less⟩
    · exact trivial

include order in
/-- A state is merged into what is known before some steps, all of which accept it then. -/
theorem mergeAll_outcome (sane : p.Sane count t) {next : List Nat}
    (reached : ∀ j ∈ next, p.Reached j ∧ j < p.size) {behind : State}
    (tracked : behind.Tracked p.Creates count) :
    Ends (fun t' => p.Sane count t' ∧ t.Grows le t' ∧ ∀ j ∈ next, t'.Accepts le j behind)
      (next.foldlM (fun t position => p.mergeInto t position behind) t) := by
  refine Ends.foldlM (I := fun (done : List Nat) t' => p.Sane count t'
    ∧ t.Grows le t' ∧ ∀ j ∈ done, t'.Accepts le j behind)
    ⟨sane, .refl t, fun _ h => (nomatch h)⟩ ?_
  intro done j member t' ⟨sane', grows, earlier⟩
  obtain ⟨reached', less⟩ := reached j member
  refine (mergeInto_outcome order sane' less reached' tracked).imp ?_
  intro t'' ⟨sane'', grows', there⟩
  refine ⟨sane'', grows.trans order grows', fun j' member' => ?_⟩
  rcases List.mem_append.1 member' with old | new
  · exact (earlier j' old).mono order grows'.toRises
  · rw [List.mem_singleton.1 new]
    exact there

include order posed in
/-- **One round settles its step.** -/
theorem round_outcome (sane : p.Sane count t) {i : Nat} {before : State} {step : Step}
    (known : t.state? i = some before) (here : p.context.steps[i]? = some step) :
    Ends (fun t' => p.Sane count t' ∧ t.Grows le t'
      ∧ ∃ behind, p.Flows le t' i before step behind) (p.round t i step before) := by
  have reached := sane.reached i before known
  refine (sane.execute known here).self.bind fun behind ⟨tracked, executed⟩ => ?_
  have sane' : p.Sane count { t with height := max t.height behind.stack.length } :=
    ⟨sane.size, sane.reached, sane.tracked, fun j s known =>
      Nat.le_trans (sane.height j s known) (Nat.le_max_left _ _)⟩
  refine (mergeHandlers_outcome order posed sane' reached (sane.tracked i before known)
    tracked).bind fun t₁ ⟨sane₁, grows₁, caught⟩ => ?_
  refine (successors_outcome reached here).bind fun next ⟨jump, on, back⟩ => ?_
  refine (mergeAll_outcome order sane₁ back tracked).imp fun t₂ ⟨sane₂, grows₂, accepted⟩ => ?_
  have grows := grows₁.trans order grows₂
  -- the height behind the step is one in front of the next step, or control does not go on there
  have attained : t₂.height ≤ behind.stack.length → t₂.Attained := by
    intro bound
    cases off : step.opcode.isUnconditional with
    | false => exact (accepted _ (on off)).attained bound
    | true =>
      have lower := TypingContext.length_le_of_unconditional off executed
      exact (grows.states i before known).attained (Nat.le_trans bound lower)
  have grows' : t.Grows le t₂ := by
    refine ⟨⟨grows.states, Nat.le_trans (Nat.le_max_left _ _) grows.height, ?_⟩, grows.pending⟩
    rcases grows.attained with lower | known
    · rcases Nat.le_total behind.stack.length t.height with less | more
      · exact .inl (Nat.le_trans lower (Nat.max_le.2 ⟨Nat.le_refl _, less⟩))
      · exact .inr (attained (Nat.le_trans lower (Nat.max_le.2 ⟨more, Nat.le_refl _⟩)))
    · exact .inr known
  refine ⟨sane₂, grows', behind, here, executed, ?_, fun label member => ?_,
    fun stays => accepted _ (on stays), fun r member covers =>
      (caught r member covers).mono order grows₂.toRises⟩
  · exact Nat.le_trans (Nat.le_max_right t.height _) grows.height
  · obtain ⟨j, inside, place⟩ := jump label member
    exact ⟨j, place, accepted j inside⟩

end Round

/-! ### All rounds -/

section Rounds

variable (p : TypingProblem) {states : Array (Option State)} {i : Nat} {pending : List Nat}
  {height : Nat}

/-- A step without a state is not executed. -/
theorem run_skip (absent : states[i]?.join = none ∨ p.context.steps[i]? = none) (rounds : Nat) :
    p.run (rounds + 1) ⟨states, i :: pending, height⟩ = p.run rounds ⟨states, pending, height⟩ := by
  rw [run]
  rcases absent with absent | absent
  · rw [absent]
  · rw [absent]
    cases states[i]?.join <;> rfl

/-- A step with a state is executed. -/
theorem run_round {before : State} {step : Step} (known : states[i]?.join = some before)
    (here : p.context.steps[i]? = some step) (rounds : Nat) :
    p.run (rounds + 1) ⟨states, i :: pending, height⟩
      = p.round ⟨states, pending, height⟩ i step before >>= p.run rounds := by
  rw [run, known, here]
  dsimp only
  cases p.round ⟨states, pending, height⟩ i step before <;> rfl

end Rounds

/-- At first nothing is known. -/
theorem state?_unknown (p : TypingProblem) (i : Nat) :
    Typing.state? ⟨Array.replicate p.size none, [], 0⟩ i = none := by
  unfold Typing.state?
  dsimp only
  rw [Array.getElem?_replicate]
  split <;> rfl

theorem sane_unknown (p : TypingProblem) (count : Nat) :
    p.Sane count ⟨Array.replicate p.size none, [], 0⟩ := by
  refine ⟨Array.size_replicate, ?_, ?_, ?_⟩ <;>
    exact fun i s known => absurd known (by rw [state?_unknown]; exact nofun)

/-- A typing in which every step that does not wait is settled. -/
structure Partial (p : TypingProblem) (le : String → String → Prop) (count : Nat) (t : Typing) :
    Prop where
  sane : p.Sane count t
  settled : ∀ i s, t.state? i = some s → i ∉ t.pending →
    ∃ step behind, p.Flows le t i s step behind

/-- **A settled typing**: no step waits, the state in front of the first step accepts the entry,
and some operand stack is as high as the typing says. -/
structure Solved (p : TypingProblem) (le : String → String → Prop) (count : Nat) (entry : State)
    (t : Typing) : Prop extends p.Partial le count t where
  done : t.pending = []
  accepts : 0 < p.size → t.Accepts le 0 entry
  attained : t.height = 0 ∨ t.Attained

/-- Every step with a state is settled. -/
theorem Solved.flows {entry : State} (solved : p.Solved le count entry t) {i : Nat} {s : State}
    (known : t.state? i = some s) : ∃ step behind, p.Flows le t i s step behind :=
  solved.settled i s known (by rw [solved.done]; exact List.not_mem_nil)

section Run

variable (order : p.hierarchy.GoesBy le) (posed : p.Posed)

include order in
/-- What was settled stays so while states move up. -/
theorem Partial.step {states : Array (Option State)} {i : Nat} {pending : List Nat} {height : Nat}
    (partially : p.Partial le count ⟨states, i :: pending, height⟩) {t' : Typing}
    (sane : p.Sane count t') (grows : Typing.Grows le ⟨states, pending, height⟩ t')
    (own : ∀ s, Typing.state? ⟨states, pending, height⟩ i = some s →
      ∃ step behind, p.Flows le t' i s step behind) : p.Partial le count t' where
  sane := sane
  settled j s known settled := by
    obtain ⟨earlier, same⟩ := grows.pending j settled
    rw [same] at known
    by_cases here : j = i
    · subst here
      exact own s known
    · obtain ⟨step, behind, flows⟩ := partially.settled j s known (by simp [here, earlier])
      have rises : Typing.Rises le ⟨states, i :: pending, height⟩ t' :=
        ⟨grows.states, grows.height, grows.attained⟩
      exact ⟨step, behind, flows.mono order rises⟩

include order posed

/-- Rounds keep all steps settled that do not wait, until none waits. -/
theorem run_outcome (rounds : Nat) (t : Typing) (partially : p.Partial le count t) :
    Ends (fun t' => p.Partial le count t' ∧ t'.pending = [] ∧ t.Rises le t')
      (p.run rounds t) := by
  induction rounds generalizing t with
  | zero =>
    obtain ⟨states, pending, height⟩ := t
    cases pending with
    | nil => exact ⟨partially, rfl, (Typing.Grows.refl _).toRises⟩
    | cons i pending => exact trivial
  | succ rounds ih =>
    obtain ⟨states, pending, height⟩ := t
    cases pending with
    | nil => exact ⟨partially, rfl, (Typing.Grows.refl _).toRises⟩
    | cons i pending =>
      have sane : p.Sane count ⟨states, pending, height⟩ := partially.sane.waiting
      have onward : ∀ t', p.Sane count t' → Typing.Grows le ⟨states, pending, height⟩ t' →
          (∀ s, Typing.state? ⟨states, pending, height⟩ i = some s →
            ∃ step behind, p.Flows le t' i s step behind) →
          Ends (fun t'' => p.Partial le count t'' ∧ t''.pending = []
            ∧ Typing.Rises le ⟨states, i :: pending, height⟩ t'') (p.run rounds t') := by
        intro t' sane' grows own
        refine (ih t' (partially.step order sane' grows own)).imp ?_
        intro t'' ⟨partially', done, rises⟩
        have all := grows.toRises.trans order rises
        exact ⟨partially', done, all.states, all.height, all.attained⟩
      unfold run
      dsimp only
      split
      · next before step known here =>
        have settles := round_outcome order posed sane known here
        split
        · next t' done =>
          obtain ⟨sane', grows, behind, flows⟩ := settles.of_ok done
          refine onward t' sane' grows fun s known' => ⟨step, behind, ?_⟩
          rw [show s = before from Option.some.inj (known'.symm.trans known)]
          exact flows
        · next e failed => exact settles.ordinary failed
      · next absent =>
        -- the step was never reached: nothing else could be waiting without a state or a step
        refine onward _ sane (.refl _) fun s known => ?_
        have inside : i < p.context.steps.size := by
          have := (Array.getElem?_eq_some_iff.1 (Option.join_eq_some_iff.1 known)).1
          rw [← show states.size = p.context.steps.size from sane.size]
          exact this
        exact absurd (Array.getElem?_eq_getElem inside) (absent s _ known)

/-- **In the end all steps are settled.** -/
theorem solve_outcome {entry : State} (tracked : entry.Tracked p.Creates count) :
    Ends (p.Solved le count entry) (p.solve entry) := by
  have unknown := p.state?_unknown
  have sane := p.sane_unknown count
  unfold solve
  dsimp only
  split
  · next none =>
    refine ⟨⟨sane, fun i s known => ?_⟩, rfl,
      fun some => absurd none (Nat.pos_iff_ne_zero.1 some), .inl rfl⟩
    rw [unknown] at known
    cases known
  · next some =>
    have start : 0 < p.size := Nat.pos_of_ne_zero some
    refine (mergeInto_outcome order sane start (.start start) tracked).bind ?_
    intro t ⟨sane', grows, accepts⟩
    have partially : p.Partial le count t := by
      refine ⟨sane', fun i s known settled => ?_⟩
      rw [(grows.pending i settled).2, unknown] at known
      cases known
    refine (run_outcome order posed _ t partially).imp fun t' ⟨partially', done, rises⟩ => ?_
    exact ⟨partially', done, fun _ => accepts.mono order rises,
      (grows.toRises.trans order rises).attained.imp_left Nat.le_zero.1⟩

end Run

end TypingProblem

end ClassInstrument
