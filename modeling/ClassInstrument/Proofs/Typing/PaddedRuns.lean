import ClassInstrument.Proofs.Typing.Padding

/-!
# The analysis with more locals

What is known in front of all steps is the same with more locals, round after round.

* `TypingProblem.Stage`, `TypingProblem.Executes` — the typings that occur on the way, and the steps
  that are executed then;
* `TypingProblem.stage_of_solve` — the typing of a body is one of them;
* `Typing.pad` — a typing with more locals;
* `TypingProblem.round_pad`, `TypingProblem.run_pad` — one round, and all rounds;
* `TypingProblem.solve_pad` — **a body is typed with more locals just as with fewer**.
-/

namespace ClassInstrument

/-! ### The way to a typing -/

namespace TypingProblem

variable (p : TypingProblem)

/-- The typings that occur while a body is typed from a state at its start. -/
inductive Stage (entry : State) : Typing → Prop
  | start {t : Typing} (merged : p.mergeInto ⟨Array.replicate p.size none, [], 0⟩ 0 entry = .ok t) :
    Stage entry t
  | round {states : Array (Option State)} {i : Nat} {pending : List Nat} {height : Nat}
    {before : State} {step : Step} {t : Typing} (stage : Stage entry ⟨states, i :: pending, height⟩)
    (known : states[i]?.join = some before) (here : p.context.steps[i]? = some step)
    (done : p.round ⟨states, pending, height⟩ i step before = .ok t) : Stage entry t
  | skip {states : Array (Option State)} {i : Nat} {pending : List Nat} {height : Nat}
    (stage : Stage entry ⟨states, i :: pending, height⟩)
    (absent : states[i]?.join = none ∨ p.context.steps[i]? = none) :
    Stage entry ⟨states, pending, height⟩

/-- A step is executed in some state while a body is typed. -/
def Executes (entry : State) (i : Nat) (step : Step) (before : State) : Prop :=
  ∃ states pending height, p.Stage entry ⟨states, i :: pending, height⟩
    ∧ states[i]?.join = some before ∧ p.context.steps[i]? = some step

variable {p} {entry : State} {t t' : Typing}

/-- All rounds go through such typings. -/
theorem stage_of_run (rounds : Nat) (stage : p.Stage entry t) (ran : p.run rounds t = .ok t') :
    p.Stage entry t' := by
  induction rounds generalizing t with
  | zero =>
    obtain ⟨states, pending, height⟩ := t
    cases pending with
    | nil => exact Except.ok.inj ran ▸ stage
    | cons i pending => cases ran
  | succ rounds ih =>
    obtain ⟨states, pending, height⟩ := t
    cases pending with
    | nil => exact Except.ok.inj ran ▸ stage
    | cons i pending =>
      cases known : states[i]?.join with
      | none =>
        rw [run_skip p (.inl known)] at ran
        exact ih (.skip stage (.inl known)) ran
      | some before =>
        cases here : p.context.steps[i]? with
        | none =>
          rw [run_skip p (.inr here)] at ran
          exact ih (.skip stage (.inr here)) ran
        | some step =>
          rw [run_round p known here] at ran
          obtain ⟨t₁, done, ran⟩ := Traverse.bind_eq_ok_iff.1 ran
          exact ih (.round stage known here done) ran

/-- The typing of a body is the last one of them. -/
theorem stage_of_solve (some : 0 < p.size) (solved : p.solve entry = .ok t) :
    p.Stage entry t := by
  unfold solve at solved
  dsimp only at solved
  rw [if_neg (Nat.ne_of_gt some)] at solved
  obtain ⟨t₀, merged, ran⟩ := Traverse.bind_eq_ok_iff.1 solved
  exact stage_of_run _ (.start merged) ran

end TypingProblem

/-! ### Typings with more locals -/

namespace Typing

/-- The typing with more locals. -/
def pad (more : Nat) (t : Typing) : Typing :=
  { t with states := t.states.map (Option.map (State.pad more)) }

/-- All states that are known have a property. -/
def All (P : State → Prop) (t : Typing) : Prop := ∀ i s, t.state? i = some s → P s

theorem All.put {P : State → Prop} {t : Typing} {i : Nat} {s : State} (all : t.All P) (here : P s) :
    (t.put i s).All P := by
  intro j s' known
  unfold Typing.put state? at known
  dsimp only at known
  rw [Array.getElem?_setIfInBounds] at known
  split at known
  · split at known
    · cases known
      exact here
    · cases known
  · exact all j s' known

/-- All states that are known are well formed. -/
def Formed (count : Nat) (t : Typing) : Prop := t.All (State.Formed count)

variable {more count : Nat} {t : Typing}

theorem state?_pad (i : Nat) : (t.pad more).state? i = (t.state? i).map (State.pad more) := by
  unfold pad state?
  dsimp only
  rw [Array.getElem?_map]
  rcases t.states[i]? with _ | _ | s <;> rfl

theorem pad_put (i : Nat) (s : State) : (t.pad more).put i (s.pad more) = (t.put i s).pad more := by
  unfold put pad
  dsimp only
  rw [Array.map_setIfInBounds]
  rfl

theorem Formed.put {i : Nat} {s : State} (formed : t.Formed count) (here : s.Formed count) :
    (t.put i s).Formed count :=
  All.put formed here

/-- One computation gives what another one gives, with more locals. -/
def Pads (count more : Nat) (padded plain : Except Failure Typing) : Prop :=
  padded = plain.map (pad more) ∧ ∀ t, plain = .ok t → t.Formed count

theorem Pads.ok (formed : t.Formed count) : Pads count more (.ok (t.pad more)) (.ok t) :=
  ⟨rfl, fun _ same => Except.ok.inj same ▸ formed⟩

theorem Pads.error (e : Failure) : Pads count more (.error e) (.error e) :=
  ⟨rfl, fun _ same => (nomatch same)⟩

theorem Pads.bind {padded plain : Except Failure Typing} (first : Pads count more padded plain)
    {f g : Typing → Except Failure Typing}
    (second : ∀ t, t.Formed count → Pads count more (f (t.pad more)) (g t)) :
    Pads count more (padded >>= f) (plain >>= g) := by
  obtain ⟨same, formed⟩ := first
  rw [same]
  cases plain with
  | error e => exact Pads.error e
  | ok t => exact second t (formed t rfl)

theorem Pads.foldlM {α : Type} {f g : Typing → α → Except Failure Typing} {l : List α}
    (formed : t.Formed count)
    (each : ∀ a ∈ l, ∀ t : Typing, t.Formed count → Pads count more (f (t.pad more) a) (g t a)) :
    Pads count more (l.foldlM f (t.pad more)) (l.foldlM g t) := by
  induction l generalizing t with
  | nil => exact Pads.ok formed
  | cons a l ih =>
    rw [List.foldlM_cons, List.foldlM_cons]
    refine Pads.bind (each a List.mem_cons_self t formed) fun t' formed' => ?_
    exact ih formed' fun b member => each b (List.mem_cons_of_mem _ member)

end Typing

/-! ### Rounds -/

namespace TypingProblem

open Typing

variable {p : TypingProblem} {count more : Nat} {t : Typing}

/-- Merging with more locals. -/
theorem mergeInto_pad (formed : t.Formed count) (i : Nat) {incoming : State}
    (here : incoming.Formed count) :
    Pads count more (p.mergeInto (t.pad more) i (incoming.pad more))
      (p.mergeInto t i incoming) := by
  rw [mergeInto_eq, mergeInto_eq, state?_pad]
  cases known : t.state? i with
  | none =>
    rw [Option.map_none, pad_put]
    exact Pads.ok (formed.put here)
  | some current =>
    have own := formed i current known
    have moved : State.merge p.hierarchy (current.pad more) (incoming.pad more)
        = (State.merge p.hierarchy current incoming).pad more :=
      State.merge_pad own.paired.whole (own.length.trans here.length.symm)
    rw [Option.map_some]
    dsimp only
    by_cases heights : current.stack.length ≠ incoming.stack.length
    · have heights' : (current.pad more).stack.length ≠ (incoming.pad more).stack.length := heights
      rw [if_pos heights, if_pos heights']
      exact Pads.error _
    · have heights' : ¬(current.pad more).stack.length ≠ (incoming.pad more).stack.length := heights
      rw [if_neg heights, if_neg heights', moved]
      by_cases same : State.merge p.hierarchy current incoming = current
      · rw [if_pos (congrArg _ same), if_pos same]
        exact Pads.ok formed
      · rw [if_neg fun h => same (State.pad_injective h), if_neg same, pad_put]
        exact Pads.ok (formed.put (own.merge here))

/-- What a handler catches, with more locals. -/
theorem mergeHandlers_pad (formed : t.Formed count) (i : Nat) {before behind : State}
    (here : before.Formed count) (there : behind.Formed count) :
    Pads count more (p.mergeHandlers i (before.pad more) (behind.pad more) (t.pad more))
      (p.mergeHandlers i before behind t) := by
  have thrown : ∀ {s : State} (slot : Slot), s.Formed count →
      State.Formed count ⟨s.locals, [slot]⟩ := fun slot own => ⟨own.length, own.paired⟩
  refine Pads.foldlM formed fun r _ t formed => ?_
  refine (mergeInto_pad formed r.target (thrown r.caught here)).bind fun t formed => ?_
  exact mergeInto_pad formed r.target (thrown r.caught there)

/-- **One round with more locals.** -/
theorem round_pad (formed : t.Formed count) {i : Nat} {step : Step} {before : State}
    (known : t.state? i = some before) (names : step.NamesBelow count)
    (narrow : step.StoresNarrow before) :
    Pads count more (p.round (t.pad more) i step (before.pad more)) (p.round t i step before) := by
  have own := formed i before known
  unfold round
  rw [TypingContext.execute_pad (own.length ▸ names) narrow]
  cases executed : p.context.execute i step before with
  | error e => exact Pads.error e
  | ok behind =>
    have there : behind.Formed count := own.execute executed
    have raised : Typing.Formed count { t with height := max t.height behind.stack.length } :=
      formed
    refine (mergeHandlers_pad raised i own there).bind fun t formed => ?_
    cases p.successors i step with
    | error e => exact Pads.error e
    | ok next => exact Pads.foldlM formed fun j _ t formed => mergeInto_pad formed j there

/-- **All rounds with more locals.**  The locals that are named are there without them, and no
instruction stores half of a value. -/
theorem run_pad (posed : p.Posed) {entry : State}
    (names : ∀ i step, p.Reached i → p.context.steps[i]? = some step → step.NamesBelow count)
    (narrow : ∀ i step before, p.Executes entry i step before → step.StoresNarrow before)
    (rounds : Nat) (t : Typing) (stage : p.Stage entry (t.pad more)) (sane : p.Sane count t)
    (formed : t.Formed count) :
    p.run rounds (t.pad more) = (p.run rounds t).map (Typing.pad more) := by
  induction rounds generalizing t with
  | zero =>
    obtain ⟨states, pending, height⟩ := t
    cases pending <;> rfl
  | succ rounds ih =>
    obtain ⟨states, pending, height⟩ := t
    cases pending with
    | nil => rfl
    | cons i pending =>
      let rest : Typing := ⟨states, pending, height⟩
      have sane' : p.Sane count rest := sane.waiting
      have formed' : rest.Formed count := formed
      have padded : (rest.pad more).state? i = (rest.state? i).map (State.pad more) :=
        state?_pad i
      cases known : rest.state? i with
      | none =>
        rw [known] at padded
        refine (run_skip p (.inl padded) rounds).trans ?_
        rw [run_skip p (.inl known)]
        exact ih rest (.skip stage (.inl padded)) sane' formed'
      | some before =>
        rw [known] at padded
        cases here : p.context.steps[i]? with
        | none =>
          refine (run_skip p (.inr here) rounds).trans ?_
          rw [run_skip p (.inr here)]
          exact ih rest (.skip stage (.inr here)) sane' formed'
        | some step =>
          have executes : p.Executes entry i step (before.pad more) :=
            ⟨_, _, _, stage, padded, here⟩
          have fits : step.StoresNarrow (before.pad more) := narrow i step _ executes
          have pads : Pads count more (p.round (rest.pad more) i step (before.pad more))
              (p.round rest i step before) := round_pad formed' known
            (names i step (sane.reached i before known) here) fits
          have outcome := round_outcome p.hierarchy.goesBy_true posed sane' known here
          refine (run_round p padded here rounds).trans ?_
          rw [run_round p known here]
          show p.round (rest.pad more) i step (before.pad more) >>= p.run rounds = _
          rw [pads.1]
          refine bind_map_eq fun t' done => ?_
          have done' := pads.1.trans (congrArg _ done)
          exact ih t' (.round stage padded here done') (outcome.of_ok done).1 (pads.2 t' done)

/-- **A body is typed with more locals just as with fewer.** -/
theorem solve_pad (posed : p.Posed) {entry : State} (tracked : entry.Tracked p.Creates count)
    (paired : Slot.Paired entry.locals)
    (names : ∀ i step, p.Reached i → p.context.steps[i]? = some step → step.NamesBelow count)
    (narrow : ∀ i step before, p.Executes (entry.pad more) i step before →
      step.StoresNarrow before)
    (rounds : p.rounds (entry.pad more).locals.length = p.rounds entry.locals.length) :
    p.solve (entry.pad more) = (p.solve entry).map (Typing.pad more) := by
  have unknown : Typing.pad more ⟨Array.replicate p.size none, [], 0⟩
      = ⟨Array.replicate p.size none, [], 0⟩ := by
    unfold Typing.pad
    rw [Array.map_replicate]
    rfl
  have nothing : Typing.Formed count ⟨Array.replicate p.size none, [], 0⟩ := fun i s known => by
    rw [p.state?_unknown] at known
    cases known
  unfold solve
  dsimp only
  by_cases some : p.size = 0
  · rw [if_pos some, if_pos some]
    exact congrArg Except.ok unknown.symm
  · rw [if_neg some, if_neg some, rounds]
    have start : 0 < p.size := Nat.pos_of_ne_zero some
    have pads : Pads count more
        (p.mergeInto (Typing.pad more ⟨Array.replicate p.size none, [], 0⟩) 0 (entry.pad more))
        (p.mergeInto ⟨Array.replicate p.size none, [], 0⟩ 0 entry) :=
      mergeInto_pad nothing 0 ⟨tracked.length, paired⟩
    have outcome := mergeInto_outcome p.hierarchy.goesBy_true (p.sane_unknown count) start
      (.start start) tracked
    cases merged : p.mergeInto ⟨Array.replicate p.size none, [], 0⟩ 0 entry with
    | error e =>
      rw [← unknown, pads.1, merged]
      rfl
    | ok t =>
      have merged' := pads.1.trans (congrArg _ merged)
      rw [unknown] at merged'
      rw [merged']
      exact run_pad posed names narrow _ t (.start merged') (outcome.of_ok merged).1
        (pads.2 t merged)

end TypingProblem

end ClassInstrument
