import ClassInstrument.Proofs.Typing.Solve

/-!
# Turns of the loop

Typing a body is a loop: as long as a step waits, it is executed, and the state behind it is merged
into what is known wherever control goes on.  Here the loop is followed turn by turn, however many
it takes, together with the states that change on the way.

* `Typing.Changes` — the states before some steps are replaced, one after another;
* `Typing.Climbs` — what takes the place of a state is another one, further up;
* `TypingProblem.turn`, `TypingProblem.Turns` — one turn, and some of them with all their changes;
* `TypingProblem.Stops` — no step waits any more, or the next turn fails;
* `TypingProblem.turn_outcome` — **in a turn states only climb**;
* `TypingProblem.Turns.kept` — so they do in all turns;
* `TypingProblem.Turns.run_eq`, `TypingProblem.Stops.run_eq` — with enough rounds the typing is what
  the loop stops with.
-/

namespace ClassInstrument

variable {le : String → String → Prop}

namespace Typing

/-! ### Changes -/

/-- The states before some steps are replaced one after another; the last step comes first.  A
relation tells what can take the place of a state, or of none. -/
inductive Changes (R : Option State → State → Prop) (states : Array (Option State)) :
    List Nat → Array (Option State) → Prop
  | none : Changes R states [] states
  | change {changed : List Nat} {states' : Array (Option State)} {i : Nat} {s : State}
      (earlier : Changes R states changed states') (inside : i < states'.size)
      (allowed : R states'[i]?.join s) :
      Changes R states (i :: changed) (states'.setIfInBounds i (some s))

/-- What takes the place of a state is another one, further up.  A state that takes the place of
none has a property. -/
def Climbs (le : String → String → Prop) (New : State → Prop) : Option State → State → Prop
  | none, s => New s
  | some s, s' => s.Assignable le s' ∧ s ≠ s'

/-- The steps whose states were replaced wait in front of all others. -/
def Advances (R : Option State → State → Prop) (t t' : Typing) : Prop :=
  ∃ changed, t'.pending = changed ++ t.pending ∧ Changes R t.states changed t'.states

theorem join_setIfInBounds {states : Array (Option State)} {i : Nat} (inside : i < states.size)
    (s : State) (j : Nat) : (states.setIfInBounds i (some s))[j]?.join
      = if i = j then some s else states[j]?.join :=
  state?_put (t := ⟨states, [], 0⟩) inside s j

namespace Changes

variable {R R' : Option State → State → Prop} {states states' : Array (Option State)}
  {changed : List Nat}

theorem imp (weaker : ∀ old s, R old s → R' old s) (changes : Changes R states changed states') :
    Changes R' states changed states' := by
  induction changes with
  | none => exact .none
  | change _ inside allowed ih => exact .change ih inside (weaker _ _ allowed)

theorem trans {states'' : Array (Option State)} {changed' : List Nat}
    (first : Changes R states changed states') (second : Changes R states' changed' states'') :
    Changes R states (changed' ++ changed) states'' := by
  induction second with
  | none => exact first
  | change _ inside allowed ih => exact .change ih inside allowed

theorem size (changes : Changes R states changed states') : states'.size = states.size := by
  induction changes with
  | none => rfl
  | change _ _ _ ih => rw [Array.size_setIfInBounds, ih]

theorem inside (changes : Changes R states changed states') : ∀ i ∈ changed, i < states.size := by
  induction changes with
  | none => exact nofun
  | change earlier inside _ ih =>
    intro j member
    rcases List.mem_cons.1 member with rfl | member
    · exact earlier.size ▸ inside
    · exact ih j member

end Changes

namespace Climbs

variable {New : State → Prop}

/-- What takes the place of a state is another one. -/
theorem ne {old : Option State} {s : State} (climbs : Climbs le New old s) : old ≠ some s := by
  rintro rfl
  exact climbs.2 rfl

theorem imp {New' : State → Prop} (weaker : ∀ s, New s → New' s) (old : Option State) (s : State)
    (climbs : Climbs le New old s) : Climbs le New' old s :=
  match old with
  | none => weaker s climbs
  | some _ => climbs

end Climbs

namespace Advances

variable {R : Option State → State → Prop} {t t' t'' : Typing}

theorem refl (t : Typing) : t.Advances R t := ⟨[], rfl, .none⟩

theorem trans (first : t.Advances R t') (second : t'.Advances R t'') : t.Advances R t'' := by
  obtain ⟨changed, queued, changes⟩ := first
  obtain ⟨changed', queued', changes'⟩ := second
  exact ⟨changed' ++ changed, by rw [queued', queued, List.append_assoc], changes.trans changes'⟩

theorem put {i : Nat} {s : State} (inside : i < t.states.size) (allowed : R (t.state? i) s) :
    t.Advances R (t.put i s) :=
  ⟨[i], rfl, .change .none inside allowed⟩

end Advances

/-! ### Heights of known states -/

/-- The number of states that are known. -/
def known (states : Array (Option State)) : Nat := states.countP Option.isSome

/-- No operand stack is higher than two slots for every state that is known. -/
def Low (states : Array (Option State)) : Prop :=
  ∀ (i : Nat) (s : State), states[i]?.join = some s → s.stack.length ≤ 2 * known states

theorem known_set {states : Array (Option State)} {i : Nat} (inside : i < states.size)
    (s : State) : known (states.setIfInBounds i (some s))
      = known states + if states[i]?.join = none then 1 else 0 := by
  have here := states.getElem?_eq_getElem inside
  unfold known
  rw [Array.setIfInBounds, dif_pos inside, Array.countP_set, here]
  cases same : states[i] with
  | none => simp
  | some old =>
    -- the old state is taken off the count, which is not 0 then
    have positive : 0 < states.countP Option.isSome :=
      Array.countP_pos_iff.2 ⟨some old, same ▸ states.getElem_mem inside, rfl⟩
    simp only [Option.isSome_some, if_true, Option.join_some, reduceCtorEq, if_false]
    omega

/-- What is new may be higher by two slots than what was known. -/
theorem Changes.low {states states' : Array (Option State)} {changed : List Nat} {high : Nat}
    (changes : Changes (Climbs le fun s => s.stack.length ≤ high) states changed states')
    (bound : high ≤ 2 * known states + 2) (low : Low states) :
    Low states' ∧ known states ≤ known states' := by
  induction changes with
  | none => exact ⟨low, Nat.le_refl _⟩
  | @change _ states' i s _ inside allowed ih =>
    obtain ⟨low', more⟩ := ih
    have count := known_set inside s
    refine ⟨fun j s' there => ?_, by omega⟩
    rw [join_setIfInBounds inside] at there
    split at there
    · cases there
      -- a state that is found is counted itself; one that climbs is as high as before
      cases old : states'[i]?.join with
      | none =>
        rw [old] at allowed count
        have new : s.stack.length ≤ high := allowed
        rw [if_pos rfl] at count
        omega
      | some earlier =>
        rw [old] at allowed
        have less := low' i earlier old
        rw [allowed.1.stack.length_eq] at less
        omega
    · exact Nat.le_trans (low' j s' there) (by omega)

end Typing

/-! ### One turn -/

namespace TypingProblem

open Typing (Advances Changes Climbs)

variable (p : TypingProblem)

/-- One turn of the loop: the step that waits in front is executed, if it has a state. -/
def turn (t : Typing) : Except Failure Typing :=
  match t with
  | ⟨states, [], height⟩ => .ok ⟨states, [], height⟩
  | ⟨states, i :: pending, height⟩ =>
    match states[i]?.join, p.context.steps[i]? with
    | some before, some step => p.round ⟨states, pending, height⟩ i step before
    | _, _ => .ok ⟨states, pending, height⟩

/-- What the loop starts from: only the state before the first step is known. -/
def started (entry : State) : Typing :=
  let unknown : Typing := ⟨Array.replicate p.size none, [], 0⟩
  if p.size = 0 then unknown else unknown.put 0 entry

/-- A number of turns lead from the start to a typing.  The steps whose states changed on the way
are those that were made to wait; the last one comes first. -/
inductive Turns (entry : State) : Nat → List Nat → Typing → Prop
  | start : Turns entry 0 (p.started entry).pending (p.started entry)
  | turn {n : Nat} {changed found : List Nat} {t t' : Typing} {i : Nat} {pending : List Nat}
      (earlier : Turns entry n changed t) (waits : t.pending = i :: pending)
      (turned : p.turn t = .ok t') (queued : t'.pending = found ++ pending) :
      Turns entry (n + 1) (found ++ changed) t'

/-- The loop stops: no step waits any more, or the next turn fails. -/
inductive Stops (t : Typing) : Except Failure Typing → Prop
  | done (none : t.pending = []) : Stops t (.ok t)
  | failed {e : Failure} (error : p.turn t = .error e) : Stops t (.error e)

/-- The loop comes to a stop. -/
def Halts (entry : State) (result : Except Failure Typing) : Prop :=
  ∃ n changed t, p.Turns entry n changed t ∧ p.Stops t result

/-! ### Rounds -/

/-- A round is a turn, if a step waits. -/
theorem run_turn {t : Typing} (waits : t.pending ≠ []) (rounds : Nat) :
    p.run (rounds + 1) t = p.turn t >>= p.run rounds := by
  obtain ⟨states, pending, height⟩ := t
  cases pending with
  | nil => exact absurd rfl waits
  | cons i pending =>
    unfold turn
    dsimp only
    split
    · next before step known here => exact run_round p known here rounds
    · next absent =>
      refine run_skip p ?_ rounds
      cases known : states[i]?.join with
      | none => exact .inl rfl
      | some before =>
        cases here : p.context.steps[i]? with
        | none => exact .inr rfl
        | some step => exact absurd here (absent before step known)

/-- The typing of a body is a number of rounds from the start. -/
theorem solve_eq (entry : State) :
    p.solve entry = p.run (p.rounds entry.locals.length) (p.started entry) := by
  unfold solve started
  dsimp only
  split
  · rw [run]
  · rw [mergeInto_eq, state?_unknown]
    rfl

variable {p} {entry : State} {n : Nat} {changed : List Nat} {t : Typing}

/-- Behind as many rounds as there were turns, the others go on from there. -/
theorem Turns.run_eq (turns : p.Turns entry n changed t) (rounds : Nat) :
    p.run (n + rounds) (p.started entry) = p.run rounds t := by
  induction turns generalizing rounds with
  | start => rw [Nat.zero_add]
  | @turn n _ _ t t' _ _ _ waits turned _ ih =>
    rw [Nat.add_right_comm, Nat.add_assoc, ih, run_turn p (by rw [waits]; exact nofun), turned]
    rfl

/-- Another round finds what the loop stops with. -/
theorem Stops.run_eq {result : Except Failure Typing} (stops : p.Stops t result) (rounds : Nat) :
    p.run (rounds + 1) t = result := by
  cases stops with
  | done none =>
    obtain ⟨states, pending, height⟩ := t
    cases none
    rw [run]
  | @failed e error =>
    have waits : t.pending ≠ [] := by
      obtain ⟨states, pending, height⟩ := t
      rintro rfl
      cases error
    rw [run_turn p waits, error]
    rfl

/-- Turns that end before the rounds do lead to the typing. -/
theorem Turns.solve_eq_ok (turns : p.Turns entry n changed t) (done : t.pending = [])
    (enough : n < p.rounds entry.locals.length) : p.solve entry = .ok t := by
  obtain ⟨more, rounds⟩ := Nat.exists_eq_add_of_lt enough
  rw [solve_eq, rounds, Nat.add_assoc, turns.run_eq, (Stops.done done).run_eq]

/-! ### What a turn changes -/

/-- A computation keeps what is known at all times, and states climb under it. -/
def Climbing (p : TypingProblem) (le : String → String → Prop) (New : State → Prop) (count : Nat)
    (f : Typing → Except Failure Typing) : Prop :=
  ∀ t, p.Sane count t → Ends (fun t' => p.Sane count t' ∧ t.Advances (Climbs le New) t') (f t)

section Climbing

variable {count : Nat} {New : State → Prop} {f g : Typing → Except Failure Typing}

theorem Climbing.comp (first : p.Climbing le New count f) (second : p.Climbing le New count g) :
    p.Climbing le New count fun t => f t >>= g := fun t sane =>
  (first t sane).bind fun t' ⟨sane', advances⟩ =>
    (second t' sane').imp fun _ ⟨sane'', advances'⟩ => ⟨sane'', advances.trans advances'⟩

theorem Climbing.foldlM {α : Type} {f : Typing → α → Except Failure Typing} {l : List α}
    (each : ∀ a ∈ l, p.Climbing le New count fun t => f t a) :
    p.Climbing le New count fun t => l.foldlM f t := by
  intro t sane
  refine Ends.foldlM (I := fun _ t' => p.Sane count t' ∧ t.Advances (Climbs le New) t')
    ⟨sane, .refl t⟩ ?_
  intro _ a member t' ⟨sane', advances⟩
  exact (each a member t' sane').imp fun _ ⟨sane'', advances'⟩ =>
    ⟨sane'', advances.trans advances'⟩

end Climbing

section Turn

variable (order : p.hierarchy.GoesBy le) (posed : p.Posed) {count : Nat} {New : State → Prop}

include order in
/-- A state that is merged takes the place of none, or what is there climbs. -/
theorem mergeInto_climbing {i : Nat} (less : i < p.size) (reached : p.Reached i)
    {incoming : State} (tracked : incoming.Tracked p.Creates count) (new : New incoming) :
    p.Climbing le New count fun t => p.mergeInto t i incoming := by
  intro t sane
  refine (mergeInto_outcome order sane less reached tracked).self.imp ?_
  intro t' ⟨⟨sane', _, _⟩, merged⟩
  refine ⟨sane', ?_⟩
  have inside : i < t.states.size := by rw [sane.size]; exact less
  rw [mergeInto_eq] at merged
  split at merged
  · next unknown =>
    cases merged
    exact .put inside (by rw [unknown]; exact new)
  · next current known =>
    split at merged
    · cases merged
    · next stack =>
      split at merged
      · cases merged
        exact .refl t
      · next other =>
        cases merged
        have locals := (sane.tracked i current known).length.trans tracked.length.symm
        have above := State.assignable_merge order locals (Decidable.not_not.1 stack)
        exact .put inside (by rw [known]; exact ⟨above.1, Ne.symm other⟩)

include order posed

/-- In a round states climb, and what is new is not higher than two slots on top of the step's own
operand stack. -/
theorem round_climbing {i : Nat} {before : State} {step : Step} {high : Nat}
    (bound : before.stack.length + 2 ≤ high) (sane : p.Sane count t)
    (known : t.state? i = some before) (here : p.context.steps[i]? = some step) :
    Ends (fun t' => p.Sane count t'
      ∧ t.Advances (Climbs le fun s => s.stack.length ≤ high) t') (p.round t i step before) := by
  have reached := sane.reached i before known
  have tracked := sane.tracked i before known
  refine (sane.execute known here).self.bind fun behind ⟨tracked', executed⟩ => ?_
  have low : behind.stack.length ≤ high :=
    Nat.le_trans (TypingContext.length_execute_le executed) bound
  have thrown : ∀ {s : State}, s.Tracked p.Creates count → ∀ r ∈ p.handlers.filter (·.covers i),
      p.Climbing le (fun s => s.stack.length ≤ high) count
        fun t => p.mergeInto t r.target ⟨s.locals, [r.caught]⟩ := by
    intro s tracked r member
    obtain ⟨range, covers⟩ := List.mem_filter.1 member
    exact mergeInto_climbing order (posed.target r range) (reached.handler range covers)
      (posed.tracked tracked range) (show 1 ≤ high by omega)
  have handlers : p.Climbing le (fun s => s.stack.length ≤ high) count
      (p.mergeHandlers i before behind) :=
    Climbing.foldlM fun r member => (thrown tracked r member).comp (thrown tracked' r member)
  have sane' : p.Sane count { t with height := max t.height behind.stack.length } :=
    ⟨sane.size, sane.reached, sane.tracked, fun j s known =>
      Nat.le_trans (sane.height j s known) (Nat.le_max_left _ _)⟩
  refine (handlers _ sane').bind fun t₁ ⟨sane₁, advances₁⟩ => ?_
  refine (successors_outcome reached here).bind fun next ⟨_, _, back⟩ => ?_
  have all : p.Climbing le (fun s => s.stack.length ≤ high) count
      fun t => next.foldlM (fun t j => p.mergeInto t j behind) t :=
    Climbing.foldlM fun j member =>
      mergeInto_climbing order (back j member).2 (back j member).1 tracked' low
  exact (all t₁ sane₁).imp fun t₂ ⟨sane₂, advances₂⟩ => ⟨sane₂, advances₁.trans advances₂⟩

/-- **In a turn states only climb**, and those that did wait. -/
theorem turn_outcome (sane : p.Sane count t) {i : Nat} {pending : List Nat}
    (waits : t.pending = i :: pending) {high : Nat}
    (bound : ∀ s, t.state? i = some s → s.stack.length + 2 ≤ high) :
    Ends (fun t' => p.Sane count t' ∧ { t with pending }.Advances
      (Climbs le fun s => s.stack.length ≤ high) t') (p.turn t) := by
  obtain ⟨states, _, height⟩ := t
  cases waits
  have sane' : p.Sane count ⟨states, pending, height⟩ := sane.waiting
  unfold turn
  dsimp only
  split
  · next before step known here =>
    exact round_climbing order posed (bound before known) sane' known here
  · exact ⟨sane', .refl _⟩

end Turn

/-! ### All turns -/

/-- What some turns keep: since nothing was known, states only climbed, and each change made a step
wait, for which one turn is taken. -/
structure Kept (p : TypingProblem) (le : String → String → Prop) (count n : Nat)
    (changed : List Nat) (t : Typing) : Prop where
  sane : p.Sane count t
  changes : Changes (Climbs le fun _ => True) (Array.replicate p.size none) changed t.states
  taken : changed.length = n + t.pending.length
  low : Typing.Low t.states

section Turns

variable {count : Nat} (order : p.hierarchy.GoesBy le) (posed : p.Posed)

theorem low_unknown (p : TypingProblem) : Typing.Low (Array.replicate p.size none) :=
  fun i _ known => absurd ((p.state?_unknown i).symm.trans known) nofun

/-- At the start the first state was found. -/
theorem changes_started (p : TypingProblem) {New : State → Prop} (new : New entry) :
    Changes (Climbs le New) (Array.replicate p.size none) (p.started entry).pending
      (p.started entry).states := by
  unfold started
  dsimp only
  split
  · exact .none
  · next some =>
    refine .change .none (by rw [Array.size_replicate]; exact Nat.pos_of_ne_zero some) ?_
    show Climbs le New (Typing.state? ⟨Array.replicate p.size none, [], 0⟩ 0) entry
    rw [state?_unknown]
    exact new

theorem kept_started (tracked : entry.Tracked p.Creates count) (empty : entry.stack = []) :
    p.Kept le count 0 (p.started entry).pending (p.started entry) := by
  have flat : Changes (Climbs le fun s => s.stack.length ≤ 0) (Array.replicate p.size none)
      (p.started entry).pending (p.started entry).states :=
    p.changes_started (by rw [empty]; exact Nat.le_refl 0)
  refine ⟨?_, p.changes_started trivial, (Nat.zero_add _).symm,
    (flat.low (Nat.zero_le _) p.low_unknown).1⟩
  have sane := p.sane_unknown count
  unfold started
  dsimp only
  split
  · exact sane
  · next some =>
    have less := Nat.pos_of_ne_zero some
    exact sane.put less (.start less) tracked

include order posed

/-- Another turn keeps that. -/
theorem Kept.turn {t' : Typing} {i : Nat} {pending found : List Nat}
    (kept : p.Kept le count n changed t) (waits : t.pending = i :: pending)
    (turned : p.turn t = .ok t') (queued : t'.pending = found ++ pending) :
    p.Kept le count (n + 1) (found ++ changed) t' := by
  obtain ⟨sane, found', queued', changes⟩ := (turn_outcome order posed kept.sane waits
    fun s known => Nat.add_le_add_right (kept.low i s known) 2).of_ok turned
  -- what waits now tells which steps were found
  cases List.append_cancel_right (queued.symm.trans queued')
  refine ⟨sane, kept.changes.trans (changes.imp (Climbs.imp fun _ _ => trivial)), ?_,
    (changes.low (Nat.le_refl _) kept.low).1⟩
  have taken := kept.taken
  rw [waits, List.length_cons] at taken
  rw [queued, List.length_append, List.length_append]
  omega

/-- **All turns keep that.** -/
theorem Turns.kept (tracked : entry.Tracked p.Creates count) (empty : entry.stack = [])
    (turns : p.Turns entry n changed t) : p.Kept le count n changed t := by
  induction turns with
  | start => exact kept_started tracked empty
  | turn _ waits turned queued ih => exact ih.turn order posed waits turned queued

end Turns

end TypingProblem

end ClassInstrument
