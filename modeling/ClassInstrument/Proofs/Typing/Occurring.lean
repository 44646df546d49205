import ClassInstrument.Proofs.Typing.PaddedRuns

/-!
# The states that occur

An analysis comes across more states than those that it ends with: what is behind a step that was
executed, what a handler is to be entered with, and what is known between two merges of one round,
also if the analysis fails later on.  What instructions, handlers and merges keep holds of all of
them.

* `TypingProblem.merges`, `TypingProblem.round_eq` — all that is merged in a round, in its order;
* `TypingProblem.Merging` — the points of an analysis between single merges;
* `TypingProblem.Occurs` — **the states that occur** at these points, or behind a step;
* `TypingProblem.Keeps.occurs` — **what every move of an analysis keeps holds of all of them**;
* `TypingProblem.occurs_of_solve` — the states of a typing are among them;
* `TypingProblem.formed_of_occurs` — **all of them are well formed**.
-/

namespace ClassInstrument

namespace TypingProblem

open Typing (All)

variable (p : TypingProblem)

/-! ### The merges of a round -/

/-- All that is merged in a round, in its order: for every handler around the step the locals before
and behind it, with what is caught, and then the state behind the step wherever control goes on.  If
it is not known where that is, the round ends behind the handlers. -/
def merges (i : Nat) (step : Step) (before behind : State) : List (Nat × State) :=
  ((p.handlers.filter (·.covers i)).flatMap fun r =>
      [(r.target, ⟨before.locals, [r.caught]⟩), (r.target, ⟨behind.locals, [r.caught]⟩)])
    ++ ((p.successors i step).toOption.getD []).map fun j => (j, behind)

/-- Merge some states into what is known, one after another. -/
def mergeAll (t : Typing) (merges : List (Nat × State)) : Except Failure Typing :=
  merges.foldlM (fun t (j, s) => p.mergeInto t j s) t

theorem mergeAll_cons (t : Typing) (j : Nat) (s : State) (rest : List (Nat × State)) :
    p.mergeAll t ((j, s) :: rest) = p.mergeInto t j s >>= fun t => p.mergeAll t rest :=
  List.foldlM_cons

theorem mergeAll_append (t : Typing) (merges rest : List (Nat × State)) :
    p.mergeAll t (merges ++ rest) = p.mergeAll t merges >>= fun t => p.mergeAll t rest :=
  List.foldlM_append

theorem mergeHandlers_eq_mergeAll (i : Nat) (before behind : State) (t : Typing) :
    p.mergeHandlers i before behind t
      = p.mergeAll t ((p.handlers.filter (·.covers i)).flatMap fun r =>
        [(r.target, ⟨before.locals, [r.caught]⟩), (r.target, ⟨behind.locals, [r.caught]⟩)]) := by
  unfold mergeHandlers
  induction p.handlers.filter (·.covers i) generalizing t with
  | nil => rfl
  | cons r rs ih =>
    rw [List.foldlM_cons, List.flatMap_cons, mergeAll_append, mergeAll_cons, bind_assoc, bind_assoc]
    refine bind_congr fun t₁ => ?_
    rw [mergeAll_cons, bind_assoc]
    exact bind_congr fun t₂ => ih t₂

/-- **A round is its merges**, once its step is executed. -/
theorem round_eq (t : Typing) (i : Nat) (step : Step) (before : State) :
    p.round t i step before = (do
      let behind ← p.context.execute i step before
      let t ← p.mergeAll { t with height := max t.height behind.stack.length }
        (p.merges i step before behind)
      let _ ← p.successors i step
      .ok t) := by
  unfold round merges
  refine bind_congr fun behind => ?_
  rw [mergeHandlers_eq_mergeAll, mergeAll_append, bind_assoc]
  refine bind_congr fun t₁ => ?_
  cases p.successors i step with
  | error e => rfl
  | ok next =>
    show next.foldlM _ t₁ = (next.map _).foldlM _ t₁ >>= Except.ok
    rw [List.foldlM_map]
    exact (bind_pure _).symm

/-! ### Points of an analysis -/

/-- **The points of an analysis between single merges**: what is known there, and what is still to
be merged in the round.  At first that is the state at the start. -/
inductive Merging (entry : State) : Typing → List (Nat × State) → Prop
  | start : Merging entry ⟨Array.replicate p.size none, [], 0⟩ [(0, entry)]
  | round {states : Array (Option State)} {i : Nat} {pending : List Nat} {height : Nat}
    {before behind : State} {step : Step} (stage : p.Stage entry ⟨states, i :: pending, height⟩)
    (known : states[i]?.join = some before) (here : p.context.steps[i]? = some step)
    (executed : p.context.execute i step before = .ok behind) :
    Merging entry ⟨states, pending, max height behind.stack.length⟩
      (p.merges i step before behind)
  | merge {t t' : Typing} {j : Nat} {s : State} {rest : List (Nat × State)}
    (point : Merging entry t ((j, s) :: rest)) (merged : p.mergeInto t j s = .ok t') :
    Merging entry t' rest

/-- **The states that occur in an analysis**: what is to be merged next, which is also the state at
the start, what is known in front of the steps at any point, and what is behind a step that is
executed. -/
inductive Occurs (entry : State) : State → Prop
  | incoming {t : Typing} {j : Nat} {s : State} {rest : List (Nat × State)}
    (point : p.Merging entry t ((j, s) :: rest)) : Occurs entry s
  | known {t : Typing} {rest : List (Nat × State)} {i : Nat} {s : State}
    (point : p.Merging entry t rest) (known : t.state? i = some s) : Occurs entry s
  | behind {i : Nat} {step : Step} {before s : State} (executes : p.Executes entry i step before)
    (executed : p.context.execute i step before = .ok s) : Occurs entry s

variable {p} {entry : State} {t t' : Typing}

/-- Merges that are done lead to the point behind them. -/
theorem Merging.mergeAll {merges : List (Nat × State)} (point : p.Merging entry t merges)
    (merged : p.mergeAll t merges = .ok t') : p.Merging entry t' [] := by
  induction merges generalizing t with
  | nil =>
    cases merged
    exact point
  | cons merge rest ih =>
    rw [mergeAll_cons] at merged
    obtain ⟨t₁, first, merged⟩ := Traverse.bind_eq_ok_iff.1 merged
    exact ih (point.merge first) merged

/-- What is known between rounds occurs. -/
theorem occurs_of_stage (stage : p.Stage entry t) {i : Nat} {s : State}
    (known : t.state? i = some s) : p.Occurs entry s := by
  induction stage with
  | start merged => exact .known (Merging.start.merge merged) known
  | round stage before here done _ =>
    rw [round_eq] at done
    obtain ⟨behind, executed, done⟩ := Traverse.bind_eq_ok_iff.1 done
    obtain ⟨t₁, merged, done⟩ := Traverse.bind_eq_ok_iff.1 done
    obtain ⟨next, -, same⟩ := Traverse.bind_eq_ok_iff.1 done
    cases same
    exact .known ((Merging.round stage before here executed).mergeAll merged) known
  | skip _ _ ih => exact ih known

/-- The states of a typing occur on the way to it. -/
theorem occurs_of_solve (solved : p.solve entry = .ok t) {i : Nat} {s : State}
    (known : t.state? i = some s) : p.Occurs entry s := by
  rcases Nat.eq_zero_or_pos p.size with none | some
  · unfold solve at solved
    dsimp only at solved
    rw [if_pos none] at solved
    cases solved
    rw [state?_unknown] at known
    cases known
  · exact occurs_of_stage (stage_of_solve some solved) known

/-! ### What all of them have in common -/

/-- Every move of an analysis keeps a property of states. -/
structure Keeps (p : TypingProblem) (P : State → Prop) : Prop where
  execute : ∀ i step s s', p.context.execute i step s = .ok s' → P s → P s'
  caught : ∀ r ∈ p.handlers, ∀ s, P s → P ⟨s.locals, [r.caught]⟩
  merge : ∀ s s', P s → P s' → P (State.merge p.hierarchy s s')

namespace Keeps

variable {P : State → Prop} (keeps : p.Keeps P)

include keeps

theorem mergeInto {i : Nat} {s : State} (all : t.All P) (here : P s)
    (merged : p.mergeInto t i s = .ok t') : t'.All P := by
  rw [mergeInto_eq] at merged
  split at merged
  · cases merged
    exact all.put here
  · next current known =>
    split at merged
    · cases merged
    · split at merged
      · cases merged
        exact all
      · cases merged
        exact all.put (keeps.merge current s (all i current known) here)

theorem mergeAll {merges : List (Nat × State)} (all : t.All P) (each : ∀ m ∈ merges, P m.2)
    (merged : p.mergeAll t merges = .ok t') : t'.All P :=
  Traverse.foldlM_of_step all
    (fun _ m member _ all done => keeps.mergeInto all (each m member) done) merged

/-- What is merged in a round. -/
theorem merges {i : Nat} {step : Step} {before behind : State} (first : P before)
    (second : P behind) : ∀ m ∈ p.merges i step before behind, P m.2 := by
  intro m member
  rcases List.mem_append.1 member with handler | next
  · obtain ⟨r, range, either⟩ := List.mem_flatMap.1 handler
    have inside := (List.mem_filter.1 range).1
    rcases List.mem_cons.1 either with rfl | either
    · exact keeps.caught r inside before first
    · rw [List.mem_singleton.1 either]
      exact keeps.caught r inside behind second
  · obtain ⟨j, -, rfl⟩ := List.mem_map.1 next
    exact second

/-- Between rounds, by induction on the rounds. -/
theorem stage (start : P entry) (stage : p.Stage entry t) : t.All P := by
  induction stage with
  | start merged =>
    refine keeps.mergeInto (fun i s known => ?_) start merged
    rw [state?_unknown] at known
    cases known
  | round stage known here done ih =>
    rw [round_eq] at done
    obtain ⟨behind, executed, done⟩ := Traverse.bind_eq_ok_iff.1 done
    obtain ⟨t₁, merged, done⟩ := Traverse.bind_eq_ok_iff.1 done
    obtain ⟨next, -, same⟩ := Traverse.bind_eq_ok_iff.1 done
    cases same
    have before := ih _ _ known
    refine keeps.mergeAll ?_ (keeps.merges before (keeps.execute _ _ _ _ executed before)) merged
    exact ih
  | skip _ _ ih => exact ih

/-- Within a round, by induction on its merges. -/
theorem merging {rest : List (Nat × State)} (start : P entry) (point : p.Merging entry t rest) :
    t.All P ∧ ∀ m ∈ rest, P m.2 := by
  induction point with
  | start =>
    refine ⟨fun i s known => ?_, fun m member => ?_⟩
    · rw [state?_unknown] at known
      cases known
    · rw [List.mem_singleton.1 member]
      exact start
  | round stage known here executed =>
    have all := keeps.stage start stage
    have before := all _ _ known
    exact ⟨all, keeps.merges before (keeps.execute _ _ _ _ executed before)⟩
  | merge _ merged ih =>
    obtain ⟨all, each⟩ := ih
    exact ⟨keeps.mergeInto all (each _ List.mem_cons_self) merged,
      fun m member => each m (List.mem_cons_of_mem _ member)⟩

/-- **What every move keeps holds of all states that occur**, if it holds at the start. -/
theorem occurs {s : State} (start : P entry) (occurs : p.Occurs entry s) : P s := by
  cases occurs with
  | incoming point => exact (keeps.merging start point).2 _ List.mem_cons_self
  | known point known => exact (keeps.merging start point).1 _ _ known
  | behind executes executed =>
    obtain ⟨states, pending, height, stage, known, -⟩ := executes
    exact keeps.execute _ _ _ _ executed (keeps.stage start stage _ _ known)

end Keeps

/-! ### Well-formed states -/

variable {count : Nat} {s : State}

theorem keeps_formed (p : TypingProblem) (count : Nat) : p.Keeps (State.Formed count) where
  execute _ _ _ _ executed formed := formed.execute executed
  caught _ _ _ formed := ⟨formed.length, formed.paired⟩
  merge _ _ formed formed' := formed.merge formed'

/-- **All states that occur are well formed**, if the one at the start is. -/
theorem formed_of_occurs (start : entry.Formed count) (occurs : p.Occurs entry s) :
    s.Formed count :=
  (p.keeps_formed count).occurs start occurs

end TypingProblem

end ClassInstrument
