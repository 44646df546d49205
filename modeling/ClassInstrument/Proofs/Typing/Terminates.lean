import ClassInstrument.Proofs.Typing.Computed
import ClassInstrument.Proofs.Typing.Turns
import Mathlib.Algebra.BigOperators.Group.Finset.Basic
import Mathlib.Algebra.Order.BigOperators.Group.Finset
import Mathlib.Logic.Hydra
import Mathlib.Order.WellFounded

/-!
# Typing terminates

A step is executed again only if the state before it has climbed.  Where classes do not climb
forever, neither do states: every slot that climbs is a head of a hydra that is cut off and grows
back smaller.  Where there is a bound on how often a class can climb, the bound on the turns of the
loop follows by counting.

* `Hierarchy.Founded` — classes do not climb forever;
* `Slot.Weighed` — types weigh less the further up they are, and so do states;
* `TypingProblem.exists_halts` — **the loop comes to a stop**;
* `Hierarchy.Ranks` — classes have ranks, and climb no more often than their hierarchy says;
* `TypingProblem.Turns.count_le`, `TypingProblem.Turns.turns_le` — **how often states change**, and
  how many turns there are;
* `TypingProblem.halts_solve` — the rounds of a typing are enough;
* `Code.typing_terminates` — **typing a body terminates**, whatever the body.
-/

namespace ClassInstrument

variable {le : String → String → Prop}

/-! ### Hierarchies -/

/-- The hierarchy goes by a partial order in which no classes climb forever. -/
structure Hierarchy.Founded (h : Hierarchy) (le : String → String → Prop) : Prop
    extends h.GoesBy le where
  antisymm : ∀ a b, le a b → le b a → a = b
  chains : ¬∃ f : Nat → String, ∀ n, le (f n) (f (n + 1)) ∧ f n ≠ f (n + 1)

/-- Classes have ranks.  A class further up has a lower one, and the height of the hierarchy is not
exceeded. -/
structure Hierarchy.Ranks (h : Hierarchy) (le : String → String → Prop) (rank : String → Nat) :
    Prop extends h.GoesBy le where
  bound : ∀ name, rank name ≤ h.height
  lower : ∀ a b, le a b → a ≠ b → rank b < rank a

namespace Hierarchy

variable {h : Hierarchy}

theorem Founded.wellFounded (founded : h.Founded le) :
    WellFounded fun above name => le name above ∧ name ≠ above :=
  wellFounded_iff_isEmpty_descending_chain.2 ⟨fun chain => founded.chains ⟨chain.1, chain.2⟩⟩

/-- Ranks do not become lower forever. -/
theorem Ranks.founded {rank : String → Nat} (ranks : h.Ranks le rank) : h.Founded le where
  toGoesBy := ranks.toGoesBy
  antisymm a b first second := by
    by_contra other
    exact Nat.lt_asymm (ranks.lower a b first other) (ranks.lower b a second (Ne.symm other))
  chains := by
    intro ⟨f, climbs⟩
    refine (wellFounded_iff_isEmpty_descending_chain.1 Nat.lt_wfRel.wf).false
      ⟨fun n => rank (f n), fun n => ?_⟩
    exact ranks.lower _ _ (climbs n).1 (climbs n).2

/-- Without any knowledge a class climbs once, to the top. -/
theorem flat_ranks : flat.Ranks (fun a b => a = b ∨ b = objectClass)
    fun name => if name = objectClass then 0 else 1 where
  toGoesBy := flat_goesBy
  bound name := by
    split
    · exact Nat.zero_le _
    · exact Nat.le_refl 1
  lower a b climbs other := by
    have top : b = objectClass := climbs.resolve_left other
    subst top
    rw [if_pos rfl, if_neg other]
    exact Nat.zero_lt_one

end Hierarchy

/-! ### Weights -/

/-- Types are weighed such that one weighs less than all that can stand for it. -/
structure Slot.Weighed {M : Type} [AddCommMonoid M] (le : String → String → Prop)
    (lt : M → M → Prop) (weight : Slot → M) : Prop where
  trans : ∀ a b c, lt a b → lt b c → lt a c
  add : ∀ a b c, lt a b → lt (c + a) (c + b)
  less : ∀ slot slot', slot.Assignable le slot' → slot ≠ slot' → lt (weight slot') (weight slot)

/-- All slots of a state. -/
def State.slots (s : State) : List Slot := s.locals ++ s.stack

/-- What the slots of a state weigh together. -/
def State.weight {M : Type} [AddCommMonoid M] (weight : Slot → M) (s : State) : M :=
  (s.slots.map weight).sum

section Weighed

variable {M : Type} [AddCommMonoid M] {lt : M → M → Prop} {weight : Slot → M}
  (weighed : Slot.Weighed le lt weight)

include weighed

theorem Slot.Weighed.list {l l' : List Slot} (up : List.Forall₂ (Slot.Assignable le) l l') :
    l = l' ∨ lt (l'.map weight).sum (l.map weight).sum := by
  induction up with
  | nil => exact .inl rfl
  | @cons a b l l' first _ ih =>
    simp only [List.map_cons, List.sum_cons]
    -- the first slot climbs or not, and so do the others
    by_cases same : a = b
    · subst same
      rcases ih with rfl | lower
      · exact .inl rfl
      · exact .inr (weighed.add _ _ _ lower)
    · right
      have head : lt (weight b + (l.map weight).sum) (weight a + (l.map weight).sum) := by
        rw [add_comm (weight b), add_comm (weight a)]
        exact weighed.add _ _ _ (weighed.less a b first same)
      rcases ih with rfl | lower
      · exact head
      · exact weighed.trans _ _ _ (weighed.add _ _ _ lower) head

/-- A state weighs less than all others that can stand for it. -/
theorem Slot.Weighed.state {s s' : State} (up : s.Assignable le s') (other : s ≠ s') :
    lt (s'.weight weight) (s.weight weight) := by
  refine (weighed.list (List.rel_append up.locals up.stack)).resolve_left fun same => other ?_
  obtain ⟨locals, stack⟩ := List.append_inj same up.locals.length_eq
  obtain ⟨l, st⟩ := s
  obtain ⟨l', st'⟩ := s'
  cases show l = l' from locals
  cases show st = st' from stack
  rfl

end Weighed

/-! ### States do not climb forever -/

/-- A type is strictly above another one.  All types are above a state that is not known. -/
def Slot.Above (le : String → String → Prop) : Option Slot → Option Slot → Prop
  | some above, some slot => slot.Assignable le above ∧ slot ≠ above
  | some _, none => True
  | none, _ => False

/-- A head of the hydra is a slot, or a state that is not known. -/
def Slot.head (slot : Slot) : Multiset (Option Slot) := {some slot}

/-- One head of the hydra after another is cut off. -/
def Cut (le : String → String → Prop) : Multiset (Option Slot) → Multiset (Option Slot) → Prop :=
  Relation.TransGen (Relation.CutExpand (Slot.Above le))

/-- A state that is known has a head for each slot. -/
def State.heads : Option State → Multiset (Option Slot)
  | none => {none}
  | some s => s.weight Slot.head

/-- The heads of all states. -/
def Typing.heads (states : Array (Option State)) : Multiset (Option Slot) :=
  (states.toList.map State.heads).sum

section Hydra

variable {New : State → Prop}

theorem Slot.wellFounded_above {h : Hierarchy} (founded : h.Founded le) :
    WellFounded (Slot.Above le) := by
  -- from the top down: each type climbs only to those that are known to end by then
  have top : Acc (Above le) (some .top) := by
    refine ⟨_, ?_⟩
    rintro (_ | above) ⟨up, other⟩
    cases up <;> exact absurd rfl other
  have object : ∀ name, Acc (Above le) (some (.object name)) := by
    intro name
    induction name using founded.wellFounded.induction with
    | _ name ih =>
      refine ⟨_, ?_⟩
      rintro (_ | above) ⟨up, other⟩
      cases up with
      | refl => exact absurd rfl other
      | top => exact top
      | @object _ above climbs => exact ih above ⟨climbs, fun same => other (congrArg _ same)⟩
  have slots : ∀ slot, Acc (Above le) (some slot) := by
    refine fun slot => ⟨_, ?_⟩
    rintro (_ | above) ⟨up, other⟩
    cases up with
    | refl => exact absurd rfl other
    | null name => exact object name
    | @object _ above _ => exact object above
    | top => exact top
  refine ⟨fun slot? => ?_⟩
  cases slot? with
  | some slot => exact slots slot
  | none =>
    refine ⟨_, ?_⟩
    rintro (_ | above) up
    · exact up.elim
    · exact slots above

theorem wellFounded_cut {h : Hierarchy} (founded : h.Founded le) : WellFounded (Cut le) :=
  (Slot.wellFounded_above founded).cutExpand.transGen

theorem Cut.add {a b : Multiset (Option Slot)} (cut : Cut le a b) (c : Multiset (Option Slot)) :
    Cut le (c + a) (c + b) :=
  Relation.TransGen.lift (c + ·) (fun _ _ => (Relation.cutExpand_add_left c).2) _ _ cut

theorem weighed_head : Slot.Weighed le (Cut le) Slot.head where
  trans _ _ _ := Relation.TransGen.trans
  add _ _ c cut := cut.add c
  less _ _ up other := .single (Relation.cutExpand_singleton_singleton ⟨up, other⟩)

/-- All heads of a known state are slots. -/
theorem exists_of_mem_heads {l : List Slot} {x : Option Slot}
    (member : x ∈ (l.map Slot.head).sum) : ∃ slot, x = some slot := by
  induction l with
  | nil => exact absurd member (Multiset.notMem_zero x)
  | cons slot l ih =>
    rw [List.map_cons, List.sum_cons, Multiset.mem_add] at member
    rcases member with first | rest
    · exact ⟨slot, Multiset.mem_singleton.1 first⟩
    · exact ih rest

/-- What takes the place of a state has some heads cut off. -/
theorem Typing.Climbs.cut {old : Option State} {s : State} (climbs : Climbs le New old s) :
    Cut le (State.heads (some s)) (State.heads old) := by
  cases old with
  | some earlier => exact weighed_head.state climbs.1 climbs.2
  | none =>
    refine .single (Relation.cutExpand_singleton fun x member => ?_)
    obtain ⟨slot, rfl⟩ := exists_of_mem_heads member
    exact trivial

/-- The heads of one state among all others. -/
theorem Typing.exists_heads {states : Array (Option State)} {i : Nat} (inside : i < states.size) :
    ∃ others, heads states = others + State.heads states[i]?.join
      ∧ ∀ s, heads (states.setIfInBounds i (some s)) = others + State.heads (some s) := by
  have less : i < states.toList.length := inside
  have here : states[i]?.join = states.toList[i] := by
    rw [states.getElem?_eq_getElem inside, Option.join_some, Array.getElem_toList]
  refine ⟨((states.toList.take i).map State.heads).sum
    + ((states.toList.drop (i + 1)).map State.heads).sum, ?_, fun s => ?_⟩
  · have parts : states.toList
        = states.toList.take i ++ states.toList[i] :: states.toList.drop (i + 1) := by
      rw [List.cons_getElem_drop_succ, List.take_append_drop]
    rw [heads, here]
    conv_lhs => rw [parts]
    rw [List.map_append, List.sum_append, List.map_cons, List.sum_cons, add_right_comm, add_assoc]
  · rw [heads, Array.toList_setIfInBounds, List.set_eq_take_append_cons_drop, if_pos less,
      List.map_append, List.sum_append, List.map_cons, List.sum_cons, add_right_comm, add_assoc]

/-- If any states climb, some heads are cut off. -/
theorem Typing.Changes.cut {states states' : Array (Option State)} {changed : List Nat}
    (changes : Changes (Climbs le New) states changed states') :
    changed = [] ∧ states' = states ∨ Cut le (heads states') (heads states) := by
  induction changes with
  | none => exact .inl ⟨rfl, rfl⟩
  | @change _ states' i s _ inside allowed ih =>
    right
    obtain ⟨others, before, behind⟩ := exists_heads inside
    have last : Cut le (heads (states'.setIfInBounds i (some s))) (heads states') := by
      rw [behind s, before]
      exact (Climbs.cut allowed).add others
    rcases ih with ⟨-, rfl⟩ | cut
    · exact last
    · exact last.trans cut

end Hydra

namespace TypingProblem

open Typing (Changes Climbs)

variable {p : TypingProblem} {entry : State} {n count : Nat} {changed : List Nat} {t : Typing}

/-- **The loop comes to a stop.**  In each turn heads are cut off, or all states stay as they are
and one step less waits. -/
theorem exists_halts (founded : p.hierarchy.Founded le) (posed : p.Posed)
    (tracked : entry.Tracked p.Creates count) (empty : entry.stack = []) :
    ∃ result, p.Halts entry result := by
  have wf : WellFounded (Prod.Lex (Cut le) (fun m n : Nat => m < n)) :=
    (wellFounded_cut founded).prod_lex wellFounded_lt
  -- the induction is on the heads, then on what waits: the number of turns has no bound in advance
  suffices onward : ∀ m n changed t, (Typing.heads t.states, t.pending.length) = m →
      p.Turns entry n changed t → ∃ result, p.Halts entry result from
    onward _ _ _ _ rfl .start
  intro m
  induction m using wf.induction with
  | _ m ih =>
    rintro n changed t rfl turns
    cases waits : t.pending with
    | nil => exact ⟨_, n, changed, t, turns, .done waits⟩
    | cons i pending =>
      cases turned : p.turn t with
      | error e => exact ⟨_, n, changed, t, turns, .failed turned⟩
      | ok t' =>
        have kept := turns.kept founded.toGoesBy posed tracked empty
        obtain ⟨-, found, queued, changes⟩ := (turn_outcome founded.toGoesBy posed kept.sane waits
          fun s known => Nat.add_le_add_right (kept.low i s known) 2).of_ok turned
        refine ih _ ?_ _ _ t' rfl (turns.turn waits turned queued)
        rw [waits]
        rcases changes.cut with ⟨rfl, same⟩ | cut
        · rw [queued, show t'.states = t.states from same]
          exact .right _ (Nat.lt_succ_self _)
        · exact .left _ _ cut

end TypingProblem

/-! ### How often states climb -/

/-- A type can climb as often as its rank says. -/
def Slot.rank (height : Nat) (rank : String → Nat) : Slot → Nat
  | .top => 0
  | .object name => rank name + 1
  | .null => height + 2
  | _ => 1

/-- As often as this the state before a step can change, if each slot climbs a number of times: it
is found, and then it climbs. -/
def Typing.allowance (t : Typing) (climbs i : Nat) : Nat :=
  ((t.state? i).map fun s => 1 + climbs * (s.locals.length + s.stack.length)).getD 0

section Ranks

variable {h : Hierarchy} {rank : String → Nat} (ranks : h.Ranks le rank)

include ranks in
theorem Slot.weighed_rank : Slot.Weighed le (fun m n => m < n) (Slot.rank h.height rank) where
  trans _ _ _ := Nat.lt_trans
  add _ _ c less := Nat.add_lt_add_left less c
  less slot slot' up other := by
    cases up with
    | refl => exact absurd rfl other
    | null name => exact Nat.succ_lt_succ (Nat.lt_succ_of_le (ranks.bound name))
    | object climbs =>
      exact Nat.succ_lt_succ (ranks.lower _ _ climbs fun same => other (congrArg _ same))
    | top =>
      cases slot with
      | top => exact absurd rfl other
      | _ => exact Nat.succ_pos _

include ranks in
theorem Slot.rank_le (slot : Slot) : slot.rank h.height rank ≤ h.height + 2 := by
  cases slot with
  | top => exact Nat.zero_le _
  | object name => exact Nat.succ_le_succ (Nat.le_succ_of_le (ranks.bound name))
  | null => exact Nat.le_refl _
  | _ => exact Nat.succ_le_succ (Nat.zero_le _)

include ranks in
theorem State.rank_le (s : State) : s.weight (Slot.rank h.height rank)
    ≤ (h.height + 2) * (s.locals.length + s.stack.length) := by
  have bound := List.sum_le_card_nsmul (s.slots.map (Slot.rank h.height rank)) (h.height + 2)
    fun r member => by
      obtain ⟨slot, -, rfl⟩ := List.mem_map.1 member
      exact slot.rank_le ranks
  rw [List.length_map, State.slots, List.length_append, smul_eq_mul, Nat.mul_comm] at bound
  exact bound

/-- Changes were counted against how often a state can still climb. -/
def State.Counted (h : Hierarchy) (rank : String → Nat) (changes : Nat) : Option State → Prop
  | none => changes = 0
  | some s => changes + s.weight (Slot.rank h.height rank)
      ≤ 1 + (h.height + 2) * (s.locals.length + s.stack.length)

include ranks in
/-- One more change. -/
theorem Typing.Climbs.counted {New : State → Prop} {old : Option State} {s : State} {changes : Nat}
    (climbs : Climbs le New old s) (counted : State.Counted h rank changes old) :
    State.Counted h rank (changes + 1) (some s) := by
  cases old with
  | none =>
    cases show changes = 0 from counted
    have bound := s.rank_le ranks
    show 0 + 1 + _ ≤ _
    omega
  | some earlier =>
    have less := (Slot.weighed_rank ranks).state climbs.1 climbs.2
    have counted : changes + earlier.weight (Slot.rank h.height rank)
      ≤ 1 + (h.height + 2) * (earlier.locals.length + earlier.stack.length) := counted
    rw [climbs.1.locals.length_eq, climbs.1.stack.length_eq] at counted
    show changes + 1 + _ ≤ _
    omega

include ranks in
theorem Typing.Changes.counted {New : State → Prop} {states states' : Array (Option State)}
    {changed : List Nat} (changes : Changes (Climbs le New) states changed states')
    (unknown : ∀ i : Nat, states[i]?.join = .none) (i : Nat) :
    State.Counted h rank (changed.count i) states'[i]?.join := by
  induction changes with
  | none =>
    rw [unknown]
    exact List.count_nil
  | @change _ _ j s _ inside allowed ih =>
    rw [join_setIfInBounds inside, List.count_cons]
    by_cases same : j = i
    · subst same
      rw [if_pos rfl, if_pos (beq_self_eq_true j)]
      exact Climbs.counted ranks allowed ih
    · rw [if_neg same, if_neg (by simpa using same)]
      exact ih

end Ranks

namespace TypingProblem

variable {p : TypingProblem} {entry : State} {n count : Nat} {changed : List Nat} {t : Typing}
  {rank : String → Nat} (ranks : p.hierarchy.Ranks le rank) (posed : p.Posed)
  (tracked : entry.Tracked p.Creates count) (empty : entry.stack = [])

include ranks posed tracked empty

/-- **A state changes when it is found, and as often as its slots climb.** -/
theorem Turns.count_le (turns : p.Turns entry n changed t) (i : Nat) :
    changed.count i ≤ t.allowance (p.hierarchy.height + 2) i := by
  have kept := turns.kept ranks.toGoesBy posed tracked empty
  have counted := kept.changes.counted ranks p.state?_unknown i
  rw [show t.states[i]?.join = t.state? i from rfl] at counted
  unfold Typing.allowance
  cases known : t.state? i with
  | none =>
    rw [known] at counted
    exact Nat.le_of_eq counted
  | some s =>
    rw [known] at counted
    exact Nat.le_trans (Nat.le_add_right _ _) counted

/-- A turn is taken only for a change. -/
theorem Turns.turns_le (turns : p.Turns entry n changed t) :
    n ≤ ∑ i ∈ Finset.range p.size, t.allowance (p.hierarchy.height + 2) i := by
  have kept := turns.kept ranks.toGoesBy posed tracked empty
  have inside : ∀ i ∈ (changed : Multiset Nat), i ∈ Finset.range p.size := fun i member =>
    Finset.mem_range.2 (Array.size_replicate (n := p.size) ▸ kept.changes.inside i member)
  have total := Multiset.sum_count_eq_card inside
  simp only [Multiset.coe_count, Multiset.coe_card, kept.taken] at total
  calc
    n ≤ n + t.pending.length := Nat.le_add_right _ _
    _ = ∑ i ∈ Finset.range p.size, changed.count i := total.symm
    _ ≤ ∑ i ∈ Finset.range p.size, t.allowance (p.hierarchy.height + 2) i :=
      Finset.sum_le_sum fun i _ => turns.count_le ranks posed tracked empty i

/-- The rounds of a typing are enough for all turns, and one more. -/
theorem Turns.lt_rounds (turns : p.Turns entry n changed t) :
    n < p.rounds entry.locals.length := by
  have kept := turns.kept ranks.toGoesBy posed tracked empty
  have each : ∀ i ∈ Finset.range p.size, t.allowance (p.hierarchy.height + 2) i
      ≤ 1 + (p.hierarchy.height + 2) * (max entry.locals.length 65535 + 2 * p.size + 2) := by
    intro i _
    unfold Typing.allowance
    cases known : t.state? i with
    | none => exact Nat.zero_le _
    | some s =>
      -- a typing allows for twice as many slots on an operand stack as there are steps
      have locals := (kept.sane.tracked i s known).length.trans tracked.length.symm
      have stack := kept.low i s known
      have all : Typing.known t.states ≤ p.size := kept.sane.size ▸ Array.countP_le_size
      refine Nat.add_le_add_left (Nat.mul_le_mul_left _ ?_) 1
      have most := Nat.le_max_left entry.locals.length 65535
      omega
  have total := Finset.sum_le_card_nsmul _ _ _ each
  rw [Finset.card_range, smul_eq_mul] at total
  have turns := Nat.le_trans (turns.turns_le ranks posed tracked empty) total
  unfold rounds
  omega

/-- **The rounds of a typing are enough**: the loop stops with just that typing, or failure. -/
theorem halts_solve : p.Halts entry (p.solve entry) := by
  obtain ⟨result, n, changed, t, turns, stops⟩ := exists_halts ranks.founded posed tracked empty
  obtain ⟨more, rounds⟩ := Nat.exists_eq_add_of_lt (turns.lt_rounds ranks posed tracked empty)
  have found : p.solve entry = result := by
    rw [solve_eq, rounds, Nat.add_assoc, turns.run_eq, stops.run_eq]
  rw [found]
  exact ⟨n, changed, t, turns, stops⟩

end TypingProblem

/-! ### Bodies -/

namespace Code

/-- **Typing a body terminates.**  Whatever the class, the method, the instructions and the
exception ranges, the loop stops with a typing or a failure, if its hierarchy goes by a partial
order in which no classes climb forever; any number of rounds that is large enough finds the same.

Without any knowledge of classes, the rounds of a typing are large enough.  Then the state before a
step is not replaced more often than once for being found and three times for each of its slots,
and there is no turn but for one of these changes. -/
theorem typing_terminates :
    (∀ (hierarchy : Hierarchy) (le : String → String → Prop), hierarchy.Founded le →
      ∀ (header : MethodHeader) (code : Code) (locals : Nat) (p : TypingProblem) (entry : State),
        TypingProblem.ofSteps hierarchy header.owner code.unframed code.handlers = .ok p →
        TypingProblem.entryState header locals = .ok entry →
        ∃ result, p.Halts entry result
          ∧ ∃ rounds, ∀ more, p.run (rounds + more) (p.started entry) = result)
    ∧ (∃ le, Hierarchy.flat.Founded le)
    ∧ ∀ (header : MethodHeader) (code : Code) (locals : Nat) (p : TypingProblem) (entry : State),
        TypingProblem.ofSteps .flat header.owner code.unframed code.handlers = .ok p →
        TypingProblem.entryState header locals = .ok entry →
        p.Halts entry (p.solve entry)
        ∧ ∀ n changed t, p.Turns entry n changed t →
          Typing.Changes (fun old s => old ≠ some s) (Array.replicate p.size none) changed t.states
          ∧ (∀ i, changed.count i ≤ t.allowance 3 i)
          ∧ n ≤ 1 + ∑ i ∈ Finset.range p.size, t.allowance 3 i := by
  refine ⟨fun hierarchy le founded header code locals p entry problem enters => ?_,
    ⟨_, Hierarchy.flat_ranks.founded⟩, fun header code locals p entry problem enters => ?_⟩
  · have poses := (code.ofSteps_outcome hierarchy header.owner).of_ok problem
    have tracked := (entryState_outcome p.Creates header locals).of_ok enters
    rw [← poses.hierarchy] at founded
    obtain ⟨result, n, changed, t, turns, stops⟩ := TypingProblem.exists_halts founded
      poses.posed tracked (stack_entryState enters)
    refine ⟨result, ⟨n, changed, t, turns, stops⟩, n + 1, fun more => ?_⟩
    rw [Nat.add_assoc, turns.run_eq, Nat.add_comm 1, stops.run_eq]
  · have poses := (code.ofSteps_outcome .flat header.owner).of_ok problem
    have tracked := (entryState_outcome p.Creates header locals).of_ok enters
    have empty := stack_entryState enters
    have ranks := Hierarchy.flat_ranks
    have height : p.hierarchy.height + 2 = 3 := by rw [poses.hierarchy]; rfl
    rw [← poses.hierarchy] at ranks
    refine ⟨TypingProblem.halts_solve ranks poses.posed tracked empty,
      fun n changed t turns => ⟨?_, fun i => ?_, ?_⟩⟩
    · exact (turns.kept ranks.toGoesBy poses.posed tracked empty).changes.imp
        fun _ _ climbs => climbs.ne
    · rw [← height]
      exact turns.count_le ranks poses.posed tracked empty i
    · rw [← height]
      exact Nat.le_trans (turns.turns_le ranks poses.posed tracked empty) (Nat.le_add_left _ 1)

/-- A body that puts another object into its parameter, in an exception range; the handler throws
again. -/
def reassigning : Code where
  maxStack := 0
  maxLocals := 0
  instructions := .ofList [.label ⟨0⟩, .op Opcode.ldc (.load (.classRef "Reassigning")),
    .op Opcode.astore (.var 0), .label ⟨1⟩, .op Opcode.vreturn .none, .label ⟨2⟩,
    .op Opcode.athrow .none] 3
  handlers := [⟨⟨0⟩, ⟨1⟩, ⟨2⟩, none⟩]
  localVariables := []

/-- A static method with a string as its parameter. -/
def reassigningHeader : MethodHeader := ⟨"Reassigning", 0x0009, "run", "(Ljava/lang/String;)V"⟩

/-- The problem that the body poses. -/
def reassigningProblem : TypingProblem where
  context := ⟨"Reassigning", reassigning.unframed.steps.toArray⟩
  hierarchy := .flat
  positions := reassigning.unframed.positions
  handlers := [⟨0, 2, 3, .object throwableClass⟩]

theorem ofSteps_reassigning : TypingProblem.ofSteps .flat reassigningHeader.owner
    reassigning.unframed reassigning.handlers = .ok reassigningProblem := by
  have range : TypingProblem.handlerRange reassigning.unframed.positions 4 ⟨⟨0⟩, ⟨1⟩, ⟨2⟩, none⟩
      = .ok ⟨0, 2, 3, .object throwableClass⟩ :=
    reassigning.handlerRange_eq_ok rfl rfl rfl (by decide)
  refine Traverse.bind_eq_ok_iff.2 ⟨[⟨0, 2, 3, .object throwableClass⟩], ?_, rfl⟩
  exact Traverse.mapM_eq_ok_iff.2 (.cons range .nil)

/-- The states in front of its instructions. -/
def reassigningTyping : Typing where
  states := #[some ⟨[.object "java/lang/String"], []⟩,
    some ⟨[.object "java/lang/String"], [.object "java/lang/Class"]⟩,
    some ⟨[.object "java/lang/Class"], []⟩,
    some ⟨[.object objectClass], [.object throwableClass]⟩]
  pending := []
  height := 1

/-- The state before the handler is found from the first instruction, and climbs from the second
one. -/
theorem turns_reassigning : reassigningProblem.Turns ⟨[.object "java/lang/String"], []⟩ 5
    [2, 3, 1, 3, 0] reassigningTyping := by
  have initial : reassigningProblem.Turns ⟨[.object "java/lang/String"], []⟩ 0 [0] _ := .start
  have first : TypingProblem.Turns _ _ 1 ([1, 3] ++ [0]) _ := initial.turn rfl rfl rfl
  have second : TypingProblem.Turns _ _ 2 ([2, 3] ++ _) _ := first.turn rfl rfl rfl
  have third : TypingProblem.Turns _ _ 3 ([] ++ _) _ := second.turn rfl rfl rfl
  have fourth : TypingProblem.Turns _ _ 4 ([] ++ _) _ := third.turn rfl rfl rfl
  have fifth : TypingProblem.Turns _ _ 5 ([] ++ _) _ := fourth.turn rfl rfl rfl
  exact fifth

theorem typing_terminates_reassigning :
    (∃ rounds, ∀ more, reassigningProblem.run (rounds + more)
        (reassigningProblem.started ⟨[.object "java/lang/String"], []⟩) = .ok reassigningTyping)
      ∧ reassigningProblem.Halts ⟨[.object "java/lang/String"], []⟩
        (reassigningProblem.solve ⟨[.object "java/lang/String"], []⟩)
      ∧ [2, 3, 1, 3, 0].count 3 = 2 ∧ reassigningTyping.allowance 3 3 = 7
      ∧ (∀ i, [2, 3, 1, 3, 0].count i ≤ reassigningTyping.allowance 3 i)
      ∧ 5 ≤ 1 + ∑ i ∈ Finset.range 4, reassigningTyping.allowance 3 i := by
  have enters : TypingProblem.entryState reassigningHeader 1
    = .ok ⟨[.object "java/lang/String"], []⟩ := rfl
  obtain ⟨result, -, rounds, enough⟩ := typing_terminates.1 .flat _ Hierarchy.flat_ranks.founded
    reassigningHeader reassigning 1 _ _ ofSteps_reassigning enters
  obtain ⟨halts, bounds⟩ := typing_terminates.2.2 reassigningHeader reassigning 1 _ _
    ofSteps_reassigning enters
  obtain ⟨-, each, total⟩ := bounds _ _ _ turns_reassigning
  refine ⟨⟨rounds, fun more => ?_⟩, halts, by decide, rfl, each, total⟩
  have found := turns_reassigning.run_eq (rounds + 1)
  rw [TypingProblem.Stops.run_eq (.done rfl), Nat.add_left_comm, enough] at found
  rw [enough, found]

end Code

end ClassInstrument
