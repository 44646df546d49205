import ClassInstrument.Code.Maxima
import ClassInstrument.Proofs.Bytes.Traverse
import ClassInstrument.Proofs.Code.Steps

/-!
# Searching depths

Where every step can be given one depth that all paths to it agree on, the search for depths never
fails, and it finds the depths behind all steps that control can reach.

* `DepthGraph.Leads` — from the depth before a step to those where control goes on;
* `DepthGraph.Levelled` — **every step has one depth**, which all paths agree on;
* `DepthSearch.Searching` — what is known behind the steps that were found;
* `DepthSearch.Searching.visit`, `DepthSearch.Searching.skip` — one round of the search;
* `DepthSearch.mem_successors` — where control goes on behind a step;
* `DepthSearch.exists_run` — **the search is complete** in such a graph;
* `Code.depthGraph`, `Code.depthStart` — the graph of a body, and where the search starts.
-/

namespace ClassInstrument

namespace DepthGraph

variable (g : DepthGraph) (level : Nat → Nat)

/-- From the depth before a step to the depth behind it, and to the paths behind it.  They go on
with the depths of the steps they lead to. -/
structure Leads (i : Nat) (step : Step) (after : Nat) (found : List (Nat × Nat)) : Prop where
  here : g.steps[i]? = some step
  depth : DepthSearch.depthAfter step (level i) = .ok after
  next : DepthSearch.successors g i step after = .ok found
  level : ∀ path ∈ found, path.1 < g.steps.size → path.2 = level path.1

/-- **Every step has one depth**, and leads to steps with theirs. -/
def Levelled : Prop :=
  ∀ i, i < g.steps.size → ∃ step after found, g.Leads level i step after found

variable {g level}

/-- A step leads to one depth and to one list of paths. -/
theorem Leads.unique {i : Nat} {step step' : Step} {after after' : Nat}
    {found found' : List (Nat × Nat)} (leads : g.Leads level i step after found)
    (leads' : g.Leads level i step' after' found') : after' = after ∧ found' = found := by
  obtain ⟨here, depth, next, -⟩ := leads
  obtain ⟨here', depth', next', -⟩ := leads'
  rw [here] at here'
  cases here'
  rw [depth] at depth'
  cases depth'
  rw [next] at next'
  cases next'
  exact ⟨rfl, rfl⟩

end DepthGraph

namespace DepthSearch

/-! ### What is behind a step -/

/-- The depth behind a step whose effect fits. -/
theorem depthAfter_of_effect {step : Step} {effect : StackEffect} {depth : Nat}
    (measured : stackEffect step.opcode step.operand = .ok effect) (enough : effect.pop ≤ depth)
    (low : depth - effect.pop + effect.push ≤ limit) :
    depthAfter step depth = .ok (depth - effect.pop + effect.push) := by
  refine Traverse.bind_eq_ok_iff.2 ⟨effect, measured, ?_⟩
  rw [if_neg (Nat.not_lt.2 enough), if_neg (Nat.not_lt.2 low)]

/-- Where control goes on behind a step. -/
theorem mem_successors {g : DepthGraph} {step : Step} {i depth : Nat} {found : List (Nat × Nat)}
    (h : successors g i step depth = .ok found) (path : Nat × Nat) : path ∈ found ↔
      step.opcode.isUnconditional = false
          ∧ path = (i + 1, if step.opcode == Opcode.jsr then depth - 1 else depth)
        ∨ ∃ l ∈ step.operand.targets, g.positions[l]? = some path.1 ∧ path.2 = depth := by
  obtain ⟨targets, resolved, h⟩ := Traverse.bind_eq_ok_iff.1 h
  cases h
  have each := Traverse.mapM_eq_ok_iff.1 resolved
  rw [List.mem_append, List.mem_reverse, List.mem_map]
  refine or_congr ?_ ⟨?_, ?_⟩
  · cases step.opcode.isUnconditional <;> simp
  · rintro ⟨j, member, rfl⟩
    obtain ⟨l, target, place⟩ := Traverse.exists_of_mem_right each member
    exact ⟨l, target, Positions.get_eq_ok_iff.1 place, rfl⟩
  · rintro ⟨l, target, place, same⟩
    obtain ⟨j, member, place'⟩ := Traverse.exists_of_mem_right each.flip target
    rw [Positions.get_eq_ok_iff.1 place'] at place
    cases place
    exact ⟨path.1, member, by rw [← same]⟩

/-- Control goes on somewhere if all targets are placed. -/
theorem exists_successors (g : DepthGraph) (step : Step) (i depth : Nat)
    (placed : ∀ l ∈ step.operand.targets, ∃ j, g.positions[l]? = some j) :
    ∃ found, successors g i step depth = .ok found := by
  obtain ⟨targets, resolved⟩ := Traverse.exists_mapM (f := g.positions.get) fun l member => by
    obtain ⟨j, place⟩ := placed l member
    exact ⟨j, Positions.get_eq_ok_iff.2 place⟩
  exact ⟨_, Traverse.bind_eq_ok_iff.2 ⟨targets, resolved, rfl⟩⟩

/-- The step was given a depth. -/
def Visited (s : DepthSearch) (i : Nat) : Prop := ∃ depth, s.depths[i]? = some (some depth)

/-- The step was given a depth or waits for it, if it is one. -/
def Covers (g : DepthGraph) (s : DepthSearch) (i : Nat) : Prop :=
  i < g.steps.size → s.Visited i ∨ ∃ depth, (i, depth) ∈ s.paths

/-- In the end nothing waits. -/
theorem Covers.visited {g : DepthGraph} {s : DepthSearch} {i : Nat} (covered : s.Covers g i)
    (inside : i < g.steps.size) (done : s.paths = []) : s.Visited i := by
  rcases covered inside with visited | ⟨depth, member⟩
  · exact visited
  · rw [done] at member
    cases member

variable {g : DepthGraph} {level : Nat → Nat}

/-- All paths go on with the depths of the steps they lead to, and what is behind the steps that
were found is known. -/
structure Searching (g : DepthGraph) (level : Nat → Nat) (s : DepthSearch) : Prop where
  size : s.depths.size = g.steps.size
  paths : ∀ path ∈ s.paths, path.1 < g.steps.size → path.2 = level path.1
  behind : ∀ i, s.Visited i → ∀ step after found, g.Leads level i step after found →
    after ≤ s.greatest ∧ ∀ path ∈ found, s.Covers g path.1

/-- One search goes on from where another one is. -/
structure Continues (g : DepthGraph) (level : Nat → Nat) (s s' : DepthSearch) : Prop where
  covers : ∀ i, s.Covers g i → s'.Covers g i
  greatest : s.greatest ≤ s'.greatest
  bounded : ∀ bound, s.greatest ≤ bound →
    (∀ i step after found, g.Leads level i step after found → after ≤ bound) →
    s'.greatest ≤ bound

theorem Continues.refl (s : DepthSearch) : Continues g level s s where
  covers _ covered := covered
  greatest := Nat.le_refl _
  bounded _ start _ := start

theorem Continues.trans {s s' s'' : DepthSearch} (first : Continues g level s s')
    (second : Continues g level s' s'') : Continues g level s s'' where
  covers i covered := second.covers i (first.covers i covered)
  greatest := Nat.le_trans first.greatest second.greatest
  bounded bound start all := second.bounded bound (first.bounded bound start all) all

/-! ### One round -/

section Round

variable {depths : Array (Option Nat)} {position depth greatest : Nat}
  {rest : List (Nat × Nat)}

/-- A path to a step that has its depth is dropped, as is one that leaves the body. -/
theorem Searching.skip (searching : Searching g level ⟨depths, (position, depth) :: rest, greatest⟩)
    (known : position < g.steps.size → Visited ⟨depths, rest, greatest⟩ position) :
    Searching g level ⟨depths, rest, greatest⟩
      ∧ Continues g level ⟨depths, (position, depth) :: rest, greatest⟩
        ⟨depths, rest, greatest⟩ := by
  have covers : ∀ i, Covers g ⟨depths, (position, depth) :: rest, greatest⟩ i →
      Covers g ⟨depths, rest, greatest⟩ i := by
    intro i covered less
    rcases covered less with visited | ⟨waiting, member⟩
    · exact .inl visited
    · rcases List.mem_cons.1 member with same | later
      · cases same
        exact .inl (known less)
      · exact .inr ⟨waiting, later⟩
  refine ⟨⟨searching.size, fun path member => searching.paths path (List.mem_cons_of_mem _ member),
    fun i visited step after found leads => ?_⟩, ⟨covers, Nat.le_refl _, fun _ start _ => start⟩⟩
  obtain ⟨bound, onward⟩ := searching.behind i visited step after found leads
  exact ⟨bound, fun path member => covers path.1 (onward path member)⟩

/-- A step is given its depth, and the paths behind it are followed. -/
theorem Searching.visit (searching : Searching g level ⟨depths, (position, depth) :: rest, greatest⟩)
    (less : position < depths.size) {step : Step} {after : Nat} {found : List (Nat × Nat)}
    (leads : g.Leads level position step after found) :
    Searching g level ⟨depths.set position (some depth) less, found ++ rest, max greatest after⟩
      ∧ Continues g level ⟨depths, (position, depth) :: rest, greatest⟩
        ⟨depths.set position (some depth) less, found ++ rest, max greatest after⟩ := by
  have visited : ∀ i, Visited
      ⟨depths.set position (some depth) less, found ++ rest, max greatest after⟩ i
      ↔ i = position ∨ Visited ⟨depths, (position, depth) :: rest, greatest⟩ i := by
    intro i
    by_cases same : position = i
    · subst same
      simp [Visited, less]
    · simp [Visited, same, Ne.symm same]
  have covers : ∀ i, Covers g ⟨depths, (position, depth) :: rest, greatest⟩ i →
      Covers g ⟨depths.set position (some depth) less, found ++ rest, max greatest after⟩ i := by
    intro i covered inside
    rcases covered inside with old | ⟨waiting, member⟩
    · exact .inl ((visited i).2 (.inr old))
    · rcases List.mem_cons.1 member with same | later
      · cases same
        exact .inl ((visited _).2 (.inl rfl))
      · exact .inr ⟨waiting, List.mem_append_right _ later⟩
  refine ⟨⟨?_, fun path member => ?_, fun i seen step' after' found' leads' => ?_⟩,
    ⟨covers, Nat.le_max_left _ _, fun bound start all =>
      Nat.max_le.2 ⟨start, all position step after found leads⟩⟩⟩
  · rw [Array.size_set]
    exact searching.size
  · rcases List.mem_append.1 member with new | old
    · exact leads.level path new
    · exact searching.paths path (List.mem_cons_of_mem _ old)
  · rcases (visited i).1 seen with rfl | old
    · obtain ⟨rfl, rfl⟩ := leads.unique leads'
      exact ⟨Nat.le_max_right _ _, fun path member _ =>
        .inr ⟨path.2, List.mem_append_left _ member⟩⟩
    · obtain ⟨bound, onward⟩ := searching.behind i old step' after' found' leads'
      exact ⟨Nat.le_trans bound (Nat.le_max_left _ _), fun path member =>
        covers path.1 (onward path member)⟩

end Round

/-! ### All rounds -/

/-- The first path leads to the depth of its step. -/
theorem Searching.leads (levelled : g.Levelled level) {depths : Array (Option Nat)}
    {position depth greatest : Nat} {rest : List (Nat × Nat)}
    (searching : Searching g level ⟨depths, (position, depth) :: rest, greatest⟩)
    (less : position < depths.size) : ∃ step after found,
      depthAfter step depth = .ok after ∧ g.Leads level position step after found := by
  have inside : position < g.steps.size := searching.size ▸ less
  obtain ⟨step, after, found, leads⟩ := levelled position inside
  have same : depth = level position := searching.paths _ List.mem_cons_self inside
  exact ⟨step, after, found, same ▸ leads.depth, leads⟩

/-- **The search is complete.**  If every step has one depth, it comes to an end, and what is
behind the steps that were found is known then. -/
theorem exists_run (levelled : g.Levelled level) (s : DepthSearch)
    (searching : Searching g level s) :
    ∃ r, run g s = .ok r ∧ r.paths = [] ∧ Searching g level r ∧ Continues g level s r := by
  fun_induction run g s with
  | case1 depths greatest => exact ⟨_, rfl, rfl, searching, .refl _⟩
  | case2 depths greatest position depth rest less unknown absent ih =>
    obtain ⟨step, after, found, -, leads⟩ := searching.leads levelled less
    cases absent.symm.trans leads.here
  | case3 depths greatest position depth rest less unknown step here e failed =>
    obtain ⟨step', after, found, passes, leads⟩ := searching.leads levelled less
    cases here.symm.trans leads.here
    cases failed.symm.trans passes
  | case4 depths greatest position depth rest less unknown step here after passed e failed =>
    obtain ⟨step', after', found, passes, leads⟩ := searching.leads levelled less
    cases here.symm.trans leads.here
    cases passed.symm.trans passes
    cases failed.symm.trans leads.next
  | case5 depths greatest position depth rest less unknown step here after passed found next ih =>
    obtain ⟨step', after', found', passes, leads⟩ := searching.leads levelled less
    cases here.symm.trans leads.here
    cases passed.symm.trans passes
    cases next.symm.trans leads.next
    obtain ⟨searching', continues⟩ := searching.visit less leads
    obtain ⟨r, ran, done, final, onward⟩ := ih searching'
    exact ⟨r, ran, done, final, continues.trans onward⟩
  | case6 depths greatest position depth rest less known ih =>
    obtain ⟨searching', continues⟩ := searching.skip fun _ => by
      obtain ⟨value, here⟩ := Option.ne_none_iff_exists'.1 known
      exact ⟨value, by rw [Array.getElem?_eq_getElem less, here]⟩
    obtain ⟨r, ran, done, final, onward⟩ := ih searching'
    exact ⟨r, ran, done, final, continues.trans onward⟩
  | case7 depths greatest position depth rest outside ih =>
    obtain ⟨searching', continues⟩ := searching.skip fun inside =>
      absurd (searching.size ▸ inside) outside
    obtain ⟨r, ran, done, final, onward⟩ := ih searching'
    exact ⟨r, ran, done, final, continues.trans onward⟩

end DepthSearch

/-! ### Bodies -/

namespace Code

/-- A body as the search for depths sees it. -/
def depthGraph (code : Code) : DepthGraph :=
  let view := Steps.ofList code.instructions.toList
  ⟨view.steps.toArray, view.positions⟩

/-- Labels have the positions where they are placed last. -/
theorem positions_depthGraph (code : Code) (l : Label) :
    code.depthGraph.positions[l]? = Steps.positionOf? l code.instructions.toList := by
  have placed := Steps.getElem?_positions (Steps.tidy_ofList code.instructions.toList) l
  rw [Steps.toList_ofList] at placed
  exact placed

/-- The search for depths, with the places of the handlers, before anything is found. -/
def depthStart (code : Code) (handlers : List Nat) : DepthSearch where
  depths := Array.replicate code.depthGraph.steps.size none
  paths := (handlers.map fun position => (position, 1)).reverse ++ [(0, 0)]
  greatest := if handlers.isEmpty then 0 else 1

end Code

end ClassInstrument
