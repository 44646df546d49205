import Mathlib.Order.Bounds.Defs
import ClassInstrument.Proofs.Code.DepthSearch

/-!
# The search for depths is exact

The search gives every step the first depth it finds, and never looks at the step again.  If there is
one depth for each step that all paths to it agree on, nothing is lost by that: it sees all that
control can come to, and neither more nor less is found whichever path is followed first.

* `DepthGraph.Edge`, `DepthGraph.Reached`, `DepthGraph.Levels` — the control flow graph, and one
  depth for all that is reached in it;
* `DepthSearch.Explores` — searches that take their paths in any order, the one that is run being one
  of them (`DepthSearch.explores_run`);
* `DepthSearch.Exploring` — what every search keeps;
* `Code.stackSize_exact` — **the greatest depth is found**, in any order.
-/

namespace ClassInstrument

/-! ### The control flow graph -/

namespace DepthGraph

variable (g : DepthGraph) (entry : Nat → Nat → Prop) (level : Nat → Int)

/-- An edge of the control flow graph, and the slots by which the operand stack grows along it.  A
subroutine starts with its return address, which is gone when it comes back. -/
inductive Edge : Nat → Nat → Int → Prop
  | jump {i j : Nat} {step : Step} {effect : StackEffect} {target : Label}
    (here : g.steps[i]? = some step) (measured : stackEffect step.opcode step.operand = .ok effect)
    (member : target ∈ step.operand.targets) (place : g.positions[target]? = some j) :
    Edge i j (effect.push - effect.pop)
  | next {i : Nat} {step : Step} {effect : StackEffect} (here : g.steps[i]? = some step)
    (measured : stackEffect step.opcode step.operand = .ok effect)
    (on : step.opcode.isUnconditional = false) :
    Edge i (i + 1) (effect.push - effect.pop - if step.opcode = Opcode.jsr then 1 else 0)

/-- Control can come to a step, or to the end of the body. -/
inductive Reached : Nat → Prop
  | entry {i depth : Nat} (start : entry i depth) : Reached i
  | edge {i j : Nat} {growth : Int} (reached : Reached i) (edge : g.Edge i j growth) : Reached j

/-- **One depth for each step** that control can come to, the same along all paths.  It is a number
of any kind: nothing says yet that there is enough on the stack. -/
structure Levels : Prop where
  starts : ∀ i depth, entry i depth → i < g.steps.size → level i = depth
  along : ∀ i j growth, g.Reached entry i → g.Edge i j growth → j < g.steps.size →
    level j = level i + growth

/-- The depth directly behind a step. -/
def After (i : Nat) (depth : Int) : Prop :=
  ∃ (step : Step) (effect : StackEffect), g.steps[i]? = some step ∧ stackEffect step.opcode step.operand = .ok effect
    ∧ depth = level i - effect.pop + effect.push

/-- A step takes more from the stack than there is. -/
def Underflows (i : Nat) : Prop :=
  ∃ (step : Step) (effect : StackEffect), g.steps[i]? = some step ∧ stackEffect step.opcode step.operand = .ok effect
    ∧ level i < effect.pop

/-- The stack is too deep behind a step. -/
def Overflows (i : Nat) : Prop := ∃ depth, g.After level i depth ∧ DepthSearch.limit < depth

/-- All targets are placed, and every step has an effect on the stack. -/
structure Charted : Prop where
  placed : ∀ (i : Nat) (step : Step), g.steps[i]? = some step → ∀ l ∈ step.operand.targets,
    ∃ j, g.positions[l]? = some j
  measured : ∀ (i : Nat) (step : Step), g.steps[i]? = some step →
    ∃ effect, stackEffect step.opcode step.operand = .ok effect

end DepthGraph

/-! ### Any order -/

namespace DepthSearch

variable {g : DepthGraph}

/-- Follow a path in a search that has taken it from the others. -/
def follow (g : DepthGraph) (path : Nat × Nat) (s : DepthSearch) : Except Failure DepthSearch :=
  if h : path.1 < s.depths.size then
    if s.depths[path.1] = none then
      match g.steps[path.1]? with
      | none => .ok { s with depths := s.depths.set path.1 (some path.2) h }
      | some step => do
        let after ← depthAfter step path.2
        let found ← successors g path.1 step after
        .ok ⟨s.depths.set path.1 (some path.2) h, found ++ s.paths, max s.greatest after⟩
    else .ok s
  else .ok s

/-- What comes of one path, whichever of those that are left. -/
def Takes (g : DepthGraph) (s : DepthSearch) (result : Except Failure DepthSearch) : Prop :=
  ∃ path rest, s.paths.Perm (path :: rest) ∧ follow g path { s with paths := rest } = result

/-- **Searches in any order**, and what they find. -/
inductive Explores (g : DepthGraph) : DepthSearch → Except Failure Nat → Prop
  | done {s : DepthSearch} (nothing : s.paths = []) : Explores g s (.ok s.greatest)
  | fails {s : DepthSearch} {e : Failure} (failed : Takes g s (.error e)) : Explores g s (.error e)
  | round {s s' : DepthSearch} {result : Except Failure Nat} (takes : Takes g s (.ok s'))
    (onward : Explores g s' result) : Explores g s result

/-- A path that leads to a step with a depth is dropped, as is one that leaves the body.  Behind any
other step the search goes on. -/
theorem follow_cases {path : Nat × Nat} {s s' : DepthSearch} (h : follow g path s = .ok s') :
    (s' = s ∧ ∀ inside : path.1 < s.depths.size, s.depths[path.1] ≠ none)
      ∨ ∃ inside : path.1 < s.depths.size, s.depths[path.1] = none
        ∧ s'.depths = s.depths.set path.1 (some path.2) inside
        ∧ ∀ step, g.steps[path.1]? = some step → ∃ after found, depthAfter step path.2 = .ok after
          ∧ successors g path.1 step after = .ok found
          ∧ s' = ⟨s.depths.set path.1 (some path.2) inside, found ++ s.paths, max s.greatest after⟩ := by
  unfold follow at h
  split at h
  · next inside =>
    split at h
    · next unknown =>
      split at h
      · next absent =>
        cases h
        exact .inr ⟨inside, unknown, rfl, fun step here => by cases absent.symm.trans here⟩
      · next step here =>
        obtain ⟨after, passes, h⟩ := Traverse.bind_eq_ok_iff.1 h
        obtain ⟨found, next, h⟩ := Traverse.bind_eq_ok_iff.1 h
        cases h
        refine .inr ⟨inside, unknown, rfl, fun step' here' => ?_⟩
        cases here.symm.trans here'
        exact ⟨after, found, passes, next, rfl⟩
    · next known =>
      cases h
      exact .inl ⟨rfl, fun _ => known⟩
  · next outside =>
    cases h
    exact .inl ⟨rfl, fun inside => absurd inside outside⟩

/-- A path fails at the step that it leads to. -/
theorem follow_fails {path : Nat × Nat} {s : DepthSearch} {e : Failure}
    (h : follow g path s = .error e) : ∃ step, g.steps[path.1]? = some step
      ∧ (depthAfter step path.2 = .error e
        ∨ ∃ after, successors g path.1 step after = .error e) := by
  unfold follow at h
  split at h
  · split at h
    · split at h
      · cases h
      · next step here =>
        refine ⟨step, here, ?_⟩
        rcases Traverse.bind_eq_error_iff.1 h with failed | ⟨after, -, h⟩
        · exact .inl failed
        · rcases Traverse.bind_eq_error_iff.1 h with failed | ⟨found, -, h⟩
          · exact .inr ⟨after, failed⟩
          · cases h
    · cases h
  · cases h

/-- **A search comes to an end**, whichever paths it takes. -/
theorem wellFounded_takes (g : DepthGraph) : WellFounded fun s' s => Takes g s (.ok s') := by
  refine Subrelation.wf ?_ (InvImage.wf (fun s => (unknownCount s.depths, s.paths.length))
    (Prod.lex Nat.lt_wfRel Nat.lt_wfRel).wf)
  rintro s' s ⟨path, rest, any, followed⟩
  -- fewer steps without a depth, or as many and fewer paths
  rcases follow_cases followed with ⟨rfl, -⟩ | ⟨inside, unknown, depths, -⟩
  · refine Prod.Lex.right _ ?_
    rw [any.length_eq]
    exact Nat.lt_succ_self _
  · refine Prod.Lex.left _ _ ?_
    rw [depths]
    exact unknownCount_set_lt inside unknown

/-- **The search that is run** takes its paths in one of these orders. -/
theorem explores_run (g : DepthGraph) (s : DepthSearch) :
    Explores g s ((run g s).map DepthSearch.greatest) := by
  have takes : ∀ {depths : Array (Option Nat)} {position depth greatest : Nat}
      {rest : List (Nat × Nat)}, Takes g ⟨depths, (position, depth) :: rest, greatest⟩
        (follow g (position, depth) ⟨depths, rest, greatest⟩) := ⟨_, _, .refl _, rfl⟩
  -- the path in front of all others is the one that is taken
  fun_induction run g s with
  | case1 depths greatest => exact .done rfl
  | case2 depths greatest position depth rest less unknown absent ih =>
    refine .round ?_ ih
    have step : follow g (position, depth) ⟨depths, rest, greatest⟩
        = .ok ⟨depths.set position (some depth), rest, greatest⟩ := by
      simp [follow, less, unknown, absent]
    exact step ▸ takes
  | case3 depths greatest position depth rest less unknown step here e failed =>
    refine .fails ?_
    have step : follow g (position, depth) ⟨depths, rest, greatest⟩ = .error e := by
      simp [follow, less, unknown, here, failed, bind, Except.bind]
    exact step ▸ takes
  | case4 depths greatest position depth rest less unknown step here after passed e failed =>
    refine .fails ?_
    have step : follow g (position, depth) ⟨depths, rest, greatest⟩ = .error e := by
      simp [follow, less, unknown, here, passed, failed, bind, Except.bind]
    exact step ▸ takes
  | case5 depths greatest position depth rest less unknown step here after passed found next ih =>
    refine .round ?_ ih
    have step : follow g (position, depth) ⟨depths, rest, greatest⟩
        = .ok ⟨depths.set position (some depth), found ++ rest, max greatest after⟩ := by
      simp [follow, less, unknown, here, passed, next, bind, Except.bind]
    exact step ▸ takes
  | case6 depths greatest position depth rest less known ih =>
    refine .round ?_ ih
    have step : follow g (position, depth) ⟨depths, rest, greatest⟩
        = .ok ⟨depths, rest, greatest⟩ := by
      simp [follow, less, known]
    exact step ▸ takes
  | case7 depths greatest position depth rest outside ih =>
    refine .round ?_ ih
    have step : follow g (position, depth) ⟨depths, rest, greatest⟩
        = .ok ⟨depths, rest, greatest⟩ := by
      simp [follow, outside]
    exact step ▸ takes

/-! ### What every search keeps -/

/-- The depths that the steps of a search may have are natural numbers. -/
def heights (level : Nat → Int) (i : Nat) : Nat := (level i).toNat

variable {entry : Nat → Nat → Prop} {level : Nat → Int}

/-- **What every search keeps**: it is on its way through the control flow graph, at the depths that
all paths agree on, all steps behind it fit, and the greatest depth is where it started or behind one
of them. -/
structure Exploring (g : DepthGraph) (entry : Nat → Nat → Prop) (level : Nat → Int) (base : Nat)
    (s : DepthSearch) : Prop extends Searching g (heights level) s where
  waiting : ∀ path ∈ s.paths, g.Reached entry path.1
    ∧ (path.1 < g.steps.size → level path.1 = path.2)
  visited : ∀ i, s.Visited i → g.Reached entry i ∧ ¬g.Underflows level i ∧ ¬g.Overflows level i
  greatest : s.greatest = base ∨ ∃ i, g.Reached entry i ∧ g.After level i s.greatest

/-- The order of the paths does not matter. -/
theorem Exploring.perm {base greatest : Nat} {depths : Array (Option Nat)}
    {paths paths' : List (Nat × Nat)} (exploring : Exploring g entry level base ⟨depths, paths, greatest⟩)
    (same : paths.Perm paths') : Exploring g entry level base ⟨depths, paths', greatest⟩ where
  size := exploring.size
  paths path member := exploring.paths path (same.mem_iff.2 member)
  behind i visited step after found leads := by
    obtain ⟨bound, covers⟩ := exploring.behind i visited step after found leads
    refine ⟨bound, fun path member inside => ?_⟩
    exact (covers path member inside).imp_right fun ⟨depth, waits⟩ => ⟨depth, same.mem_iff.1 waits⟩
  waiting path member := exploring.waiting path (same.mem_iff.2 member)
  visited := exploring.visited
  greatest := exploring.greatest

theorem Continues.perm {greatest : Nat} {depths : Array (Option Nat)}
    {paths paths' : List (Nat × Nat)} (same : paths.Perm paths') :
    Continues g (heights level) ⟨depths, paths, greatest⟩ ⟨depths, paths', greatest⟩ where
  covers _ covered inside :=
    (covered inside).imp_right fun ⟨depth, waits⟩ => ⟨depth, same.mem_iff.1 waits⟩
  greatest := Nat.le_refl _
  bounded _ start _ := start

/-- The depth behind a step, or why there is none. -/
theorem depthAfter_eq {step : Step} {effect : StackEffect} (depth : Nat)
    (measured : stackEffect step.opcode step.operand = .ok effect) : depthAfter step depth
      = if depth < effect.pop then .error (.encoding (.underflowAt step.insn))
        else if limit < depth - effect.pop + effect.push then .error (.encoding .stackTooDeep)
        else .ok (depth - effect.pop + effect.push) := by
  unfold depthAfter
  rw [measured]
  rfl

/-- The paths behind a step are the edges that start there. -/
theorem edges_of_successors {i after : Nat} {depth : Int} {step : Step} {effect : StackEffect}
    {found : List (Nat × Nat)} (here : g.steps[i]? = some step)
    (measured : stackEffect step.opcode step.operand = .ok effect) (enough : effect.pop ≤ depth)
    (grown : (after : Int) = depth - effect.pop + effect.push)
    (next : successors g i step after = .ok found) :
    (∀ path ∈ found, ∃ growth, g.Edge i path.1 growth ∧ (path.2 : Int) = depth + growth)
      ∧ ∀ j growth, g.Edge i j growth → ∃ path ∈ found, path.1 = j := by
  have paths := mem_successors next
  refine ⟨fun path member => ?_, fun j growth edge => ?_⟩
  · rcases (paths path).1 member with ⟨on, rfl⟩ | ⟨l, target, place, rfl⟩
    · refine ⟨_, .next here measured on, ?_⟩
      by_cases subroutine : step.opcode = Opcode.jsr
      · -- the return address is there, so that it can be taken away
        rw [subroutine] at measured
        cases measured
        simp only [subroutine, beq_self_eq_true, if_true]
        push_cast at enough grown ⊢
        omega
      · simp only [subroutine, beq_eq_false_iff_ne.2 subroutine, if_false, Bool.false_eq_true]
        omega
    · exact ⟨_, .jump here measured target place, by omega⟩
  · cases edge with
    | jump here' _ target place =>
      cases here.symm.trans here'
      exact ⟨(j, after), (paths _).2 (.inr ⟨_, target, place, rfl⟩), rfl⟩
    | next here' _ on =>
      cases here.symm.trans here'
      exact ⟨_, (paths _).2 (.inl ⟨on, rfl⟩), rfl⟩

section Follow

variable {base : Nat} (levels : g.Levels entry level) (charted : g.Charted)

include levels charted in
/-- A path that waits leads to a step that fits, and on along the edges of the graph. -/
theorem leads_of_depthAfter {i depth after : Nat} {step : Step} {found : List (Nat × Nat)}
    (reached : g.Reached entry i) (same : level i = depth) (here : g.steps[i]? = some step)
    (passes : depthAfter step depth = .ok after) (next : successors g i step after = .ok found) :
    g.Leads (heights level) i step after found ∧ g.After level i after
      ∧ ¬g.Underflows level i ∧ ¬g.Overflows level i
      ∧ ∀ path ∈ found, g.Reached entry path.1 ∧ (path.1 < g.steps.size → level path.1 = path.2) := by
  obtain ⟨effect, measured⟩ := charted.measured i step here
  have passed := passes
  rw [depthAfter_eq depth measured] at passed
  split at passed
  · cases passed
  next enough =>
  split at passed
  · cases passed
  next low =>
  cases passed
  have grown : ((depth - effect.pop + effect.push : Nat) : Int)
      = level i - effect.pop + effect.push := by omega
  obtain ⟨edges, -⟩ := edges_of_successors here measured (by omega) grown next
  have onward : ∀ path ∈ found, g.Reached entry path.1
      ∧ (path.1 < g.steps.size → level path.1 = path.2) := by
    intro path member
    obtain ⟨growth, edge, sum⟩ := edges path member
    exact ⟨.edge reached edge, fun inside => (levels.along _ _ _ reached edge inside).trans sum.symm⟩
  refine ⟨⟨here, ?_, next, fun path member inside => ?_⟩, ⟨step, effect, here, measured, grown⟩, ?_,
    ?_, onward⟩
  · rw [heights, same, Int.toNat_natCast]
    exact passes
  · rw [heights, (onward path member).2 inside, Int.toNat_natCast]
  · rintro ⟨step', effect', here', measured', under⟩
    cases here.symm.trans here'
    cases measured.symm.trans measured'
    omega
  · rintro ⟨depth', ⟨step', effect', here', measured', rfl⟩, beyond⟩
    cases here.symm.trans here'
    cases measured.symm.trans measured'
    omega

include levels charted in
/-- **One path**: the search goes on and keeps what it has. -/
theorem Exploring.follow {path : Nat × Nat} {rest : List (Nat × Nat)} {depths : Array (Option Nat)}
    {greatest : Nat} (exploring : Exploring g entry level base ⟨depths, path :: rest, greatest⟩)
    {s' : DepthSearch} (h : follow g path ⟨depths, rest, greatest⟩ = .ok s') :
    Exploring g entry level base s'
      ∧ Continues g (heights level) ⟨depths, path :: rest, greatest⟩ s' := by
  obtain ⟨position, depth⟩ := path
  obtain ⟨reached, same⟩ := exploring.waiting _ List.mem_cons_self
  have others : ∀ path ∈ rest, g.Reached entry path.1
      ∧ (path.1 < g.steps.size → level path.1 = path.2) := fun path member =>
    exploring.waiting path (List.mem_cons_of_mem _ member)
  -- either the step has a depth already, or it gets one and is behind the search from now on
  rcases follow_cases h with ⟨rfl, known⟩ | ⟨inside, unknown, -, onward⟩
  · obtain ⟨searching, continues⟩ := exploring.toSearching.skip fun less => by
      have inside : position < depths.size := exploring.size ▸ less
      obtain ⟨value, here⟩ := Option.ne_none_iff_exists'.1 (known inside)
      exact ⟨value, by rw [Array.getElem?_eq_getElem inside, here]⟩
    exact ⟨⟨searching, others, exploring.visited, exploring.greatest⟩, continues⟩
  · have less : position < g.steps.size := exploring.size ▸ inside
    have here := Array.getElem?_eq_getElem less
    obtain ⟨after, found, passes, next, rfl⟩ := onward _ here
    obtain ⟨leads, behind, enough, low, ahead⟩ :=
      leads_of_depthAfter levels charted reached (same less) here passes next
    obtain ⟨searching, continues⟩ := exploring.toSearching.visit inside leads
    refine ⟨⟨searching, fun path member => ?_, fun i visited => ?_, ?_⟩, continues⟩
    · exact (List.mem_append.1 member).elim (ahead path) (others path)
    · by_cases first : position = i
      · subst first
        exact ⟨reached, enough, low⟩
      · refine exploring.visited i ?_
        obtain ⟨value, there⟩ := visited
        rw [Array.getElem?_set_ne inside first] at there
        exact ⟨value, there⟩
    · rcases Nat.le_total greatest after with le | le
      · exact .inr ⟨position, reached, by rwa [Nat.max_eq_right le]⟩
      · rw [Nat.max_eq_left le]
        exact exploring.greatest

include charted in
/-- A search fails only where a step does not fit. -/
theorem Exploring.fails {path : Nat × Nat} {rest : List (Nat × Nat)} {depths : Array (Option Nat)}
    {greatest : Nat} (exploring : Exploring g entry level base ⟨depths, path :: rest, greatest⟩)
    {e : Failure} (h : DepthSearch.follow g path ⟨depths, rest, greatest⟩ = .error e) :
    (∃ fault, e = .encoding fault)
      ∧ ∃ i, g.Reached entry i ∧ (g.Underflows level i ∨ g.Overflows level i) := by
  obtain ⟨position, depth⟩ := path
  obtain ⟨reached, same⟩ := exploring.waiting _ List.mem_cons_self
  obtain ⟨step, here, failed | ⟨after, failed⟩⟩ := follow_fails h
  · obtain ⟨effect, measured⟩ := charted.measured _ step here
    have given := same (Array.getElem?_eq_some_iff.1 here).1
    dsimp only at failed here given reached
    rw [depthAfter_eq depth measured] at failed
    split at failed
    · next under =>
      cases failed
      exact ⟨⟨_, rfl⟩, position, reached, .inl ⟨step, effect, here, measured, by omega⟩⟩
    next enough =>
    split at failed
    · next beyond =>
      cases failed
      refine ⟨⟨_, rfl⟩, position, reached, .inr ⟨_, ⟨step, effect, here, measured, rfl⟩, ?_⟩⟩
      omega
    · cases failed
  · obtain ⟨found, next⟩ := exists_successors g step position after (charted.placed _ step here)
    cases failed.symm.trans next

include levels charted in
/-- What a search of all paths comes to: with nothing left, the greatest depth behind all that
control can come to; with a failure, a step that does not fit. -/
theorem Exploring.outcome {s : DepthSearch} (exploring : Exploring g entry level base s)
    {result : Except Failure Nat} (explores : Explores g s result) :
    match result with
    | .ok size => ∃ s', s'.paths = [] ∧ s'.greatest = size ∧ Exploring g entry level base s'
      ∧ Continues g (heights level) s s'
    | .error e => (∃ fault, e = .encoding fault)
      ∧ ∃ i, g.Reached entry i ∧ (g.Underflows level i ∨ g.Overflows level i) := by
  induction explores with
  | done nothing => exact ⟨_, nothing, rfl, exploring, .refl _⟩
  | fails failed =>
    obtain ⟨path, rest, any, failed⟩ := failed
    exact (exploring.perm any).fails charted failed
  | @round s s' result takes _ ih =>
    obtain ⟨path, rest, any, followed⟩ := takes
    obtain ⟨exploring', continues⟩ := (exploring.perm any).follow levels charted followed
    have behind := ih exploring'
    cases result with
    | error e => exact behind
    | ok size =>
      obtain ⟨last, nothing, same, final, onward⟩ := behind
      exact ⟨last, nothing, same, final, (Continues.perm any).trans (continues.trans onward)⟩

include levels charted in
/-- A step that fits leads on along all edges of the graph. -/
theorem exists_leads {i : Nat} {step : Step} (reached : g.Reached entry i)
    (here : g.steps[i]? = some step) (enough : ¬g.Underflows level i) (low : ¬g.Overflows level i) :
    ∃ after found, g.Leads (heights level) i step after found ∧ g.After level i after
      ∧ ∀ j growth, g.Edge i j growth → ∃ path ∈ found, path.1 = j := by
  obtain ⟨effect, measured⟩ := charted.measured i step here
  have fits : (effect.pop : Int) ≤ level i := by
    by_contra less
    exact enough ⟨step, effect, here, measured, by omega⟩
  have small : level i - effect.pop + effect.push ≤ limit := by
    by_contra more
    exact low ⟨_, ⟨step, effect, here, measured, rfl⟩, by omega⟩
  obtain ⟨depth, same⟩ := Int.eq_ofNat_of_zero_le (show 0 ≤ level i by omega)
  have passes : depthAfter step depth = .ok (depth - effect.pop + effect.push) := by
    rw [depthAfter_eq depth measured, if_neg (by omega), if_neg (by omega)]
  obtain ⟨found, next⟩ := exists_successors g step i (depth - effect.pop + effect.push)
    (charted.placed i step here)
  obtain ⟨leads, behind, -⟩ := leads_of_depthAfter levels charted reached same here passes next
  exact ⟨_, found, leads, behind, (edges_of_successors here measured fits (by omega) next).2⟩

include levels charted in
/-- With nothing left, the search has come by all that control can come to. -/
theorem Exploring.visited_of_reached {s : DepthSearch} (exploring : Exploring g entry level base s)
    (nothing : s.paths = []) (entries : ∀ i depth, entry i depth → s.Covers g i) {i : Nat}
    (reached : g.Reached entry i) (inside : i < g.steps.size) : s.Visited i := by
  induction reached with
  | entry start => exact (entries _ _ start).visited inside nothing
  | @edge i j growth before edge ih =>
    obtain ⟨step, here⟩ : ∃ step, g.steps[i]? = some step := by
      cases edge <;> exact ⟨_, by assumption⟩
    have seen := ih (Array.getElem?_eq_some_iff.1 here).1
    obtain ⟨-, enough, low⟩ := exploring.visited i seen
    obtain ⟨after, found, leads, -, edges⟩ :=
      exists_leads levels charted before here enough low
    obtain ⟨path, member, rfl⟩ := edges j growth edge
    exact ((exploring.behind i seen step after found leads).2 path member).visited inside nothing

end Follow

/-- **Searches in any order find the same**: the greatest depth if all that control can come to fits,
and a failure otherwise. -/
theorem explores_exact {base : Nat} (levels : g.Levels entry level) (charted : g.Charted)
    {s : DepthSearch} (exploring : Exploring g entry level base s) (least : base ≤ s.greatest)
    (entries : ∀ i depth, entry i depth → s.Covers g i)
    {result : Except Failure Nat} (explores : Explores g s result) :
    match result with
    | .ok size => (∀ i, g.Reached entry i → ¬g.Underflows level i ∧ ¬g.Overflows level i)
      ∧ (size = base ∨ ∃ i, g.Reached entry i ∧ g.After level i size) ∧ base ≤ size
      ∧ ∀ i depth, g.Reached entry i → g.After level i depth → depth ≤ size
    | .error e => (∃ fault, e = .encoding fault)
      ∧ ∃ i, g.Reached entry i ∧ (g.Underflows level i ∨ g.Overflows level i) := by
  have outcome := exploring.outcome levels charted explores
  cases result with
  | error e => exact outcome
  | ok size =>
    obtain ⟨last, nothing, rfl, final, continues⟩ := outcome
    have visited : ∀ {i step}, g.Reached entry i → g.steps[i]? = some step → last.Visited i :=
      fun reached here => final.visited_of_reached levels charted nothing
        (fun i depth start => continues.covers i (entries i depth start)) reached
        (Array.getElem?_eq_some_iff.1 here).1
    -- what does not fit has a step, and the search came by it without a failure
    have fits : ∀ i, g.Reached entry i → ¬g.Underflows level i ∧ ¬g.Overflows level i := by
      refine fun i reached => ⟨fun under => ?_, fun beyond => ?_⟩
      · have ⟨step, effect, here, _⟩ := under
        exact (final.visited i (visited reached here)).2.1 under
      · have ⟨depth, ⟨step, effect, here, _⟩, _⟩ := beyond
        exact (final.visited i (visited reached here)).2.2 beyond
    refine ⟨fits, final.greatest, Nat.le_trans least continues.greatest, ?_⟩
    rintro i depth reached ⟨step, effect, here, measured, rfl⟩
    obtain ⟨enough, low⟩ := fits i reached
    obtain ⟨after, found, leads, ⟨step', effect', here', measured', same⟩, -⟩ :=
      exists_leads levels charted reached here enough low
    cases here.symm.trans here'
    cases measured.symm.trans measured'
    have bound := (final.behind i (visited reached here) step after found leads).1
    omega

end DepthSearch

/-! ### Bodies -/

namespace Code

/-- Where control enters a body, and how deep the stack is there: at the start nothing is on it, in a
handler the exception. -/
inductive Enters (code : Code) : Nat → Nat → Prop
  | start : Enters code 0 0
  | handler {r : ExceptionRange} {i : Nat} (range : r ∈ code.handlers)
    (place : code.depthGraph.positions[r.handler]? = some i) : Enters code i 1

/-- Nothing is found yet, and all places where control enters are to be followed, in some order. -/
structure StartsAt (code : Code) (s : DepthSearch) : Prop where
  depths : s.depths = Array.replicate code.depthGraph.steps.size none
  paths : ∀ path, path ∈ s.paths ↔ code.Enters path.1 path.2
  greatest : s.greatest = if code.handlers.isEmpty then 0 else 1

/-- What a search finds that takes all paths in some order. -/
def Finds (code : Code) (result : Except Failure Nat) : Prop :=
  ∃ s, code.StartsAt s ∧ DepthSearch.Explores code.depthGraph s result

/-- All labels that control can go to are placed, and every executable instruction has an effect on
the stack. -/
structure Followable (code : Code) : Prop where
  targets : ∀ insn ∈ code.instructions.toList, ∀ l ∈ insn.targets,
    .label l ∈ code.instructions.toList
  handlers : ∀ r ∈ code.handlers, .label r.handler ∈ code.instructions.toList
  measured : ∀ opcode operand, .op opcode operand ∈ code.instructions.toList →
    ∃ effect, stackEffect opcode operand = .ok effect

/-- A label that is placed has a position. -/
theorem exists_position {code : Code} {l : Label} (placed : .label l ∈ code.instructions.toList) :
    ∃ j, code.depthGraph.positions[l]? = some j := by
  rw [positions_depthGraph, ← Option.isSome_iff_exists, Steps.isSome_positionOf?]
  exact List.mem_filterMap.2 ⟨_, placed, rfl⟩

theorem Followable.charted {code : Code} (followable : code.Followable) :
    code.depthGraph.Charted := by
  have member : ∀ (i : Nat) (step : Step), code.depthGraph.steps[i]? = some step →
      .op step.opcode step.operand ∈ code.instructions.toList := by
    intro i step here
    rw [← Steps.toList_ofList code.instructions.toList]
    refine List.mem_append_left _ (List.mem_flatMap.2 ⟨step, ?_, List.mem_append_right _ ?_⟩)
    · exact Array.mem_toList_iff.2 (Array.mem_of_getElem? here)
    · exact List.mem_singleton.2 rfl
  refine ⟨fun i step here l target => ?_, fun i step here => ?_⟩
  · exact exists_position (followable.targets _ (member i step here) l target)
  · exact followable.measured _ _ (member i step here)

/-- **The size is what one of these searches finds.** -/
theorem finds_stackSize {code : Code} (followable : code.Followable) :
    code.Finds code.stackSize := by
  obtain ⟨handlers, resolved⟩ := Traverse.exists_mapM (f := fun r : ExceptionRange =>
      code.depthGraph.positions.get r.handler) fun r range => by
    obtain ⟨j, place⟩ := exists_position (followable.handlers r range)
    exact ⟨j, Positions.get_eq_ok_iff.2 place⟩
  have each := Traverse.mapM_eq_ok_iff.1 resolved
  refine ⟨code.depthStart handlers, ⟨rfl, fun path => ?_, ?_⟩, ?_⟩
  · rw [depthStart, List.mem_append, List.mem_reverse, List.mem_map, List.mem_singleton]
    constructor
    · rintro (⟨j, member, rfl⟩ | rfl)
      · obtain ⟨r, range, place⟩ := Traverse.exists_of_mem_right each member
        exact .handler range (Positions.get_eq_ok_iff.1 place)
      · exact .start
    · obtain ⟨i, depth⟩ := path
      rintro (_ | ⟨range, place⟩)
      · exact .inr rfl
      · obtain ⟨j, member, place'⟩ := Traverse.exists_of_mem_right each.flip range
        cases place.symm.trans (Positions.get_eq_ok_iff.1 place')
        exact .inl ⟨_, member, rfl⟩
  · show (if handlers.isEmpty then 0 else 1) = if code.handlers.isEmpty then 0 else 1
    generalize code.handlers = ranges at each
    cases each <;> rfl
  · have same : code.stackSize
        = (DepthSearch.run code.depthGraph (code.depthStart handlers)).map DepthSearch.greatest := by
      show ((code.handlers.mapM fun r => code.depthGraph.positions.get r.handler) >>= fun handlers =>
        DepthSearch.run code.depthGraph (code.depthStart handlers) >>= fun r => .ok r.greatest) = _
      rw [resolved]
      show (DepthSearch.run code.depthGraph (code.depthStart handlers) >>= fun r => .ok r.greatest)
        = _
      cases DepthSearch.run code.depthGraph (code.depthStart handlers) <;> rfl
    rw [same]
    exact DepthSearch.explores_run _ _

/-- What is known when a search starts. -/
theorem StartsAt.exploring {code : Code} {s : DepthSearch} (starts : code.StartsAt s)
    {level : Nat → Int} (levels : code.depthGraph.Levels code.Enters level) :
    DepthSearch.Exploring code.depthGraph code.Enters level
      (if code.handlers.isEmpty then 0 else 1) s := by
  have unseen : ∀ i, ¬s.Visited i := by
    rintro i ⟨depth, here⟩
    rw [starts.depths, Array.getElem?_replicate] at here
    split at here <;> cases here
  have waiting : ∀ path ∈ s.paths, code.depthGraph.Reached code.Enters path.1
      ∧ (path.1 < code.depthGraph.steps.size → level path.1 = path.2) := by
    intro path member
    have enters := (starts.paths path).1 member
    exact ⟨.entry enters, levels.starts _ _ enters⟩
  refine ⟨⟨?_, fun path member inside => ?_, fun i visited => absurd visited (unseen i)⟩, waiting,
    fun i visited => absurd visited (unseen i), .inl starts.greatest⟩
  · rw [starts.depths, Array.size_replicate]
  · rw [DepthSearch.heights, (waiting path member).2 inside, Int.toNat_natCast]

/-- The depths that decide the size of a body. -/
def depths (code : Code) (level : Nat → Int) : Set Int :=
  {depth | depth = 0 ∨ depth = 1 ∧ code.handlers ≠ []
    ∨ ∃ i, code.depthGraph.Reached code.Enters i ∧ code.depthGraph.After level i depth}

/-- **The size of the operand stack is exact**, if there is one depth for each step that control can
come to.  Every search comes to an end.  If no step that control can come to takes more than there
is and none leaves more than the limit, the size is the greatest depth, in whatever order the paths
are followed; if some step takes more than there is, no search gives a size. -/
theorem stackSize_exact {code : Code} {level : Nat → Int} (followable : code.Followable)
    (levels : code.depthGraph.Levels code.Enters level) :
    code.Finds code.stackSize
    ∧ (WellFounded fun s' s => DepthSearch.Takes code.depthGraph s (.ok s'))
    ∧ ∀ result, code.Finds result →
      ((∀ i, code.depthGraph.Reached code.Enters i →
          ¬code.depthGraph.Underflows level i ∧ ¬code.depthGraph.Overflows level i) →
        ∃ size : Nat, result = .ok size ∧ IsGreatest (code.depths level) size)
      ∧ ((∃ i, code.depthGraph.Reached code.Enters i ∧ code.depthGraph.Underflows level i) →
        ∃ fault, result = .error (.encoding fault)) := by
  refine ⟨finds_stackSize followable, DepthSearch.wellFounded_takes _, ?_⟩
  rintro result ⟨s, starts, explores⟩
  have exact := DepthSearch.explores_exact levels followable.charted (starts.exploring levels)
    (Nat.le_of_eq starts.greatest.symm) (fun i depth enters _ => .inr ⟨depth, (starts.paths (i, depth)).2 enters⟩)
    explores
  cases result with
  | error e =>
    obtain ⟨⟨fault, rfl⟩, i, reached, misfit⟩ := exact
    refine ⟨fun fits => ?_, fun _ => ⟨fault, rfl⟩⟩
    obtain ⟨enough, low⟩ := fits i reached
    exact absurd misfit (not_or.2 ⟨enough, low⟩)
  | ok size =>
    obtain ⟨fits, attained, least, above⟩ := exact
    refine ⟨fun _ => ⟨size, rfl, ?_, ?_⟩, fun ⟨i, reached, under⟩ => absurd under (fits i reached).1⟩
    · rcases attained with rfl | behind
      · cases none : code.handlers with
        | nil => exact .inl rfl
        | cons r ranges => exact .inr (.inl ⟨rfl, by rw [none]; exact List.cons_ne_nil _ _⟩)
      · exact .inr (.inr behind)
    · rintro depth (rfl | ⟨rfl, some⟩ | ⟨i, reached, behind⟩)
      · exact Int.natCast_nonneg size
      · rw [List.isEmpty_eq_false_iff.2 some] at least
        exact Int.ofNat_le.2 least
      · exact above i depth reached behind

/-- A loop that calls a subroutine with something on the stack; a handler around the loop throws
again. -/
def calling : Code where
  maxStack := 0
  maxLocals := 0
  instructions := .ofList [.label ⟨0⟩, .op Opcode.aconstNull .none, .op Opcode.jsr (.jump ⟨1⟩),
    .op Opcode.pop .none, .op Opcode.goto (.jump ⟨0⟩), .label ⟨1⟩, .op Opcode.astore (.var 1),
    .op Opcode.ret (.var 1), .label ⟨2⟩, .op Opcode.athrow .none] 3
  handlers := [⟨⟨0⟩, ⟨1⟩, ⟨2⟩, none⟩]
  localVariables := []

/-- The effects of its instructions. -/
def callingEffects : List StackEffect := [⟨0, 1⟩, ⟨0, 1⟩, ⟨1, 0⟩, ⟨0, 0⟩, ⟨1, 0⟩, ⟨0, 0⟩, ⟨1, 0⟩]

/-- The depths in front of its instructions. -/
def callingLevel (i : Nat) : Int := [0, 1, 1, 0, 2, 1, 1].getD i 0

theorem effect_calling {i : Nat} {step : Step} {effect : StackEffect}
    (here : calling.depthGraph.steps[i]? = some step)
    (measured : stackEffect step.opcode step.operand = .ok effect) :
    i < 7 ∧ callingEffects[i]? = some effect := by
  have less : i < 7 := (Array.getElem?_eq_some_iff.1 here).1
  refine ⟨less, ?_⟩
  match i, less with
  | 0, _ | 1, _ | 2, _ | 3, _ | 4, _ | 5, _ | 6, _ =>
    cases here
    cases measured
    rfl

theorem followable_calling : calling.Followable := by
  have whole : calling.instructions.toList = [.label ⟨0⟩, .op Opcode.aconstNull .none,
    .op Opcode.jsr (.jump ⟨1⟩), .op Opcode.pop .none, .op Opcode.goto (.jump ⟨0⟩), .label ⟨1⟩,
    .op Opcode.astore (.var 1), .op Opcode.ret (.var 1), .label ⟨2⟩, .op Opcode.athrow .none] := rfl
  refine ⟨?_, ?_, ?_⟩
  · simp [whole, Instruction.targets, Operand.targets]
  · simp [calling]
  · intro opcode operand member
    simp only [whole, List.mem_cons, Instruction.op.injEq, reduceCtorEq, List.not_mem_nil, false_or,
      or_false] at member
    rcases member with ⟨rfl, rfl⟩ | ⟨rfl, rfl⟩ | ⟨rfl, rfl⟩ | ⟨rfl, rfl⟩ | ⟨rfl, rfl⟩ | ⟨rfl, rfl⟩
      | ⟨rfl, rfl⟩ <;> exact ⟨_, rfl⟩

theorem levels_calling : calling.depthGraph.Levels calling.Enters callingLevel where
  starts i depth enters _ := by
    cases enters with
    | start => rfl
    | handler range place =>
      rw [List.mem_singleton.1 range, positions_depthGraph] at place
      cases place
      rfl
  along i j growth _ edge inside := by
    cases edge with
    | jump here measured target place =>
      obtain ⟨less, effect⟩ := effect_calling here measured
      rw [positions_depthGraph] at place
      match i, less with
      | 1, _ | 3, _ =>
        cases here
        cases effect
        cases List.mem_singleton.1 target
        cases place
        rfl
      | 0, _ | 2, _ | 4, _ | 5, _ | 6, _ =>
        cases here
        cases target
    | next here measured on =>
      obtain ⟨less, effect⟩ := effect_calling here measured
      match i, less with
      | 0, _ | 1, _ | 2, _ | 4, _ =>
        cases here
        cases effect
        rfl
      | 3, _ | 5, _ | 6, _ =>
        cases here
        cases on

/-- Every instruction of it finds what it takes, and none leaves too much. -/
theorem fits_calling (i : Nat) : ¬calling.depthGraph.Underflows callingLevel i
    ∧ ¬calling.depthGraph.Overflows callingLevel i := by
  refine ⟨?_, ?_⟩
  · rintro ⟨step, effect, here, measured, under⟩
    obtain ⟨less, known⟩ := effect_calling here measured
    match i, less with
    | 0, _ | 1, _ | 2, _ | 3, _ | 4, _ | 5, _ | 6, _ =>
      cases known
      exact absurd under (by decide)
  · rintro ⟨depth, ⟨step, effect, here, measured, rfl⟩, beyond⟩
    obtain ⟨less, known⟩ := effect_calling here measured
    match i, less with
    | 0, _ | 1, _ | 2, _ | 3, _ | 4, _ | 5, _ | 6, _ =>
      cases known
      exact absurd beyond (by decide)

/-- A body that takes from the empty stack. -/
def popping : Code where
  maxStack := 0
  maxLocals := 0
  instructions := .ofList [.op Opcode.pop .none] 0
  handlers := []
  localVariables := []

theorem stackSize_exact_calling :
    (∃ size : Nat, calling.stackSize = .ok size ∧ IsGreatest (calling.depths callingLevel) size)
    ∧ ∃ fault, popping.stackSize = .error (.encoding fault) := by
  refine ⟨?_, ?_⟩
  · obtain ⟨finds, -, exact⟩ := stackSize_exact followable_calling levels_calling
    exact (exact _ finds).1 fun i _ => fits_calling i
  · have followable : popping.Followable := by
      have whole : popping.instructions.toList = [.op Opcode.pop .none] := rfl
      refine ⟨?_, ?_, ?_⟩
      · simp [whole, Instruction.targets, Operand.targets]
      · simp [popping]
      · intro opcode operand member
        rw [whole, List.mem_singleton] at member
        cases member
        exact ⟨_, rfl⟩
    have levels : popping.depthGraph.Levels popping.Enters fun _ => 0 := by
      refine ⟨fun i depth enters _ => ?_, fun i j growth _ edge inside => ?_⟩
      · cases enters with
        | start => rfl
        | handler range _ => cases range
      · have single : j < 1 := inside
        cases edge with
        | jump here _ target _ =>
          obtain rfl : i = 0 := Nat.lt_one_iff.1 (Array.getElem?_eq_some_iff.1 here).1
          cases here
          cases target
        | next => omega
    obtain ⟨finds, -, exact⟩ := stackSize_exact followable levels
    refine (exact _ finds).2 ⟨0, .entry .start, ?_⟩
    exact ⟨⟨[], Opcode.pop, .none⟩, ⟨1, 0⟩, rfl, rfl, by decide⟩

end Code

end ClassInstrument
