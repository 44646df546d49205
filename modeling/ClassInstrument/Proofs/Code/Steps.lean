import ClassInstrument.Code.Steps
import Mathlib.Data.List.Forall2

/-!
# Bodies by their steps

A body is its executable instructions, each with the marks in front of it, and the marks at its
end.  What stands where can be told from one of them at a time.

* `Steps.positionOf?` — the number of the instruction that a label stands in front of;
* `Steps.Tidy` — the marks are marks;
* `Steps.ofList_toList` — **a body has only one such form**;
* `Steps.getElem?_positions` — the table of positions has the position of every label;
* `Steps.positionOf?_congr`, `Steps.positionOf?_unique` — positions by steps.
-/

namespace ClassInstrument.Steps

/-! ### Positions -/

/-- The number of the instruction that a label stands in front of; the end of a body has the
number of all instructions.  A label that is placed several times counts where it is placed
last. -/
def positionOf? (l : Label) : List Instruction → Option Nat
  | [] => none
  | .op .. :: rest => (positionOf? l rest).map (· + 1)
  | .label m :: rest => (positionOf? l rest).or (if m = l then some 0 else none)
  | _ :: rest => positionOf? l rest

/-- A label has a position if and only if it is placed. -/
theorem isSome_positionOf? {l : Label} {insns : List Instruction} :
    (positionOf? l insns).isSome = true ↔ l ∈ labelsOf insns := by
  induction insns with
  | nil => simp [positionOf?, labelsOf]
  | cons insn insns ih =>
    cases insn with
    | op op operand => simpa [positionOf?, labelsOf, Instruction.label?] using ih
    | label m =>
      have same : m = l ↔ l = m := eq_comm
      simp only [labelsOf] at ih
      simp [positionOf?, labelsOf, Instruction.label?, ← ih, same, or_comm]
    | line number start => exact ih
    | frame frame => exact ih

/-- The labels of a body stand in front of its steps or behind all of them. -/
theorem mem_labelsOf_toList {s : Steps} {l : Label} : l ∈ labelsOf s.toList
    ↔ (∃ step ∈ s.steps, l ∈ labelsOf step.marks) ∨ l ∈ labelsOf s.tail := by
  have single : ∀ step : Step, labelsOf [step.insn] = [] := fun _ => rfl
  simp only [labelsOf] at single ⊢
  simp only [toList, List.filterMap_append, List.filterMap_flatMap, List.mem_append,
    List.mem_flatMap, single, List.append_nil]

/-- No position is behind the end. -/
theorem positionOf?_le {l : Label} {insns : List Instruction} {k : Nat}
    (h : positionOf? l insns = some k) : k ≤ insns.countP fun insn => !insn.isPseudo := by
  induction insns generalizing k with
  | nil => cases h
  | cons insn insns ih =>
    cases insn with
    | op op operand =>
      obtain ⟨j, hj, rfl⟩ := Option.map_eq_some_iff.1 h
      have := ih hj
      rw [List.countP_cons_of_pos rfl]
      omega
    | label m =>
      rw [List.countP_cons_of_neg (by simp [Instruction.isPseudo])]
      rcases Option.or_eq_some_iff.1 h with h | ⟨-, h⟩
      · exact ih h
      · split at h
        · cases h
          exact Nat.zero_le _
        · cases h
    | line number start =>
      rw [List.countP_cons_of_neg (by simp [Instruction.isPseudo])]
      exact ih h
    | frame frame =>
      rw [List.countP_cons_of_neg (by simp [Instruction.isPseudo])]
      exact ih h

/-- Marks in front of other instructions. -/
theorem positionOf?_append {l : Label} {marks : List Instruction}
    (pseudo : ∀ mark ∈ marks, mark.isPseudo = true) (rest : List Instruction) :
    positionOf? l (marks ++ rest)
      = (positionOf? l rest).or (if l ∈ labelsOf marks then some 0 else none) := by
  induction marks with
  | nil => simp [labelsOf]
  | cons mark marks ih =>
    have behind := ih fun m hm => pseudo m (List.mem_cons_of_mem _ hm)
    cases mark with
    | op op operand => cases pseudo _ List.mem_cons_self
    | label m =>
      rw [List.cons_append, positionOf?, behind, Option.or_assoc]
      congr 1
      by_cases same : m = l
      · have there : l ∈ labelsOf (.label m :: marks) := by
          show l ∈ m :: labelsOf marks
          simp [same]
        rw [if_pos same, if_pos there]
        split <;> rfl
      · have there : l ∈ labelsOf (.label m :: marks) ↔ l ∈ labelsOf marks := by
          show l ∈ m :: labelsOf marks ↔ _
          simp [Ne.symm same]
        rw [if_neg same, Option.or_none]
        simp only [there]
    | line number start => exact behind
    | frame types => exact behind

/-- Only marks place labels. -/
theorem positionOf?_marks {l : Label} {marks : List Instruction}
    (pseudo : ∀ mark ∈ marks, mark.isPseudo = true) :
    positionOf? l marks = if l ∈ labelsOf marks then some 0 else none := by
  have all := positionOf?_append (l := l) pseudo []
  rwa [List.append_nil, positionOf?, Option.none_or] at all

/-- Frames place no labels. -/
theorem positionOf?_filter (l : Label) {keep : Instruction → Bool}
    (kept : ∀ insn, keep insn = false → ∃ frame, insn = .frame frame) (insns : List Instruction) :
    positionOf? l (insns.filter keep) = positionOf? l insns := by
  induction insns with
  | nil => rfl
  | cons insn insns ih =>
    rw [List.filter_cons]
    cases keeps : keep insn with
    | false =>
      obtain ⟨frame, rfl⟩ := kept insn keeps
      exact ih
    | true =>
      simp only [if_true]
      cases insn <;> simp only [positionOf?, ih]

/-! ### One form only -/

/-- Marks are no executable instructions. -/
structure Tidy (s : Steps) : Prop where
  marks : ∀ step ∈ s.steps, ∀ mark ∈ step.marks, mark.isPseudo = true
  tail : ∀ mark ∈ s.tail, mark.isPseudo = true

theorem tidy_split {steps : List Step} {marks insns : List Instruction}
    (each : ∀ step ∈ steps, ∀ mark ∈ step.marks, mark.isPseudo = true)
    (pseudo : ∀ mark ∈ marks, mark.isPseudo = true) : (split steps marks insns).Tidy := by
  fun_induction split steps marks insns with
  | case1 steps marks =>
    exact ⟨fun step member => each step (List.mem_reverse.1 member),
      fun mark member => pseudo mark (List.mem_reverse.1 member)⟩
  | case2 steps marks op operand rest ih =>
    refine ih (fun step member => ?_) fun _ h => absurd h List.not_mem_nil
    rcases List.mem_cons.1 member with rfl | old
    · exact fun mark member => pseudo mark (List.mem_reverse.1 member)
    · exact each step old
  | case3 steps marks mark rest other ih =>
    refine ih each fun m member => ?_
    rcases List.mem_cons.1 member with rfl | old
    · cases m with
      | op op operand => exact absurd rfl (other op operand)
      | _ => rfl
    · exact pseudo m old

theorem tidy_ofList (insns : List Instruction) : (ofList insns).Tidy :=
  tidy_split (fun _ h => absurd h List.not_mem_nil) fun _ h => absurd h List.not_mem_nil

theorem split_marks (steps : List Step) (seen : List Instruction) {marks : List Instruction}
    (pseudo : ∀ mark ∈ marks, mark.isPseudo = true) (rest : List Instruction) :
    split steps seen (marks ++ rest) = split steps (marks.reverse ++ seen) rest := by
  induction marks generalizing seen with
  | nil => rfl
  | cons mark marks ih =>
    have behind := ih (mark :: seen) fun m member => pseudo m (List.mem_cons_of_mem _ member)
    rw [List.reverse_cons, List.append_assoc, List.singleton_append, ← behind]
    cases mark with
    | op op operand => cases pseudo _ List.mem_cons_self
    | _ => rfl

/-- **A body has only one such form.** -/
theorem ofList_toList {s : Steps} (tidy : s.Tidy) : ofList s.toList = s := by
  obtain ⟨steps, tail⟩ := s
  obtain ⟨marks, pseudo⟩ := tidy
  dsimp only at marks pseudo
  suffices general : ∀ seen : List Step,
      split seen [] (toList ⟨steps, tail⟩) = ⟨seen.reverse ++ steps, tail⟩ from general []
  induction steps with
  | nil =>
    intro seen
    have all := split_marks seen [] pseudo []
    rw [List.append_nil] at all
    rw [toList, List.flatMap_nil, List.nil_append, all]
    simp [split]
  | cons step steps ih =>
    intro seen
    obtain ⟨front, op, operand⟩ := step
    have first := marks _ List.mem_cons_self
    show split seen [] (((front ++ [.op op operand])
      ++ steps.flatMap fun step => step.marks ++ [step.insn]) ++ tail) = _
    rw [List.append_assoc, List.append_assoc, split_marks seen [] first]
    show split (⟨(front.reverse ++ []).reverse, op, operand⟩ :: seen) [] (toList ⟨steps, tail⟩) = _
    rw [ih fun step member => marks step (List.mem_cons_of_mem _ member)]
    simp

/-- Without some of the marks the steps stay. -/
theorem steps_filter {keep : Instruction → Bool}
    (kept : ∀ insn, insn.isPseudo = false → keep insn = true) (insns : List Instruction) :
    (ofList (insns.filter keep)).steps
      = (ofList insns).steps.map fun step => { step with marks := step.marks.filter keep } := by
  have tidy := tidy_ofList insns
  have whole := toList_ofList insns
  generalize ofList insns = s at tidy whole ⊢
  have same : insns.filter keep = toList ⟨s.steps.map fun step =>
      { step with marks := step.marks.filter keep }, s.tail.filter keep⟩ := by
    have each : ∀ step : Step, (step.marks ++ [step.insn]).filter keep
        = step.marks.filter keep ++ [step.insn] := by
      intro step
      rw [List.filter_append, List.filter_singleton, kept step.insn rfl, cond_true]
    rw [← whole, toList, toList, List.filter_append, List.filter_flatMap, List.flatMap_map]
    congr 1
    exact List.flatMap_congr fun step _ => each step
  rw [same, ofList_toList]
  refine ⟨fun step member mark inside => ?_, fun mark inside => ?_⟩
  · obtain ⟨old, there, rfl⟩ := List.mem_map.1 member
    exact tidy.marks old there mark (List.mem_of_mem_filter inside)
  · exact tidy.tail mark (List.mem_of_mem_filter inside)

/-! ### The table of positions -/

theorem toList_cons (step : Step) (steps : List Step) (tail : List Instruction) :
    toList ⟨step :: steps, tail⟩
      = step.marks ++ .op step.opcode step.operand :: toList ⟨steps, tail⟩ := by
  simp [toList, Step.insn]

theorem getElem?_placeAll (position : Nat) (table : Positions) (marks : List Instruction)
    (l : Label) : (placeAll position table marks)[l]?
      = (if l ∈ labelsOf marks then some position else none).or table[l]? := by
  unfold placeAll
  generalize labelsOf marks = labels
  induction labels generalizing table with
  | nil => simp
  | cons label labels ih =>
    rw [List.foldl_cons, ih, Std.HashMap.getElem?_insert]
    by_cases later : l ∈ labels
    · simp [later]
    · by_cases same : label = l
      · subst same
        simp [later]
      · simp [later, same, Ne.symm same]

/-- The labels of one more step. -/
def placeStep (found : Nat × Positions) (step : Step) : Nat × Positions :=
  (found.1 + 1, placeAll found.1 found.2 step.marks)

/-- **The table of positions has the position of every label.** -/
theorem getElem?_positions {s : Steps} (tidy : s.Tidy) (l : Label) :
    s.positions[l]? = positionOf? l s.toList := by
  obtain ⟨steps, tail⟩ := s
  obtain ⟨marks, pseudo⟩ := tidy
  dsimp only at marks pseudo
  have general : ∀ (steps : List Step) (count : Nat) (table : Positions),
      (∀ step ∈ steps, ∀ mark ∈ step.marks, mark.isPseudo = true) →
      (placeAll (steps.foldl placeStep (count, table)).1
        (steps.foldl placeStep (count, table)).2 tail)[l]?
        = ((positionOf? l (toList ⟨steps, tail⟩)).map (· + count)).or table[l]? := by
    intro steps
    induction steps with
    | nil =>
      intro count table _
      show (placeAll count table tail)[l]? = ((positionOf? l tail).map _).or _
      rw [getElem?_placeAll, positionOf?_marks pseudo]
      split <;> simp
    | cons step steps ih =>
      intro count table marks
      have first := marks step List.mem_cons_self
      have rest := ih (count + 1) (placeAll count table step.marks)
        fun step member => marks step (List.mem_cons_of_mem _ member)
      rw [List.foldl_cons]
      refine rest.trans ?_
      rw [toList_cons, positionOf?_append first, positionOf?, getElem?_placeAll, ← Option.or_assoc]
      congr 1
      cases positionOf? l (toList ⟨steps, tail⟩) with
      | none =>
        simp only [Option.map_none, Option.none_or]
        split <;> simp
      | some k =>
        simp only [Option.map_some, Option.some_or, Option.some.injEq]
        omega
  have all := general steps 0 ∅ marks
  simp only [Nat.add_zero, Option.map_id', Std.HashMap.getElem?_empty, Option.or_none] at all
  exact all

/-! ### Positions by steps -/

/-- A label has the same position in two bodies if it stands in front of the same steps. -/
theorem positionOf?_congr {l : Label} {s s' : Steps} (tidy : s.Tidy) (tidy' : s'.Tidy)
    (same : List.Forall₂ (fun step step' => l ∈ labelsOf step.marks ↔ l ∈ labelsOf step'.marks)
      s.steps s'.steps)
    (last : l ∈ labelsOf s.tail ↔ l ∈ labelsOf s'.tail) :
    positionOf? l s.toList = positionOf? l s'.toList := by
  obtain ⟨steps, tail⟩ := s
  obtain ⟨steps', tail'⟩ := s'
  dsimp only at same last
  induction same with
  | nil =>
    show positionOf? l tail = positionOf? l tail'
    rw [positionOf?_marks tidy.tail, positionOf?_marks tidy'.tail]
    simp only [last]
  | cons first rest ih =>
    rw [toList_cons, toList_cons, positionOf?_append (tidy.marks _ List.mem_cons_self),
      positionOf?_append (tidy'.marks _ List.mem_cons_self), positionOf?, positionOf?,
      ih ⟨fun step member => tidy.marks step (List.mem_cons_of_mem _ member), tidy.tail⟩
        ⟨fun step member => tidy'.marks step (List.mem_cons_of_mem _ member), tidy'.tail⟩]
    simp only [first]

/-- A label that stands in front of one step only has its number, or that of all steps if it
stands behind them. -/
theorem positionOf?_unique {l : Label} {s : Steps} (tidy : s.Tidy) {k : Nat}
    (only : ∀ i step, s.steps[i]? = some step → (l ∈ labelsOf step.marks ↔ i = k))
    (last : l ∈ labelsOf s.tail ↔ k = s.steps.length) (le : k ≤ s.steps.length) :
    positionOf? l s.toList = some k := by
  obtain ⟨steps, tail⟩ := s
  dsimp only at only last le
  induction steps generalizing k with
  | nil =>
    obtain rfl : k = 0 := Nat.le_zero.1 le
    show positionOf? l tail = _
    rw [positionOf?_marks tidy.tail, if_pos (last.2 rfl)]
  | cons step steps ih =>
    have tidy' : Tidy ⟨steps, tail⟩ :=
      ⟨fun step member => tidy.marks step (List.mem_cons_of_mem _ member), tidy.tail⟩
    have here := only 0 step rfl
    rw [toList_cons, positionOf?_append (tidy.marks _ List.mem_cons_self), positionOf?]
    cases k with
    | zero =>
      have absent : positionOf? l (toList ⟨steps, tail⟩) = none := by
        rw [← Option.not_isSome_iff_eq_none, isSome_positionOf?]
        intro placed
        obtain ⟨insn, inside, label⟩ := List.mem_filterMap.1 placed
        rcases List.mem_append.1 inside with front | behind
        · obtain ⟨step', member, inside'⟩ := List.mem_flatMap.1 front
          obtain ⟨i, there⟩ := List.mem_iff_getElem?.1 member
          rcases List.mem_append.1 inside' with mark | insn'
          · have := (only (i + 1) step' there).1 (List.mem_filterMap.2 ⟨insn, mark, label⟩)
            omega
          · rw [List.mem_singleton.1 insn'] at label
            cases label
        · have := last.1 (List.mem_filterMap.2 ⟨insn, behind, label⟩)
          simp at this
      rw [absent, if_pos (here.2 rfl)]
      rfl
    | succ k =>
      rw [ih tidy' (fun i step' there => (only (i + 1) step' there).trans (by omega))
        (last.trans (by rw [List.length_cons]; omega)) (Nat.le_of_succ_le_succ le)]
      rfl

end ClassInstrument.Steps

namespace ClassInstrument

/-- A label is found exactly if the table has it. -/
theorem Positions.get_eq_ok_iff {positions : Positions} {l : Label} {i : Nat} :
    positions.get l = .ok i ↔ positions[l]? = some i := by
  unfold Positions.get
  cases positions[l]? <;> simp

end ClassInstrument
