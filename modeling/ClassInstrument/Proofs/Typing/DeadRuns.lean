import ClassInstrument.Typing.Frames
import Mathlib.Data.List.Pairwise

/-!
# Runs of dead steps

The steps that are never reached fall into runs, and a range is cut where it meets one.  Every step
outside of all runs stays in exactly one part of a range around it, every step in a run is in none.

* `DeadRun.Partition` — maximal runs of dead steps, in order;
* `DeadRun.partition_all` — **the runs that are found are such runs**;
* `DeadRun.countP_cutAll` — **how often a step is in the parts of a range**;
* `DeadRun.ends_cutAll` — a part ends where the range ends or where a run does;
* `DeadRun.clear_of_mem_cutAll`, `DeadRun.cutAll_of_clear` — no part is cut again.
-/

namespace ClassInstrument.DeadRun

/-- A step is in a run. -/
def Holds (run : DeadRun) (i : Nat) : Prop := run.start ≤ i ∧ i < run.finish

instance (run : DeadRun) (i : Nat) : Decidable (run.Holds i) := inferInstanceAs (Decidable (_ ∧ _))

/-- Maximal runs of dead steps, in order. -/
structure Partition (dead : Nat → Prop) (runs : List DeadRun) : Prop where
  proper : ∀ run ∈ runs, run.start < run.finish
  apart : runs.Pairwise fun run later => run.finish < later.start
  dead_iff : ∀ i, dead i ↔ ∃ run ∈ runs, run.Holds i

namespace Partition

variable {dead : Nat → Prop} {runs : List DeadRun} (partition : Partition dead runs)

include partition

/-- Of two runs one is in front of the other. -/
theorem eq_or_apart {run other : DeadRun} (member : run ∈ runs) (member' : other ∈ runs) :
    run = other ∨ run.finish < other.start ∨ other.finish < run.start := by
  by_cases same : run = other
  · exact .inl same
  · have symm : Std.Symm fun run other : DeadRun =>
        run.finish < other.start ∨ other.finish < run.start := ⟨fun _ _ h => h.symm⟩
    exact .inr (List.Pairwise.forall (R := fun run other : DeadRun =>
      run.finish < other.start ∨ other.finish < run.start)
      (partition.apart.imp fun h => Or.inl h) member member' same)

/-- Behind a run a step is reached. -/
theorem alive_finish {run : DeadRun} (member : run ∈ runs) : ¬dead run.finish := by
  intro death
  obtain ⟨other, member', inside⟩ := (partition.dead_iff _).1 death
  have := partition.proper run member
  rcases partition.eq_or_apart member member' with rfl | apart | apart
  · exact Nat.lt_irrefl _ inside.2
  · exact Nat.lt_irrefl _ (Nat.lt_of_lt_of_le apart inside.1)
  · have := inside.2
    omega

/-- In front of a run a step is reached. -/
theorem alive_before {run : DeadRun} (member : run ∈ runs) (later : 0 < run.start) :
    ¬dead (run.start - 1) := by
  intro death
  obtain ⟨other, member', inside⟩ := (partition.dead_iff _).1 death
  have := partition.proper run member
  have lower := inside.1
  have upper := inside.2
  rcases partition.eq_or_apart member member' with rfl | apart | apart <;> omega

end Partition

/-! ### Finding the runs -/

/-- The last run takes in the step that it ends at. -/
theorem Partition.grow {dead : Nat → Prop} {runs : List DeadRun} {run : DeadRun}
    (partition : Partition dead (runs ++ [run])) :
    Partition (fun i => dead i ∨ i = run.finish) (runs ++ [⟨run.start, run.finish + 1⟩]) := by
  obtain ⟨proper, apart, dead_iff⟩ := partition
  obtain ⟨others, -, front⟩ := List.pairwise_append.1 apart
  have less := proper run (List.mem_append_right _ List.mem_cons_self)
  refine ⟨?_, List.pairwise_append.2 ⟨others, List.pairwise_singleton _ _, ?_⟩, fun i => ?_⟩
  · intro other member
    rcases List.mem_append.1 member with old | new
    · exact proper other (List.mem_append_left _ old)
    · rw [List.mem_singleton.1 new]
      exact Nat.lt_succ_of_lt less
  · intro other member last single
    rw [List.mem_singleton.1 single]
    exact front other member run List.mem_cons_self
  · have last : (run.Holds i ∨ i = run.finish) ↔ run.start ≤ i ∧ i < run.finish + 1 := by
      unfold Holds
      omega
    simp only [dead_iff, List.mem_append, List.mem_singleton, or_and_right, exists_or,
      exists_eq_left, or_assoc, last]
    rfl

/-- A step apart from all runs is a run of its own. -/
theorem Partition.concat {dead : Nat → Prop} {runs : List DeadRun} {position : Nat}
    (partition : Partition dead runs) (before : ∀ run ∈ runs, run.finish < position) :
    Partition (fun i => dead i ∨ i = position) (runs ++ [⟨position, position + 1⟩]) := by
  refine ⟨?_, List.pairwise_append.2 ⟨partition.apart, List.pairwise_singleton _ _, ?_⟩,
    fun i => ?_⟩
  · intro run member
    rcases List.mem_append.1 member with old | new
    · exact partition.proper run old
    · rw [List.mem_singleton.1 new]
      exact Nat.lt_succ_self position
  · intro run member last single
    rw [List.mem_singleton.1 single]
    exact before run member
  · simp only [partition.dead_iff, List.mem_append, List.mem_singleton, or_and_right, exists_or,
      exists_eq_left, Holds]
    exact or_congr Iff.rfl (by omega)

/-- One more dead step behind the others. -/
theorem Partition.extend {seen : List Nat} {runs : List DeadRun} {position : Nat}
    (partition : Partition (· ∈ seen) runs.reverse) (later : ∀ i ∈ seen, i < position) :
    Partition (· ∈ seen ++ [position]) (DeadRun.extend runs position).reverse := by
  have before : ∀ run ∈ runs, run.finish ≤ position := by
    intro run member
    have positive := partition.proper run (List.mem_reverse.2 member)
    have last := later (run.finish - 1)
      ((partition.dead_iff _).2 ⟨run, List.mem_reverse.2 member, by constructor <;> omega⟩)
    omega
  simp only [List.mem_append, List.mem_singleton]
  cases runs with
  | nil => exact partition.concat fun run member => absurd member List.not_mem_nil
  | cons run rest =>
    rw [List.reverse_cons] at partition
    unfold DeadRun.extend
    dsimp only
    split
    · next meets =>
      subst meets
      rw [List.reverse_cons]
      exact partition.grow
    · next apart =>
      rw [List.reverse_cons, List.reverse_cons]
      refine partition.concat fun other member => ?_
      have le := before run List.mem_cons_self
      rcases List.mem_append.1 member with old | last
      · have front := (List.pairwise_append.1 partition.apart).2.2 other old run List.mem_cons_self
        have less := partition.proper run (List.mem_append_right _ List.mem_cons_self)
        omega
      · obtain rfl := List.mem_singleton.1 last
        omega

/-- Dead steps in order give their runs. -/
theorem partition_foldl {positions : List Nat} (ascend : positions.Pairwise (· < ·)) :
    Partition (· ∈ positions) (positions.foldl DeadRun.extend []).reverse := by
  suffices general : ∀ (positions seen : List Nat) (runs : List DeadRun),
      (seen ++ positions).Pairwise (· < ·) → Partition (· ∈ seen) runs.reverse →
      Partition (· ∈ seen ++ positions) (positions.foldl DeadRun.extend runs).reverse from
    general positions [] [] ascend ⟨fun _ h => (nomatch h), .nil, fun i => by simp⟩
  intro positions
  induction positions with
  | nil =>
    intro seen runs _ partition
    rw [List.append_nil]
    exact partition
  | cons position positions ih =>
    intro seen runs ascend partition
    rw [show seen ++ position :: positions = (seen ++ [position]) ++ positions by simp] at ascend ⊢
    refine ih (seen ++ [position]) (DeadRun.extend runs position) ascend (partition.extend ?_)
    have front := (List.pairwise_append.1 (List.pairwise_append.1 ascend).1).2.2
    exact fun i member => front i member position List.mem_cons_self

/-- The numbers of the elements with some property ascend. -/
theorem ascend_filter_zipIdx {α : Type} (l : List α) (keep : α × Nat → Bool) :
    ((l.zipIdx.filter keep).map (·.2)).Pairwise (· < ·) := by
  have all : (l.zipIdx.map (·.2)).Pairwise (· < ·) := by
    rw [List.zipIdx_map_snd]
    exact List.pairwise_lt_range'
  exact all.sublist (List.filter_sublist.map _)

/-- **The runs that are found** are the maximal runs of steps without a state. -/
theorem partition_all (states : Array (Option State)) :
    Partition (fun i => states[i]? = some none) (all states) := by
  have found := partition_foldl (ascend_filter_zipIdx states.toList fun entry => entry.1.isNone)
  refine ⟨found.proper, found.apart, fun i => Iff.trans ?_ (found.dead_iff i)⟩
  rw [List.mem_map]
  constructor
  · intro dead
    refine ⟨(none, i), List.mem_filter.2 ⟨?_, rfl⟩, rfl⟩
    rw [List.mem_zipIdx_iff_getElem?, Array.getElem?_toList]
    exact dead
  · rintro ⟨⟨state, j⟩, member, rfl⟩
    obtain ⟨there, isNone⟩ := List.mem_filter.1 member
    rw [List.mem_zipIdx_iff_getElem?, Array.getElem?_toList] at there
    obtain rfl := Option.isNone_iff_eq_none.1 isNone
    exact there

/-! ### Cutting a range -/

/-- Whether a step is in a range. -/
def within (i : Nat) (range : Nat × Nat) : Bool := range.1 ≤ i && i < range.2

/-- A step outside of a run stays in one of the parts. -/
theorem countP_cut {run : DeadRun} (proper : run.start < run.finish) (i : Nat)
    (range : Nat × Nat) :
    (run.cut range).countP (within i) = if within i range ∧ ¬run.Holds i then 1 else 0 := by
  obtain ⟨start, finish⟩ := range
  show ([(start, min run.start finish), (max run.finish start, finish)].filter
    fun part => decide (part.1 < part.2)).countP (within i) = _
  rw [List.countP_filter]
  simp only [List.countP_cons, List.countP_nil, within, Bool.and_eq_true, decide_eq_true_eq, Holds]
  split <;> split <;> split <;> omega

theorem countP_flatMap_cut {run : DeadRun} (proper : run.start < run.finish) (i : Nat)
    (parts : List (Nat × Nat)) :
    (parts.flatMap run.cut).countP (within i)
      = if run.Holds i then 0 else parts.countP (within i) := by
  induction parts with
  | nil => simp
  | cons part parts ih =>
    rw [List.flatMap_cons, List.countP_append, ih, countP_cut proper, List.countP_cons]
    by_cases inside : run.Holds i
    · simp [inside]
    · simp only [inside, not_false_eq_true, and_true, if_false]
      omega

/-- **How often a step is in the parts of a range**: once if it is in the range and in no run,
otherwise never. -/
theorem countP_cutAll {runs : List DeadRun} (proper : ∀ run ∈ runs, run.start < run.finish)
    (i : Nat) (range : Nat × Nat) :
    (cutAll runs range).countP (within i)
      = if within i range ∧ ∀ run ∈ runs, ¬run.Holds i then 1 else 0 := by
  have general : ∀ (runs : List DeadRun) (parts : List (Nat × Nat)),
      (∀ run ∈ runs, run.start < run.finish) →
      (runs.foldl (fun parts run => parts.flatMap run.cut) parts).countP (within i)
        = if ∀ run ∈ runs, ¬run.Holds i then parts.countP (within i) else 0 := by
    intro runs
    induction runs with
    | nil => intro parts _; simp
    | cons run runs ih =>
      intro parts proper
      rw [List.foldl_cons, ih _ fun other member => proper other (List.mem_cons_of_mem _ member),
        countP_flatMap_cut (proper run List.mem_cons_self)]
      simp only [List.forall_mem_cons]
      by_cases inside : run.Holds i <;> simp [inside]
  rw [cutAll, general runs [range] proper, List.countP_singleton]
  by_cases inside : within i range = true <;> simp [inside]

theorem ends_cut {run : DeadRun} {range part : Nat × Nat} (member : part ∈ run.cut range) :
    (part.1 = range.1 ∨ part.1 = run.finish) ∧ (part.2 = range.2 ∨ part.2 = run.start) := by
  obtain ⟨start, finish⟩ := range
  rcases List.mem_cons.1 (List.mem_filter.1 member).1 with rfl | behind
  · exact ⟨.inl rfl, (Nat.le_total run.start finish).symm.imp Nat.min_eq_right Nat.min_eq_left⟩
  · rw [List.mem_singleton.1 behind]
    exact ⟨(Nat.le_total run.finish start).imp Nat.max_eq_right Nat.max_eq_left, .inl rfl⟩

/-- A part ends where the range ends or where a run does. -/
theorem ends_cutAll {runs : List DeadRun} {range part : Nat × Nat}
    (member : part ∈ cutAll runs range) :
    (part.1 = range.1 ∨ ∃ run ∈ runs, part.1 = run.finish)
      ∧ (part.2 = range.2 ∨ ∃ run ∈ runs, part.2 = run.start) := by
  have general : ∀ (runs : List DeadRun) (parts : List (Nat × Nat)),
      ∀ part ∈ runs.foldl (fun parts run => parts.flatMap run.cut) parts, ∃ whole ∈ parts,
        (part.1 = whole.1 ∨ ∃ run ∈ runs, part.1 = run.finish)
          ∧ (part.2 = whole.2 ∨ ∃ run ∈ runs, part.2 = run.start) := by
    intro runs
    induction runs with
    | nil => exact fun parts part member => ⟨part, member, .inl rfl, .inl rfl⟩
    | cons run runs ih =>
      intro parts part member
      obtain ⟨smaller, inside, first, last⟩ := ih _ part member
      obtain ⟨whole, there, piece⟩ := List.mem_flatMap.1 inside
      obtain ⟨first', last'⟩ := ends_cut piece
      refine ⟨whole, there, ?_, ?_⟩
      · rcases first with same | ⟨other, member', same⟩
        · rw [same]
          exact first'.imp_right fun same => ⟨run, List.mem_cons_self, same⟩
        · exact .inr ⟨other, List.mem_cons_of_mem _ member', same⟩
      · rcases last with same | ⟨other, member', same⟩
        · rw [same]
          exact last'.imp_right fun same => ⟨run, List.mem_cons_self, same⟩
        · exact .inr ⟨other, List.mem_cons_of_mem _ member', same⟩
  obtain ⟨whole, single, ends⟩ := general runs [range] part member
  rwa [List.mem_singleton.1 single] at ends

/-! ### Cutting a range again -/

/-- A range that is in front of a run or behind it. -/
def Avoids (run : DeadRun) (range : Nat × Nat) : Prop :=
  range.2 ≤ run.start ∨ run.finish ≤ range.1

/-- A range that no run cuts.  An empty range is lost where there are runs at all. -/
structure Clear (runs : List DeadRun) (range : Nat × Nat) : Prop where
  proper : runs ≠ [] → range.1 < range.2
  avoids : ∀ run ∈ runs, run.Avoids range

/-- A part of a range is in the range, avoids the run and is not empty. -/
theorem inside_of_mem_cut {run : DeadRun} {range part : Nat × Nat} (member : part ∈ run.cut range) :
    range.1 ≤ part.1 ∧ part.2 ≤ range.2 ∧ part.1 < part.2 ∧ run.Avoids part := by
  obtain ⟨start, finish⟩ := range
  obtain ⟨inside, proper⟩ := List.mem_filter.1 member
  have less : part.1 < part.2 := of_decide_eq_true proper
  rcases List.mem_cons.1 inside with rfl | behind
  · exact ⟨Nat.le_refl _, Nat.min_le_right _ _, less, .inl (Nat.min_le_left _ _)⟩
  · rw [List.mem_singleton.1 behind] at less ⊢
    exact ⟨Nat.le_max_right _ _, Nat.le_refl _, less, .inr (Nat.le_max_left _ _)⟩

theorem Avoids.mono {run : DeadRun} {range part : Nat × Nat} (avoids : run.Avoids range)
    (first : range.1 ≤ part.1) (last : part.2 ≤ range.2) : run.Avoids part :=
  avoids.imp (Nat.le_trans last) fun behind => Nat.le_trans behind first

/-- **The parts of a range are clear of all runs.** -/
theorem clear_of_mem_cutAll {runs : List DeadRun} {range part : Nat × Nat}
    (member : part ∈ cutAll runs range) : Clear runs part := by
  have general : ∀ (runs : List DeadRun) (parts : List (Nat × Nat)),
      ∀ part ∈ runs.foldl (fun parts run => parts.flatMap run.cut) parts, ∃ whole ∈ parts,
        whole.1 ≤ part.1 ∧ part.2 ≤ whole.2 ∧ (whole.1 < whole.2 → part.1 < part.2)
          ∧ Clear runs part := by
    intro runs
    induction runs with
    | nil =>
      exact fun parts part member => ⟨part, member, Nat.le_refl _, Nat.le_refl _, id,
        fun some => absurd rfl some, fun _ h => (nomatch h)⟩
    | cons run runs ih =>
      intro parts part member
      obtain ⟨smaller, inside, first, last, proper, clear⟩ := ih _ part member
      obtain ⟨whole, there, piece⟩ := List.mem_flatMap.1 inside
      obtain ⟨first', last', proper', avoids⟩ := inside_of_mem_cut piece
      refine ⟨whole, there, Nat.le_trans first' first, Nat.le_trans last last',
        fun _ => proper proper', fun _ => proper proper', ?_⟩
      exact List.forall_mem_cons.2 ⟨avoids.mono first last, clear.avoids⟩
  obtain ⟨-, -, -, -, -, clear⟩ := general runs [range] part member
  exact clear

/-- A range that is not empty and avoids a run is not cut by it. -/
theorem cut_of_avoids {run : DeadRun} (proper : run.start < run.finish) {range : Nat × Nat}
    (less : range.1 < range.2) (avoids : run.Avoids range) : run.cut range = [range] := by
  obtain ⟨start, finish⟩ := range
  show [(start, min run.start finish), (max run.finish start, finish)].filter
    (fun part => decide (part.1 < part.2)) = _
  dsimp only [Avoids] at less avoids
  simp only [List.filter_cons, List.filter_nil, decide_eq_true_eq]
  rcases avoids with before | behind
  · rw [Nat.min_eq_right before, if_pos less, if_neg (by omega)]
  · rw [Nat.max_eq_right behind, if_neg (by omega), if_pos less]

/-- **A clear range is not cut.** -/
theorem cutAll_of_clear {runs : List DeadRun} (proper : ∀ run ∈ runs, run.start < run.finish)
    {range : Nat × Nat} (clear : Clear runs range) : cutAll runs range = [range] := by
  have general : ∀ runs : List DeadRun, (∀ run ∈ runs, run.start < run.finish) →
      (∀ run ∈ runs, run.Avoids range) → range.1 < range.2 →
      runs.foldl (fun parts run => parts.flatMap run.cut) [range] = [range] := by
    intro runs proper avoids less
    induction runs with
    | nil => rfl
    | cons run runs ih =>
      rw [List.foldl_cons, List.flatMap_singleton,
        cut_of_avoids (proper run List.mem_cons_self) less (avoids run List.mem_cons_self)]
      exact ih (fun other member => proper other (List.mem_cons_of_mem _ member))
        fun other member => avoids other (List.mem_cons_of_mem _ member)
  by_cases none : runs = []
  · rw [none]
    rfl
  · exact general runs proper clear.avoids (clear.proper none)

/-- Which steps are dead does not depend on what the states are. -/
theorem all_map (f : State → State) (states : Array (Option State)) :
    all (states.map (Option.map f)) = all states := by
  unfold all
  rw [Array.toList_map, List.zipIdx_map, List.filter_map, List.map_map]
  have same : (fun entry : Option State × Nat => entry.1.isNone) ∘ Prod.map (Option.map f) id
      = fun entry => entry.1.isNone := by
    funext entry
    exact Option.isNone_map
  rw [same]
  rfl

end ClassInstrument.DeadRun
