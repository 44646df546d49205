import Mathlib.Data.List.GetD
import Mathlib.Data.List.Nodup
import ClassInstrument.Proofs.Code.View

/-!
# Marks put in place

What is said about a body that is put together from instructions with their offsets: every offset
that was mentioned has one label, which stands in front of the instruction with that offset, and
the lines and the frame of an offset stand there too.

* `Numbering.Distinct` — no two offsets share a label;
* `Marks.body` — instructions with marks in front of them;
* `Marks.positionOf?_body` — **the label of an offset is in front of its instruction**;
* `Marks.labelsOf_body`, `Marks.framesBefore_body`, `Marks.linesAt_body` — labels, frames and
  lines of such a body.
-/

namespace ClassInstrument

/-! ### Numbers of offsets -/

/-- No two offsets have the same number. -/
structure Numbering.Distinct (N : Numbering) : Prop where
  below : ∀ o n : Nat, N[o]? = some n → n < N.size
  injective : ∀ o p n : Nat, N[o]? = some n → N[p]? = some n → o = p

theorem Numbering.distinct_mention {N : Numbering} (h : N.Distinct) (offset : Nat) :
    (N.mention offset).Distinct := by
  unfold mention
  by_cases known : offset ∈ N
  · have same : ∀ o : Nat, (N.insertIfNew offset N.size)[o]? = N[o]? := by
      intro o
      rw [Std.HashMap.getElem?_insertIfNew, if_neg (by simp [known])]
    refine ⟨fun o n ho => ?_, fun o p n ho hp => ?_⟩
    · rw [same] at ho
      rw [Std.HashMap.size_insertIfNew, if_pos known]
      exact h.below o n ho
    · rw [same] at ho hp
      exact h.injective o p n ho hp
  · have lookup : ∀ o : Nat, (N.insertIfNew offset N.size)[o]?
        = if offset = o then some N.size else N[o]? := by
      intro o
      simp [Std.HashMap.getElem?_insertIfNew, known]
    refine ⟨fun o n ho => ?_, fun o p n ho hp => ?_⟩
    · rw [lookup] at ho
      rw [Std.HashMap.size_insertIfNew, if_neg known]
      split at ho
      · cases ho
        exact Nat.lt_succ_self _
      · have := h.below o n ho
        omega
    · rw [lookup] at ho hp
      split at ho <;> split at hp
      · next first second => exact first.symm.trans second
      · cases ho
        exact absurd (h.below p _ hp) (Nat.lt_irrefl _)
      · cases hp
        exact absurd (h.below o _ ho) (Nat.lt_irrefl _)
      · exact h.injective o p n ho hp

theorem Numbering.foldl_mention {N : Numbering} (h : N.Distinct) (offsets : List Nat) :
    (offsets.foldl mention N).Distinct
      ∧ ∀ o, o ∈ offsets.foldl mention N ↔ o ∈ offsets ∨ o ∈ N := by
  induction offsets generalizing N with
  | nil => exact ⟨h, fun o => by simp⟩
  | cons offset offsets ih =>
    obtain ⟨distinct, members⟩ := ih (distinct_mention h offset)
    refine ⟨distinct, fun o => ?_⟩
    have here : o ∈ N.mention offset ↔ offset = o ∨ o ∈ N := by
      unfold mention
      rw [Std.HashMap.mem_insertIfNew, beq_iff_eq]
    rw [List.foldl_cons, members, here, List.mem_cons]
    constructor
    · rintro (inside | rfl | known)
      · exact .inl (.inr inside)
      · exact .inl (.inl rfl)
      · exact .inr known
    · rintro ((rfl | inside) | known)
      · exact .inr (.inl rfl)
      · exact .inl inside
      · exact .inr (.inr known)

theorem Numbering.distinct_ofMentions (offsets : List Nat) : (ofMentions offsets).Distinct :=
  (foldl_mention ⟨fun o n h => by simp at h, fun o p n h => by simp at h⟩ offsets).1

/-- The offsets that were mentioned have a number, and no others. -/
theorem Numbering.mem_ofMentions {offsets : List Nat} {o : Nat} :
    o ∈ ofMentions offsets ↔ o ∈ offsets := by
  have empty : (∅ : Numbering).Distinct := ⟨fun o n h => by simp at h, fun o p n h => by simp at h⟩
  exact ((foldl_mention empty offsets).2 o).trans (or_iff_left Std.HashMap.not_mem_empty)

theorem Numbering.exists_ofMentions {offsets : List Nat} {o : Nat} (h : o ∈ offsets) :
    ∃ n, (ofMentions offsets)[o]? = some n :=
  ⟨_, Std.HashMap.getElem?_eq_some_getElem (mem_ofMentions.2 h)⟩

theorem Numbering.label_of_getElem? {N : Numbering} {o n : Nat} (h : N[o]? = some n) :
    N.label ⟨o⟩ = ⟨n⟩ := by
  rw [label, Std.HashMap.getD_eq_getD_getElem?, h]
  rfl

/-! ### Runs of marks -/

namespace Marks

open Code

variable (N : Numbering) (lineMap : Std.HashMap Nat (List UInt16))
  (frameMap : Std.HashMap Nat Frame) (finish : Nat)

/-- The instructions with their marks in front of them, and the label at the end. -/
def body (code : List (Nat × Instruction)) : List Instruction :=
  (code.flatMap fun entry =>
    marksAt N lineMap frameMap entry.1 ++ [entry.2.mapLabels N.label])
    ++ (N[finish]?.map fun number => Instruction.label ⟨number⟩).toList

/-- The offsets of the instructions and the end. -/
def places (code : List (Nat × Instruction)) : List Nat := code.map Prod.fst ++ [finish]

theorem body_cons (offset : Nat) (insn : Instruction) (code : List (Nat × Instruction)) :
    body N lineMap frameMap finish ((offset, insn) :: code)
      = marksAt N lineMap frameMap offset
        ++ insn.mapLabels N.label :: body N lineMap frameMap finish code := by
  simp [body]

theorem marksAt_pseudo (offset : Nat) :
    ∀ mark ∈ marksAt N lineMap frameMap offset, mark.isPseudo = true := by
  intro mark member
  unfold marksAt at member
  cases known : N[offset]? with
  | none =>
    rw [known] at member
    cases member
  | some number =>
    simp only [known, List.cons_append, List.mem_cons, List.mem_append, List.mem_map,
      Option.mem_toList, Option.map_eq_some_iff] at member
    rcases member with rfl | ⟨line, -, rfl⟩ | ⟨frame, -, rfl⟩ <;> rfl

theorem labelsOf_marksAt (offset : Nat) :
    Steps.labelsOf (marksAt N lineMap frameMap offset) = (N[offset]?.map Label.mk).toList := by
  unfold marksAt
  cases N[offset]? with
  | none => rfl
  | some number =>
    have lines : ∀ rows : List UInt16,
        (rows.map (Instruction.line · ⟨number⟩)).filterMap Instruction.label? = [] := by
      intro rows
      rw [List.filterMap_eq_nil_iff]
      intro mark member
      obtain ⟨row, -, rfl⟩ := List.mem_map.1 member
      rfl
    unfold Steps.labelsOf
    rw [List.filterMap_append, List.filterMap_cons_some (show Instruction.label? (.label ⟨number⟩)
      = some ⟨number⟩ from rfl), lines]
    cases frameMap[offset]? <;> rfl

/-- **One label for every offset that was mentioned.** -/
theorem labelsOf_body {code : List (Nat × Instruction)}
    (executable : ∀ entry ∈ code, entry.2.isPseudo = false) :
    Steps.labelsOf (body N lineMap frameMap finish code)
      = (places finish code).filterMap fun o => N[o]?.map Label.mk := by
  induction code with
  | nil =>
    unfold body places
    cases h : N[finish]? <;> simp [Steps.labelsOf, Instruction.label?, h]
  | cons entry code ih =>
    obtain ⟨offset, insn⟩ := entry
    have behind := ih fun e he => executable e (List.mem_cons_of_mem _ he)
    have here := labelsOf_marksAt N lineMap frameMap offset
    have first := executable _ List.mem_cons_self
    cases insn with
    | op op operand =>
      unfold Steps.labelsOf at here behind ⊢
      rw [body_cons, List.filterMap_append, here]
      show _ ++ (body N lineMap frameMap finish code).filterMap Instruction.label?
        = (offset :: places finish code).filterMap _
      rw [behind, List.filterMap_cons]
      cases N[offset]? <;> rfl
    | _ => cases first

theorem ops_body {code : List (Nat × Instruction)}
    (executable : ∀ entry ∈ code, entry.2.isPseudo = false) :
    ops (body N lineMap frameMap finish code)
      = code.map fun entry => entry.2.mapLabels N.label := by
  have marks : ∀ offset,
      (marksAt N lineMap frameMap offset).filter (fun i => !i.isPseudo) = [] := by
    intro offset
    rw [List.filter_eq_nil_iff]
    intro mark member
    simp [marksAt_pseudo N lineMap frameMap offset mark member]
  induction code with
  | nil =>
    unfold body ops
    cases N[finish]? <;> rfl
  | cons entry code ih =>
    obtain ⟨offset, insn⟩ := entry
    have behind := ih fun e he => executable e (List.mem_cons_of_mem _ he)
    have first := executable _ List.mem_cons_self
    cases insn with
    | op op operand =>
      unfold ops at behind ⊢
      rw [body_cons, List.filter_append, marks, List.map_cons, ← behind]
      rfl
    | _ => cases first

/-- A label that no place has is not placed. -/
theorem positionOf?_body_eq_none {code : List (Nat × Instruction)}
    (executable : ∀ entry ∈ code, entry.2.isPseudo = false) {n : Nat}
    (absent : ∀ o ∈ places finish code, N[o]? ≠ some n) :
    Steps.positionOf? ⟨n⟩ (body N lineMap frameMap finish code) = none := by
  rw [← Option.not_isSome_iff_eq_none, Steps.isSome_positionOf?,
    labelsOf_body N lineMap frameMap finish executable]
  intro member
  obtain ⟨o, inside, same⟩ := List.mem_filterMap.1 member
  obtain ⟨m, known, equal⟩ := Option.map_eq_some_iff.1 same
  cases equal
  exact absent o inside known

/-- **The label of an offset is in front of its instruction**, or at the end. -/
theorem positionOf?_body (distinct : N.Distinct) {code : List (Nat × Instruction)}
    (executable : ∀ entry ∈ code, entry.2.isPseudo = false) (apart : (places finish code).Nodup)
    {o n k : Nat} (known : N[o]? = some n) (there : (places finish code)[k]? = some o) :
    Steps.positionOf? ⟨n⟩ (body N lineMap frameMap finish code) = some k := by
  induction code generalizing k with
  | nil =>
    obtain ⟨rfl, rfl⟩ : k = 0 ∧ finish = o := by
      cases k with
      | zero => exact ⟨rfl, Option.some.inj there⟩
      | succ k => simp [places] at there
    unfold body
    rw [known]
    simp [Steps.positionOf?]
  | cons entry code ih =>
    obtain ⟨offset, insn⟩ := entry
    have others := fun e he => executable e (List.mem_cons_of_mem _ he)
    have first := executable _ List.mem_cons_self
    obtain ⟨new, others'⟩ :=
      List.nodup_cons.1 (show (offset :: places finish code).Nodup from apart)
    rw [body_cons, Steps.positionOf?_append (marksAt_pseudo N lineMap frameMap offset),
      labelsOf_marksAt]
    cases insn with
    | op op operand =>
      show ((Steps.positionOf? ⟨n⟩ (body N lineMap frameMap finish code)).map (· + 1)).or _ = _
      cases k with
      | zero =>
        obtain rfl : offset = o := Option.some.inj there
        have absent : ∀ p ∈ places finish code, N[p]? ≠ some n := fun p member hp =>
          new (distinct.injective p offset n hp known ▸ member)
        rw [positionOf?_body_eq_none N lineMap frameMap finish others absent, known]
        simp
      | succ k =>
        rw [ih others others' there]
        rfl
    | _ => cases first

/-- The label of a place is placed once. -/
theorem count_body (distinct : N.Distinct) {code : List (Nat × Instruction)}
    (executable : ∀ entry ∈ code, entry.2.isPseudo = false) (apart : (places finish code).Nodup)
    {o n : Nat} (known : N[o]? = some n) (there : o ∈ places finish code) :
    (Steps.labelsOf (body N lineMap frameMap finish code)).count ⟨n⟩ = 1 := by
  rw [labelsOf_body _ _ _ _ executable]
  refine List.count_eq_one_of_mem (apart.filterMap ?_) ?_
  · intro o p l ho hp
    obtain ⟨m, hm, rfl⟩ := Option.map_eq_some_iff.1 ho
    obtain ⟨q, hq, same⟩ := Option.map_eq_some_iff.1 hp
    cases same
    exact distinct.injective o p _ hm hq
  · exact List.mem_filterMap.2 ⟨o, there, by rw [known]; rfl⟩

/-! ### Frames and lines -/

theorem framesBefore_lines (last : Option Frame) (rows : List UInt16) (start : Label)
    (rest : List Instruction) :
    framesBefore last (rows.map (Instruction.line · start) ++ rest) = framesBefore last rest := by
  induction rows with
  | nil => rfl
  | cons row rows ih => exact ih

/-- The frames in front of instructions are those of their offsets, if these were mentioned. -/
theorem framesBefore_body {code : List (Nat × Instruction)}
    (executable : ∀ entry ∈ code, entry.2.isPseudo = false) :
    framesBefore none (body N lineMap frameMap finish code) = code.map fun entry =>
      N[entry.1]?.bind fun _ => frameMap[entry.1]?.map (·.mapLabels N.label) := by
  induction code with
  | nil =>
    unfold body
    cases N[finish]? <;> rfl
  | cons entry code ih =>
    obtain ⟨offset, insn⟩ := entry
    have behind := ih fun e he => executable e (List.mem_cons_of_mem _ he)
    have first := executable _ List.mem_cons_self
    cases insn with
    | op op operand =>
      rw [body_cons, List.map_cons, ← behind]
      unfold marksAt
      cases N[offset]? with
      | none => rfl
      | some number =>
        show framesBefore none ((.label ⟨number⟩ :: List.map _ _ ++ _) ++ _) = _
        rw [List.append_assoc, List.cons_append]
        show framesBefore none (List.map _ _ ++ _) = _
        rw [framesBefore_lines]
        cases frameMap[offset]? <;> rfl
    | _ => cases first

/-- The lines of an offset that was mentioned, each with its label. -/
def rowsAt (offset : Nat) : List (UInt16 × Label) :=
  match N[offset]? with
  | none => []
  | some n => (lineMap.getD offset []).map fun row => (row, ⟨n⟩)

/-- The lines of a body are those of the offsets that were mentioned. -/
theorem lines_body {code : List (Nat × Instruction)}
    (executable : ∀ entry ∈ code, entry.2.isPseudo = false) :
    Code.lines (body N lineMap frameMap finish code)
      = code.flatMap fun entry => rowsAt N lineMap entry.1 := by
  induction code with
  | nil =>
    unfold body
    cases N[finish]? <;> rfl
  | cons entry code ih =>
    obtain ⟨offset, insn⟩ := entry
    have behind := ih fun e he => executable e (List.mem_cons_of_mem _ he)
    have first := executable _ List.mem_cons_self
    cases insn with
    | op op operand =>
      rw [body_cons, List.flatMap_cons, ← behind]
      unfold Code.lines marksAt rowsAt
      rw [List.filterMap_append]
      congr 1
      cases N[offset]? with
      | none => rfl
      | some number =>
        rw [List.filterMap_append, List.filterMap_cons_none rfl, List.filterMap_map]
        cases frameMap[offset]? <;> simp
    | _ => cases first

/-- What one offset of several contributes alone. -/
theorem flatMap_of_nodup {offsets : List Nat} (apart : offsets.Nodup) {o : Nat}
    (member : o ∈ offsets) (rows : List UInt16) :
    (offsets.flatMap fun p => if p = o then rows else []) = rows := by
  induction offsets with
  | nil => cases member
  | cons p offsets ih =>
    obtain ⟨new, apart⟩ := List.nodup_cons.1 apart
    rw [List.flatMap_cons]
    by_cases same : p = o
    · have others : (offsets.flatMap fun p => if p = o then rows else []) = [] := by
        rw [List.flatMap_eq_nil_iff]
        intro q inside
        rw [if_neg]
        rintro rfl
        exact new (same ▸ inside)
      rw [if_pos same, others, List.append_nil]
    · have inside : o ∈ offsets := (List.mem_cons.1 member).resolve_left (Ne.symm same)
      rw [if_neg same, List.nil_append, ih apart inside]

/-- The label of an offset stands at the instruction with that offset. -/
theorem positionOf?_body_eq_iff (distinct : N.Distinct) {code : List (Nat × Instruction)}
    (executable : ∀ entry ∈ code, entry.2.isPseudo = false) (apart : (places finish code).Nodup)
    {o p k n : Nat} (there : (code.map Prod.fst)[k]? = some o) (listed : p ∈ code.map Prod.fst)
    (known : N[p]? = some n) :
    Steps.positionOf? ⟨n⟩ (body N lineMap frameMap finish code) = some k ↔ p = o := by
  have starts : (code.map Prod.fst).Nodup := (List.nodup_append.1 apart).1
  obtain ⟨j, hj⟩ := List.mem_iff_getElem?.1 listed
  have inside := (List.getElem?_eq_some_iff.1 hj).1
  have place : (places finish code)[j]? = some p := by
    unfold places
    rw [List.getElem?_append_left inside, hj]
  rw [positionOf?_body N lineMap frameMap finish distinct executable apart known place,
    Option.some_inj, ← List.getElem?_inj inside starts, hj, there, Option.some_inj]

/-- Of the lines of an offset all are at the instruction with that offset. -/
theorem filterMap_rowsAt (distinct : N.Distinct) {code : List (Nat × Instruction)}
    (executable : ∀ entry ∈ code, entry.2.isPseudo = false) (apart : (places finish code).Nodup)
    {o p k : Nat} (there : (code.map Prod.fst)[k]? = some o) (listed : p ∈ code.map Prod.fst)
    (mentioned : lineMap.getD o [] ≠ [] → ∃ n, N[o]? = some n) :
    (rowsAt N lineMap p).filterMap (fun (row : UInt16 × Label) =>
        if Steps.positionOf? row.2 (body N lineMap frameMap finish code) = some k then some row.1
        else none)
      = if p = o then lineMap.getD o [] else [] := by
  unfold rowsAt
  by_cases same : p = o
  · subst same
    rw [if_pos rfl]
    cases known : N[p]? with
    | none =>
      by_contra some
      obtain ⟨n, hn⟩ := mentioned (Ne.symm some)
      rw [hn] at known
      cases known
    | some n =>
      have place := positionOf?_body_eq_iff N lineMap frameMap finish distinct executable apart
        there listed known
      dsimp only
      rw [List.filterMap_map]
      simp [place.2 rfl]
  · rw [if_neg same]
    cases known : N[p]? with
    | none => rfl
    | some n =>
      have place := positionOf?_body_eq_iff N lineMap frameMap finish distinct executable apart
        there listed known
      dsimp only
      rw [List.filterMap_map]
      simp [mt place.1 same]

/-- **The lines at an instruction** are those of its offset, if it was mentioned. -/
theorem linesAt_body (distinct : N.Distinct) {code : List (Nat × Instruction)}
    (executable : ∀ entry ∈ code, entry.2.isPseudo = false) (apart : (places finish code).Nodup)
    {o k : Nat} (there : (code.map Prod.fst)[k]? = some o)
    (mentioned : lineMap.getD o [] ≠ [] → ∃ n, N[o]? = some n) :
    linesAt (body N lineMap frameMap finish code) k = lineMap.getD o [] := by
  have single := flatMap_of_nodup (List.nodup_append.1 apart).1 (List.mem_of_getElem? there)
    (lineMap.getD o [])
  rw [List.flatMap_map] at single
  unfold linesAt
  rw [lines_body N lineMap frameMap finish executable, List.filterMap_flatMap,
    List.flatMap_congr fun entry member => filterMap_rowsAt N lineMap frameMap finish distinct
      executable apart there (List.mem_map_of_mem member) mentioned]
  exact single

end Marks

end ClassInstrument
