import Mathlib.Data.List.GetD
import ClassInstrument.Proofs.Code.Stream
import ClassInstrument.Proofs.Code.View

/-!
# Numbers and offsets of instructions

In a layout the number of an instruction and its offset say the same: offsets ascend with the
numbers, the offset of a label is that of the instruction it stands in front of, and so is the
offset of a frame.

* `Layout.starts`, `Layout.boundary` — the offsets of the instructions and of the end;
* `Layout.getElem?_labels` — **the offset of a label is that of its position**;
* `Layout.framesOf_eq` — the frames of a layout, by the offset of the instruction behind them.
-/

namespace ClassInstrument.Layout

open Code

/-- The elements of a body that are placed. -/
def insns (placed : List Placed) : List Instruction := placed.map fun p => p.2.insn

/-- The offsets of the executable instructions. -/
def starts (placed : List Placed) : List Nat :=
  placed.filterMap fun p => if p.2.insn.isPseudo then none else some p.1

/-- The offset of the instruction with a number; the end of the code has the number of all
instructions. -/
def boundary (placed : List Placed) (finish k : Nat) : Nat := (starts placed).getD k finish

variable {offset finish : Nat} {placed : List Placed}

theorem boundary_of_start {k o : Nat} (h : (starts placed)[k]? = some o) (finish : Nat) :
    boundary placed finish k = o := by
  unfold boundary
  rw [List.getD_eq_getElem?_getD, h]
  rfl

theorem length_starts (placed : List Placed) :
    (starts placed).length = (ops (insns placed)).length := by
  induction placed with
  | nil => rfl
  | cons p placed ih =>
    obtain ⟨offset, insn, index, far⟩ := p
    cases insn with
    | op op operand =>
      show (offset :: starts placed).length = (.op op operand :: ops (insns placed)).length
      rw [List.length_cons, List.length_cons, ih]
    | _ => exact ih

/-- An executable instruction takes a byte at least. -/
theorem opSize_pos (offset : Nat) (index : UInt16) (far : Bool) (op : Opcode) (operand : Operand) :
    0 < Item.opSize offset index far op operand := by
  unfold Item.opSize
  split <;> try split
  all_goals first | omega | (split <;> omega)

/-- The offsets of instructions lie in the code and ascend. -/
theorem starts_ascend (chained : Chained offset placed finish) :
    (∀ o ∈ starts placed, offset ≤ o ∧ o < finish) ∧ (starts placed).Pairwise (· < ·) := by
  induction chained with
  | nil => exact ⟨fun o h => (nomatch h), .nil⟩
  | @cons offset finish item placed chained ih =>
    obtain ⟨inside, ascend⟩ := ih
    have le := chained.le
    obtain ⟨insn, index, far⟩ := item
    cases insn with
    | op op operand =>
      have pos := opSize_pos offset index far op operand
      simp only [Item.size] at inside le
      have first : starts ((offset, ⟨.op op operand, index, far⟩) :: placed)
          = offset :: starts placed := rfl
      rw [first]
      refine ⟨fun o member => ?_, List.pairwise_cons.2 ⟨fun o member => ?_, ascend⟩⟩
      · rcases List.mem_cons.1 member with rfl | member
        · omega
        · have := inside o member
          omega
      · have := inside o member
        omega
    | _ =>
      refine ⟨fun o member => ?_, ascend⟩
      obtain ⟨above, below⟩ := inside o member
      simp only [Item.size] at above
      exact ⟨by omega, below⟩

/-- What stands first stands at the offset of the first instruction. -/
theorem boundary_zero (chained : Chained offset placed finish) :
    boundary placed finish 0 = offset := by
  induction chained with
  | nil => rfl
  | @cons offset finish item placed chained ih =>
    obtain ⟨insn, index, far⟩ := item
    cases insn with
    | op op operand => rfl
    | _ => exact ih

/-- Offsets ascend with the numbers of instructions. -/
theorem boundary_lt (chained : Chained offset placed finish) {j k : Nat} (less : j < k)
    (last : k ≤ (starts placed).length) : boundary placed finish j < boundary placed finish k := by
  obtain ⟨inside, ascend⟩ := starts_ascend chained
  have hj : j < (starts placed).length := by omega
  unfold boundary
  rw [List.getD_eq_getElem _ _ hj]
  by_cases hk : k < (starts placed).length
  · rw [List.getD_eq_getElem _ _ hk]
    exact List.pairwise_iff_getElem.1 ascend j k hj hk less
  · rw [List.getD_eq_default _ _ (Nat.not_lt.1 hk)]
    exact (inside _ (List.getElem_mem hj)).2

theorem boundary_lt_iff (chained : Chained offset placed finish) {j k : Nat}
    (hj : j ≤ (starts placed).length) (hk : k ≤ (starts placed).length) :
    boundary placed finish j < boundary placed finish k ↔ j < k := by
  refine ⟨fun h => ?_, fun h => boundary_lt chained h hk⟩
  by_contra more
  rcases Nat.lt_or_eq_of_le (Nat.not_lt.1 more) with less | rfl
  · have := boundary_lt chained less hj
    omega
  · exact Nat.lt_irrefl _ h

theorem boundary_inj (chained : Chained offset placed finish) {j k : Nat}
    (hj : j ≤ (starts placed).length) (hk : k ≤ (starts placed).length) :
    boundary placed finish j = boundary placed finish k ↔ j = k := by
  have first := boundary_lt_iff chained hj hk
  have second := boundary_lt_iff chained hk hj
  omega

/-! ### Labels -/

/-- The offsets of labels, in a table that has some already. -/
def labelsOnto (table : LabelTable) (placed : List Placed) : LabelTable :=
  placed.foldl (fun table (offset, item) =>
    match item.insn with
    | .label l => table.insert l offset
    | _ => table) table

theorem getElem?_labelsOnto (chained : Chained offset placed finish) (table : LabelTable)
    (l : Label) :
    (labelsOnto table placed)[l]?
      = ((Steps.positionOf? l (insns placed)).map (boundary placed finish)).or table[l]? := by
  induction chained generalizing table with
  | nil => rfl
  | @cons offset finish item placed chained ih =>
    obtain ⟨insn, index, far⟩ := item
    cases insn with
    | op op operand =>
      show (labelsOnto table placed)[l]? = _
      rw [ih]
      show _ = (((Steps.positionOf? l (insns placed)).map (· + 1)).map _).or _
      rw [Option.map_map]
      rfl
    | label m =>
      show (labelsOnto (table.insert m offset) placed)[l]? = _
      rw [ih, Std.HashMap.getElem?_insert]
      show _ = (((Steps.positionOf? l (insns placed)).or (if m = l then some 0 else none)).map
        (boundary placed finish)).or _
      have first : boundary placed finish 0 = offset := boundary_zero chained
      by_cases same : m = l
      · rw [if_pos (by simp [same]), if_pos same]
        cases Steps.positionOf? l (insns placed) with
        | none =>
          show some offset = some (boundary placed finish 0)
          rw [first]
        | some k => rfl
      · rw [if_neg (by simp [same]), if_neg same, Option.or_none]
    | line number start => exact ih table
    | frame types => exact ih table

/-- **The offset of a label is that of its position.** -/
theorem getElem?_labels {layout : Layout} (chained : Chained 0 layout.placed layout.length)
    (l : Label) :
    layout.labels[l]? = (Steps.positionOf? l (insns layout.placed)).map
      (boundary layout.placed layout.length) := by
  have whole := getElem?_labelsOnto chained ∅ l
  rw [Std.HashMap.getElem?_empty, Option.or_none] at whole
  exact whole

/-- The offset of a label that is placed. -/
theorem resolve_eq {layout : Layout} (chained : Chained 0 layout.placed layout.length) {l : Label}
    {k : Nat} (h : Steps.positionOf? l (insns layout.placed) = some k) :
    layout.labels.resolve l = ⟨boundary layout.placed layout.length k⟩ := by
  rw [LabelTable.resolve, Std.HashMap.getD_eq_getD_getElem?, getElem?_labels chained, h]
  rfl

/-- No label is behind the end of the code. -/
theorem resolve_le {layout : Layout} (chained : Chained 0 layout.placed layout.length)
    (l : Label) : (layout.labels.resolve l).index ≤ layout.length := by
  cases h : Steps.positionOf? l (insns layout.placed) with
  | none =>
    rw [LabelTable.resolve, Std.HashMap.getD_eq_getD_getElem?, getElem?_labels chained, h]
    exact Nat.zero_le _
  | some k =>
    rw [resolve_eq chained h]
    show boundary layout.placed layout.length k ≤ layout.length
    unfold boundary
    by_cases inside : k < (starts layout.placed).length
    · rw [List.getD_eq_getElem _ _ inside]
      exact Nat.le_of_lt ((starts_ascend chained).1 _ (List.getElem_mem inside)).2
    · exact Nat.le_of_eq (List.getD_eq_default _ _ (Nat.not_lt.1 inside))

/-! ### Frames -/

/-- The frames in front of instructions, each with the offset of the instruction. -/
def framesAt (starts : List Nat) (frames : List (Option Frame)) : List (Nat × Frame) :=
  (starts.zip frames).filterMap fun entry => entry.2.map fun frame => (entry.1, frame)

/-- Frames of a layout, in front of others (last first). -/
def framesOnto (finish : Nat) (frames : List (Nat × Frame)) (placed : List Placed) :
    List (Nat × Frame) :=
  placed.foldl (fun frames (offset, item) =>
    match item.insn with
    | .frame frame => if offset < finish then Assembly.keepLast frames offset frame else frames
    | _ => frames) frames

/-- The frame that was seen last, with the offset where it was seen. -/
def pending (last : Option Frame) (offset : Nat) : List (Nat × Frame) :=
  (last.map fun frame => (offset, frame)).toList

/-- A frame takes the place of the one that was seen last at its offset. -/
theorem keepLast_pending {last : Option Frame} {frames : List (Nat × Frame)}
    (before : ∀ entry ∈ frames, entry.1 < offset) (frame : Frame) :
    Assembly.keepLast (pending last offset ++ frames) offset frame = (offset, frame) :: frames := by
  cases last with
  | some other =>
    show (if (offset == offset) = true then _ else _) = _
    rw [if_pos (beq_self_eq_true offset)]
    rfl
  | none =>
    cases frames with
    | nil => rfl
    | cons entry rest =>
      have less := before entry List.mem_cons_self
      show (if (entry.1 == offset) = true then _ else _) = _
      rw [if_neg (by rw [beq_iff_eq]; omega)]

/-- The frames found so far, the one that was seen last among them, and those behind. -/
theorem framesOnto_eq (chained : Chained offset placed finish) (last : Option Frame)
    (frames : List (Nat × Frame)) (before : ∀ entry ∈ frames, entry.1 < offset)
    (inside : last.isSome = true → offset < finish) :
    (framesOnto finish (pending last offset ++ frames) placed).reverse
      = frames.reverse ++ framesAt (starts placed) (framesBefore last (insns placed)) := by
  induction chained generalizing last frames with
  | nil offset =>
    cases last with
    | none => simp [framesOnto, pending, framesAt, starts]
    | some frame => exact absurd (inside rfl) (Nat.lt_irrefl _)
  | @cons offset finish item placed chained ih =>
    obtain ⟨insn, index, far⟩ := item
    cases insn with
    | op op operand =>
      have pos := opSize_pos offset index far op operand
      show (framesOnto finish (pending last offset ++ frames) placed).reverse = frames.reverse
        ++ framesAt (offset :: starts placed) (last :: framesBefore none (insns placed))
      have behind := ih none (pending last offset ++ frames)
        (fun entry member => by
          show entry.1 < offset + Item.opSize offset index far op operand
          rcases List.mem_append.1 member with here | earlier
          · cases last with
            | none => cases here
            | some frame =>
              rw [List.mem_singleton.1 here]
              show offset < _
              omega
          · have := before entry earlier
            omega)
        (fun h => (nomatch h))
      rw [show pending none (offset + Item.size offset ⟨.op op operand, index, far⟩) = [] from rfl,
        List.nil_append] at behind
      rw [behind, List.reverse_append, List.append_assoc]
      congr 1
      cases last <;> rfl
    | frame frame =>
      show (framesOnto finish (if offset < finish then _ else _) placed).reverse = frames.reverse
        ++ framesAt (starts placed) (framesBefore (some frame) (insns placed))
      by_cases less : offset < finish
      · rw [if_pos less, keepLast_pending before]
        exact ih (some frame) frames before fun _ => less
      · rw [if_neg less]
        have done : starts placed = [] := by
          refine List.eq_nil_iff_forall_not_mem.2 fun o member => ?_
          obtain ⟨above, below⟩ := (starts_ascend chained).1 o member
          simp only [Item.size] at above
          omega
        have same := ih last frames before inside
        rw [done] at same ⊢
        exact same
    | label l => exact ih last frames before inside
    | line number start => exact ih last frames before inside

/-- **The frames of a layout** are those in front of instructions, each at the offset of its
instruction. -/
theorem framesOf_eq {layout : Layout} (chained : Chained 0 layout.placed layout.length) :
    Assembly.framesOf layout
      = framesAt (starts layout.placed) (framesBefore none (insns layout.placed)) :=
  framesOnto_eq chained none [] (fun _ h => (nomatch h)) fun h => (nomatch h)

theorem mem_framesAt {starts : List Nat} {frames : List (Option Frame)} {entry : Nat × Frame}
    (h : entry ∈ framesAt starts frames) : entry.1 ∈ starts ∧ some entry.2 ∈ frames := by
  obtain ⟨⟨o, frame⟩, member, same⟩ := List.mem_filterMap.1 h
  obtain ⟨known, rfl, rfl⟩ := Option.map_eq_some_iff.1 same
  exact ⟨(List.of_mem_zip member).1, (List.of_mem_zip member).2⟩

/-- The frames in front of ascending offsets ascend. -/
theorem framesAt_ascend {starts : List Nat} (ascend : starts.Pairwise (· < ·))
    (frames : List (Option Frame)) : (framesAt starts frames).Pairwise fun a b => a.1 < b.1 := by
  induction starts generalizing frames with
  | nil => exact .nil
  | cons o starts ih =>
    obtain ⟨first, others⟩ := List.pairwise_cons.1 ascend
    cases frames with
    | nil => exact .nil
    | cons frame frames =>
      cases frame with
      | none => exact ih others frames
      | some frame =>
        refine List.pairwise_cons.2 ⟨fun entry member => ?_, ih others frames⟩
        exact first _ (mem_framesAt member).1

end ClassInstrument.Layout
