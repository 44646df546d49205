import ClassInstrument.Proofs.Code.Operands
import ClassInstrument.Proofs.Code.Settled

/-!
# Code read back

The code of a body that is laid out is read back instruction by instruction, each at the offset it
was laid out at.  If one of them is refused, the code as a whole is.

* `Layout.instructions` — what is read back: the instructions with their offsets;
* `Layout.length_code` — the code is as long as it was laid out;
* `BytecodeContext.instructions_code` — **the code is read back** if every instruction is;
* `BytecodeContext.refuses_code` — it is refused if one of them is, and the others are read.
-/

namespace ClassInstrument

open Decoder Traverse

namespace Item

/-- The instruction of a placed item as it is read back, if it is executable. -/
def readBack? (labels : LabelTable) : Placed → Option (Nat × Instruction)
  | (offset, ⟨.op op operand, _, _⟩) =>
    some (offset, .op op (operand.sorted.mapLabels labels.resolve))
  | _ => none

/-- An item takes as many bytes as it was laid out with. -/
theorem length_bytes {labels : LabelTable} {placed : Placed} {bytes : Bytes}
    (h : Item.bytes labels placed = .ok bytes) : bytes.length = placed.2.size placed.1 := by
  obtain ⟨offset, insn, index, far⟩ := placed
  cases insn with
  | op op operand => exact length_opBytes h
  | _ =>
    cases h
    rfl

end Item

namespace Layout

/-- The executable instructions of a layout as they are read back. -/
def instructions (labels : LabelTable) (placed : List Placed) : List (Nat × Instruction) :=
  placed.filterMap (Item.readBack? labels)

theorem length_chunks {labels : LabelTable} {offset finish : Nat} {placed : List Placed}
    (chained : Chained offset placed finish) {chunks : List Bytes}
    (each : List.Forall₂ (fun p bytes => Item.bytes labels p = .ok bytes) placed chunks) :
    offset + chunks.flatten.length = finish := by
  induction chained generalizing chunks with
  | nil =>
    cases each
    rfl
  | cons rest ih =>
    cases each with
    | cons first others =>
      have here := Item.length_bytes first
      have behind := ih others
      dsimp only at here
      rw [List.flatten_cons, List.length_append, here]
      omega

/-- **The code is as long as it was laid out.** -/
theorem length_code {layout : Layout} (chained : Chained 0 layout.placed layout.length)
    {body : Bytes} (h : layout.code = .ok body) : body.length = layout.length := by
  obtain ⟨chunks, hchunks, h⟩ := bind_eq_ok_iff.1 h
  cases h
  have whole := length_chunks chained (mapM_eq_ok_iff.1 hchunks)
  omega

/-- A placed item ends before the layout does. -/
theorem Chained.size_le {offset finish : Nat} {placed : List Placed}
    (chained : Chained offset placed finish) {p : Placed} (member : p ∈ placed) :
    offset ≤ p.1 ∧ p.1 + p.2.size p.1 ≤ finish := by
  induction chained with
  | nil => cases member
  | cons rest ih =>
    rcases List.mem_cons.1 member with rfl | inside
    · exact ⟨Nat.le_refl _, rest.le⟩
    · obtain ⟨above, below⟩ := ih inside
      exact ⟨by omega, below⟩

end Layout

namespace BytecodeContext

variable {ctx : BytecodeContext} {labels : LabelTable}

/-- A placed item is read back, or is a mark. -/
def ReadsItem (ctx : BytecodeContext) (labels : LabelTable) (placed : Placed) : Prop :=
  ∀ op operand, placed.2.insn = .op op operand → ∀ bytes, Item.bytes labels placed = .ok bytes →
    ctx.ReadsOp placed.1 bytes (.op op (operand.sorted.mapLabels labels.resolve))

/-- A placed item is refused. -/
def RefusesItem (ctx : BytecodeContext) (labels : LabelTable) (placed : Placed) : Prop :=
  ∃ op operand, placed.2.insn = .op op operand
    ∧ ∀ bytes, Item.bytes labels placed = .ok bytes → ctx.RefusesOp placed.1 bytes

/-- Nothing is left to be read. -/
theorem instructionsOnto_nil (rounds offset : Nat) (read : List (Nat × Instruction)) :
    ctx.instructionsOnto rounds read ⟨offset, []⟩ = .ok read.reverse := by
  cases rounds <;> rfl

/-- One instruction first, then the others. -/
theorem instructionsOnto_cons {rounds offset : Nat} {bytes rest : Bytes} {insn : Instruction}
    (h : ctx.ReadsOp offset bytes insn) (enough : (bytes ++ rest).length ≤ rounds)
    (read : List (Nat × Instruction)) :
    ∃ fewer, rest.length ≤ fewer ∧ ctx.instructionsOnto rounds read ⟨offset, bytes ++ rest⟩
      = ctx.instructionsOnto fewer ((offset, insn) :: read) ⟨offset + bytes.length, rest⟩ := by
  obtain ⟨first, fields, rfl, row⟩ := h
  rw [List.cons_append, List.length_cons, List.length_append] at enough
  obtain ⟨fewer, rfl⟩ := Nat.exists_eq_add_of_le' (show 1 ≤ rounds by omega)
  refine ⟨fewer, by omega, ?_⟩
  have here := row rest
  rw [Nat.add_assoc, Nat.add_comm 1, ← List.length_cons (a := first)] at here
  simp only [List.cons_append, instructionsOnto, here]

/-- The instructions of some chunks, whatever was read before and stands behind them. -/
theorem instructionsOnto_chunks {offset finish : Nat} {placed : List Placed}
    (chained : Layout.Chained offset placed finish)
    (reads : ∀ p ∈ placed, ctx.ReadsItem labels p) {chunks : List Bytes}
    (each : List.Forall₂ (fun p bytes => Item.bytes labels p = .ok bytes) placed chunks)
    {rounds : Nat} {rest : Bytes} (enough : (chunks.flatten ++ rest).length ≤ rounds)
    (read : List (Nat × Instruction)) :
    ∃ fewer, rest.length ≤ fewer ∧
      ctx.instructionsOnto rounds read ⟨offset, chunks.flatten ++ rest⟩
        = ctx.instructionsOnto fewer ((Layout.instructions labels placed).reverse ++ read)
          ⟨finish, rest⟩ := by
  induction chained generalizing chunks rounds read with
  | nil =>
    cases each
    exact ⟨rounds, enough, rfl⟩
  | @cons offset finish item placed chained ih =>
    cases each with
    | @cons _ chunk _ chunks first others =>
      have here := Item.length_bytes first
      have behind {rounds : Nat} (enough : (chunks.flatten ++ rest).length ≤ rounds)
          (read : List (Nat × Instruction)) :=
        ih (fun p hp => reads p (List.mem_cons_of_mem _ hp)) others enough read
      obtain ⟨insn, index, far⟩ := item
      cases insn with
      | op op operand =>
        have row := reads _ List.mem_cons_self op operand rfl chunk first
        rw [List.flatten_cons, List.append_assoc] at enough ⊢
        obtain ⟨fewer, left, step⟩ := instructionsOnto_cons row enough read
        rw [step, here]
        obtain ⟨fewer, left, steps⟩ := behind left ((offset, _) :: read)
        refine ⟨fewer, left, steps.trans ?_⟩
        have head : Layout.instructions labels ((offset, ⟨.op op operand, index, far⟩) :: placed)
            = (offset, .op op (operand.sorted.mapLabels labels.resolve))
              :: Layout.instructions labels placed := rfl
        rw [head, List.reverse_cons, List.append_assoc]
        rfl
      | _ =>
        cases first
        exact behind enough read

/-- **The code is read back** if every instruction in it is. -/
theorem instructions_code {layout : Layout}
    (chained : Layout.Chained 0 layout.placed layout.length)
    (reads : ∀ p ∈ layout.placed, ctx.ReadsItem layout.labels p) {body : Bytes}
    (h : layout.code = .ok body) :
    ctx.instructions body = .ok (Layout.instructions layout.labels layout.placed) := by
  obtain ⟨chunks, hchunks, h⟩ := bind_eq_ok_iff.1 h
  cases h
  have each := mapM_eq_ok_iff.1 hchunks
  have enough : (chunks.flatten ++ []).length ≤ chunks.flatten.length :=
    Nat.le_of_eq (by rw [List.append_nil])
  obtain ⟨fewer, -, whole⟩ := instructionsOnto_chunks chained reads each enough []
  rw [List.append_nil, List.append_nil, instructionsOnto_nil, List.reverse_reverse] at whole
  exact whole

/-- An instruction that is refused is the end of the reading. -/
theorem instructionsOnto_refused {offset : Nat} {bytes : Bytes} (h : ctx.RefusesOp offset bytes)
    (rounds : Nat) (read : List (Nat × Instruction)) (rest : Bytes) :
    ∃ e, ctx.instructionsOnto rounds read ⟨offset, bytes ++ rest⟩ = .error e := by
  obtain ⟨first, fields, rfl, refused⟩ := h
  obtain ⟨e, here⟩ := refused rest
  cases rounds with
  | zero => exact ⟨_, rfl⟩
  | succ rounds =>
    refine ⟨e, ?_⟩
    simp only [List.cons_append, instructionsOnto, here]

theorem refuses_chunks {offset finish : Nat} {placed : List Placed}
    (chained : Layout.Chained offset placed finish)
    (known : ∀ p ∈ placed, ctx.ReadsItem labels p ∨ ctx.RefusesItem labels p)
    (bad : ∃ p ∈ placed, ctx.RefusesItem labels p) {chunks : List Bytes}
    (each : List.Forall₂ (fun p bytes => Item.bytes labels p = .ok bytes) placed chunks)
    {rounds : Nat} (enough : chunks.flatten.length ≤ rounds) (read : List (Nat × Instruction)) :
    ∃ e, ctx.instructionsOnto rounds read ⟨offset, chunks.flatten⟩ = .error e := by
  induction chained generalizing chunks rounds read with
  | nil =>
    obtain ⟨p, member, -⟩ := bad
    cases member
  | @cons offset finish item placed chained ih =>
    cases each with
    | @cons _ chunk _ chunks first others =>
      have here := Item.length_bytes first
      by_cases refused : ctx.RefusesItem labels (offset, item)
      · obtain ⟨op, operand, -, refused⟩ := refused
        exact instructionsOnto_refused (refused chunk first) rounds read chunks.flatten
      · have left : ∃ p ∈ placed, ctx.RefusesItem labels p := by
          obtain ⟨p, member, h⟩ := bad
          rcases List.mem_cons.1 member with rfl | inside
          · exact absurd h refused
          · exact ⟨p, inside, h⟩
        have behind {rounds : Nat} (enough : chunks.flatten.length ≤ rounds)
            (read : List (Nat × Instruction)) :=
          ih (fun p hp => known p (List.mem_cons_of_mem _ hp)) left others enough read
        have row := (known _ List.mem_cons_self).resolve_right refused
        obtain ⟨insn, index, far⟩ := item
        cases insn with
        | op op operand =>
          rw [List.flatten_cons] at enough ⊢
          obtain ⟨fewer, less, step⟩ :=
            instructionsOnto_cons (row op operand rfl chunk first) enough read
          rw [step, here]
          exact behind less _
        | _ =>
          cases first
          exact behind enough read

/-- **The code is refused** if one instruction in it is, and every other one is read. -/
theorem refuses_code {layout : Layout}
    (chained : Layout.Chained 0 layout.placed layout.length)
    (known : ∀ p ∈ layout.placed,
      ctx.ReadsItem layout.labels p ∨ ctx.RefusesItem layout.labels p)
    (bad : ∃ p ∈ layout.placed, ctx.RefusesItem layout.labels p) {body : Bytes}
    (h : layout.code = .ok body) : ∃ e, ctx.instructions body = .error e := by
  obtain ⟨chunks, hchunks, h⟩ := bind_eq_ok_iff.1 h
  cases h
  exact refuses_chunks chained known bad (mapM_eq_ok_iff.1 hchunks) (Nat.le_refl _) []

end BytecodeContext

end ClassInstrument
