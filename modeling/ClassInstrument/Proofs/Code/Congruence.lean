import ClassInstrument.Proofs.Code.Positions

/-!
# Bodies that say the same are written alike

What is written for a body depends on what it says alone: not on the names of its labels, not on
how many of them it has, and not on what a class file leaves out of it.

* `Builder.Refines` — computations that give the same wherever the first one succeeds;
* `BodyView.canonical` — a view with its instructions as they are read back;
* `Code.mapM_toItem` — marks refer to no constants;
* `Code.encode_congr` — **two bodies that say the same have the same bytes**.
-/

namespace ClassInstrument

open Builder

namespace Builder

variable {α β : Type}

/-- Wherever the first computation succeeds, the second one does so with the same result. -/
def Refines (m n : Builder α) : Prop := ∀ t v t', m t = .ok v t' → n t = .ok v t'

theorem Refines.refl (m : Builder α) : Refines m m := fun _ _ _ h => h

theorem Refines.bind {m n : Builder α} {f g : α → Builder β} (first : Refines m n)
    (second : ∀ v, Refines (f v) (g v)) : Refines (m >>= f) (n >>= g) := by
  intro t w t' h
  obtain ⟨v, s, hv, hw⟩ := bind_eq_ok_iff.1 h
  exact bind_eq_ok_iff.2 ⟨v, s, first t v s hv, second v s w t' hw⟩

theorem Refines.concat {f : α → Builder Bytes} {g : β → Builder Bytes} {l : List α} {r : List β}
    (each : List.Forall₂ (fun a b => Refines (f a) (g b)) l r) :
    Refines (concat f l) (concat g r) := by
  have general : ∀ written, Refines (concatOnto f written l) (concatOnto g written r) := by
    induction each with
    | nil => exact fun written => Refines.refl _
    | cons first _ ih => exact fun written => first.bind fun chunk => ih (chunk :: written)
  exact general []

end Builder

/-- A view whose operands are as they are read back. -/
def BodyView.canonical (view : BodyView) : BodyView :=
  { view with ops := view.ops.map Instruction.canonical }

/-- The index of the constant that an instruction refers to. -/
def Instruction.addConstants : Instruction → Builder UInt16
  | .op _ operand => operand.addConstants
  | _ => pure 0

theorem Instruction.addConstants_canonical (insn : Instruction) :
    insn.canonical.addConstants = insn.addConstants := by
  cases insn with
  | op op operand => exact operand.addConstants_canonical
  | _ => rfl

theorem Instruction.addConstants_mapLabels (f : Label → Label) (insn : Instruction) :
    (insn.mapLabels f).addConstants = insn.addConstants := by
  cases insn with
  | op op operand => exact operand.addConstants_mapLabels f
  | _ => rfl

theorem Instruction.canonical_sorted (insn : Instruction) :
    insn.sorted.canonical = insn.canonical := by
  cases insn with
  | op op operand => exact congrArg (Instruction.op op) operand.canonical_sorted
  | _ => rfl

/-- What is left of a view in a class file is left of it again. -/
theorem BodyView.written_written (major : UInt16) (view : BodyView) :
    (view.written major).written major = view.written major := by
  have ops : (view.ops.map Instruction.sorted).map Instruction.sorted
      = view.ops.map Instruction.sorted := by
    rw [List.map_map]
    refine List.map_congr_left fun insn _ => ?_
    cases insn with
    | op op operand => exact congrArg (Instruction.op op) operand.sorted_sorted
    | _ => rfl
  unfold written
  dsimp only
  rw [ops, List.filter_filter]
  simp only [Bool.and_self]
  congr 1
  split
  · rw [List.map_map]
    rfl
  · rfl

namespace Code

/-! ### Constants -/

/-- The items of instructions with the indices of their constants; marks have none. -/
def fill : List Instruction → List UInt16 → List Item
  | [], _ => []
  | .op op operand :: insns, [] => ⟨.op op operand, 0, false⟩ :: fill insns []
  | .op op operand :: insns, index :: indices => ⟨.op op operand, index, false⟩ :: fill insns indices
  | mark :: insns, indices => ⟨mark, 0, false⟩ :: fill insns indices

/-- **Marks refer to no constants**: the constants of a body are those of what is executed. -/
theorem mapM_toItem (insns : List Instruction) : insns.mapM Instruction.toItem
    = fill insns <$> (ops insns).mapM Instruction.addConstants := by
  induction insns with
  | nil => rfl
  | cons insn insns ih =>
    rw [List.mapM_cons, ih]
    cases insn with
    | op op operand =>
      show _ = fill _ <$> List.mapM _ (.op op operand :: ops insns)
      rw [List.mapM_cons]
      simp only [Instruction.toItem, Instruction.addConstants, ← bind_pure_comp, bind_assoc,
        pure_bind, fill]
    | _ =>
      simp only [Instruction.toItem, ← bind_pure_comp, bind_assoc, pure_bind]
      rfl

theorem map_insn_fill (insns : List Instruction) (indices : List UInt16) :
    (fill insns indices).map Item.insn = insns := by
  induction insns generalizing indices with
  | nil => rfl
  | cons insn insns ih =>
    cases insn with
    | op op operand => cases indices <;> exact congrArg (_ :: ·) (ih _)
    | _ => exact congrArg (_ :: ·) (ih _)

theorem bare_fill (insns : List Instruction) (indices : List UInt16) :
    Layout.bare (fill insns indices) = fill (ops insns) indices := by
  induction insns generalizing indices with
  | nil => rfl
  | cons insn insns ih =>
    cases insn with
    | op op operand => cases indices <;> exact congrArg (_ :: ·) (ih _)
    | _ => exact ih _

/-- Instructions that say the same refer to the same constants. -/
theorem mapM_addConstants_congr {f f' : Label → Label} {insns insns' : List Instruction}
    (same : List.Forall₂ (fun a b : Instruction => (b.mapLabels f').canonical
      = (a.mapLabels f).canonical) insns insns') :
    insns'.mapM Instruction.addConstants = insns.mapM Instruction.addConstants := by
  induction same with
  | nil => rfl
  | @cons a b _ _ first _ ih =>
    have equal : b.addConstants = a.addConstants := by
      have both := congrArg Instruction.addConstants first
      simpa only [Instruction.addConstants_canonical, Instruction.addConstants_mapLabels] using both
    rw [List.mapM_cons, List.mapM_cons, equal, ih]

/-- Instructions that say the same have items that say the same. -/
theorem fill_alike {f f' : Label → Label} {insns insns' : List Instruction}
    (executable : ∀ insn ∈ insns, insn.isPseudo = false)
    (executable' : ∀ insn ∈ insns', insn.isPseudo = false)
    (same : List.Forall₂ (fun a b : Instruction => (b.mapLabels f').canonical
      = (a.mapLabels f).canonical) insns insns') (indices : List UInt16) :
    List.Forall₂ (Item.Alike f f') (fill insns indices) (fill insns' indices) := by
  induction same generalizing indices with
  | nil => exact .nil
  | @cons a b insns insns' first _ ih =>
    have behind := ih (fun i hi => executable i (List.mem_cons_of_mem _ hi))
      fun i hi => executable' i (List.mem_cons_of_mem _ hi)
    cases a with
    | op op operand =>
      cases b with
      | op op' operand' => cases indices <;> exact .cons ⟨first, rfl, rfl⟩ (behind _)
      | _ => cases executable' _ List.mem_cons_self
    | _ => cases executable _ List.mem_cons_self

/-! ### The whole body -/

theorem named_of_wellPlaced {code : Code} (placed : code.WellPlaced) :
    Layout.Named code.instructions.toList := by
  intro insn member l target
  have reference : l ∈ insn.references := by cases insn <;> first | exact target | cases target
  have once := placed l (mem_references_insn member reference)
  exact List.count_pos_iff.1 (by omega)

section Congruence

variable {code code' : Code} {major : UInt16}
  (same : (code'.view.written major).canonical = (code.view.written major).canonical)

include same in
theorem ops_alike : List.Forall₂ (fun a b : Instruction =>
      (b.mapLabels (place code'.instructions.toList)).canonical
        = (a.mapLabels (place code.instructions.toList)).canonical)
    (ops code.instructions.toList) (ops code'.instructions.toList) := by
  have said : ∀ code : Code, (code.view.written major).canonical.ops
      = (ops code.instructions.toList).map fun insn =>
        (insn.mapLabels (place code.instructions.toList)).canonical := by
    intro code
    show ((_ : List Instruction).map Instruction.sorted).map Instruction.canonical = _
    rw [List.map_map, view, List.map_map]
    exact List.map_congr_left fun insn _ => Instruction.canonical_sorted _
  have each : List.Forall₂ Eq (code.view.written major).canonical.ops
      (code'.view.written major).canonical.ops := by
    rw [List.forall₂_eq_eq_eq, same]
  rw [said, said, List.forall₂_map_left_iff, List.forall₂_map_right_iff] at each
  exact each.imp fun _ _ equal => equal.symm

include same in
/-- Bodies that say the same have items that say the same, with the same constants. -/
theorem items_alike {items : List Item} {t t' : ConstantTables}
    (h : code.instructions.toList.mapM Instruction.toItem t = .ok items t') :
    ∃ items', code'.instructions.toList.mapM Instruction.toItem t = .ok items' t'
      ∧ Layout.ItemsAlike code.instructions.toList code'.instructions.toList items items' := by
  have each := ops_alike same
  rw [mapM_toItem, ← bind_pure_comp, bind_eq_ok_iff] at h
  obtain ⟨indices, s, added, h⟩ := h
  cases h
  refine ⟨fill code'.instructions.toList indices, ?_, map_insn_fill _ _, map_insn_fill _ _, ?_⟩
  · rw [mapM_toItem, ← bind_pure_comp, bind_eq_ok_iff, mapM_addConstants_congr each]
    exact ⟨indices, t', added, rfl⟩
  · have executable : ∀ insns : List Instruction, ∀ insn ∈ ops insns, insn.isPseudo = false :=
      fun insns insn member => by simpa using (List.mem_filter.1 member).2
    rw [bare_fill, bare_fill]
    exact fill_alike (executable _) (executable _) each indices

include same in
/-- **Two bodies that say the same have the same bytes**, and refer to the same constants. -/
theorem encode_congr (placed : code.WellPlaced) (placed' : code'.WellPlaced)
    (ordered : code.LinesInOrder) (ordered' : code'.LinesInOrder) :
    Refines (code.encode major) (code'.encode major) := by
  intro t bytes t' h
  obtain ⟨items, s, layout, body, behind, resolved, settled, emitted, written, rfl⟩ :=
    encode_eq_ok_iff.1 h
  have named := named_of_wellPlaced placed
  have named' := named_of_wellPlaced placed'
  obtain ⟨items', resolved', alike⟩ := items_alike same resolved
  obtain ⟨layout', settled', layouts⟩ := Layout.settle_alike named named' alike settled
  have laid : code.Laid layout := ⟨layouts.chained, layouts.own⟩
  have laid' : code'.Laid layout' := ⟨layouts.chained', layouts.own'⟩
  obtain ⟨starts, boundaries⟩ := Layout.boundary_alike layouts.length layouts.each
  have positions : layout'.positions = layout.positions := by
    unfold Layout.positions
    rw [starts, boundaries]
  -- Labels have other names in the two bodies, and so have the tables of both; the tables of their
  -- views have the numbers of instructions in the place of labels.
  have tables : (code'.view.written major).encodeBehind layout.positions
        (Layout.starts layout.placed) major
      = (code.view.written major).encodeBehind layout.positions (Layout.starts layout.placed)
        major :=
    congrArg (fun view => view.encodeBehind layout.positions (Layout.starts layout.placed) major)
      same
  rw [laid.encodeBehind_eq placed ordered, ← tables, ← positions, ← starts,
    ← laid'.encodeBehind_eq placed' ordered'] at written
  have front : code.wrap body behind = code'.wrap body behind := by
    have stack : code'.maxStack = code.maxStack := congrArg BodyView.maxStack same
    have slots : code'.maxLocals = code.maxLocals := congrArg BodyView.maxLocals same
    unfold wrap
    rw [stack, slots]
  exact encode_eq_ok_iff.2 ⟨items', s, layout', body, behind, resolved', settled',
    Layout.code_alike named named' layouts emitted, written, front⟩

end Congruence

/-! ### As it is read back -/

/-- A body whose operands are as they are read back. -/
def canonical (code : Code) : Code :=
  { code with
    instructions := .ofList (code.instructions.toList.map Instruction.canonical)
      code.instructions.labelCount }

section Canonical

theorem labelsOf_canonical (insns : List Instruction) :
    Steps.labelsOf (insns.map Instruction.canonical) = Steps.labelsOf insns := by
  unfold Steps.labelsOf
  rw [List.filterMap_map]
  congr 1
  funext insn
  cases insn <;> rfl

theorem lines_canonical (insns : List Instruction) :
    lines (insns.map Instruction.canonical) = lines insns := by
  unfold lines
  rw [List.filterMap_map]
  congr 1
  funext insn
  cases insn <;> rfl

theorem ops_canonical (insns : List Instruction) :
    ops (insns.map Instruction.canonical) = (ops insns).map Instruction.canonical := by
  unfold ops
  rw [List.filter_map]
  congr 2
  funext insn
  cases insn <;> rfl

theorem positionOf?_canonical (l : Label) (insns : List Instruction) :
    Steps.positionOf? l (insns.map Instruction.canonical) = Steps.positionOf? l insns := by
  induction insns with
  | nil => rfl
  | cons insn insns ih =>
    cases insn <;> simp only [List.map_cons, Instruction.canonical, Steps.positionOf?, ih]

theorem framesBefore_canonical (last : Option Frame) (insns : List Instruction) :
    framesBefore last (insns.map Instruction.canonical) = framesBefore last insns := by
  induction insns generalizing last with
  | nil => rfl
  | cons insn insns ih =>
    cases insn <;> simp only [List.map_cons, Instruction.canonical, framesBefore, ih]

theorem place_canonical (insns : List Instruction) :
    place (insns.map Instruction.canonical) = place insns := by
  funext l
  unfold place
  rw [positionOf?_canonical]

theorem linesAt_canonical (insns : List Instruction) (k : Nat) :
    linesAt (insns.map Instruction.canonical) k = linesAt insns k := by
  unfold linesAt
  simp only [lines_canonical, positionOf?_canonical]

/-- **What a body says** as it is read back. -/
theorem view_canonical (code : Code) : code.canonical.view = code.view.canonical := by
  unfold view BodyView.canonical canonical
  simp only [Sequence.toList_ofList, place_canonical, framesBefore_canonical, ops_canonical,
    List.length_map, List.map_map]
  congr 1
  · refine List.map_congr_left fun insn _ => ?_
    cases insn with
    | op op operand => exact congrArg (Instruction.op op) (operand.canonical_mapLabels _).symm
    | _ => rfl
  · exact List.map_congr_left fun k _ => linesAt_canonical _ k

theorem WellPlaced.canonical {code : Code} (placed : code.WellPlaced) :
    code.canonical.WellPlaced := by
  have insns : code.canonical.instructions.toList
      = code.instructions.toList.map Instruction.canonical := Sequence.toList_ofList _ _
  intro l member
  rw [insns, labelsOf_canonical]
  refine placed l ?_
  unfold references at member ⊢
  rw [insns] at member
  simp only [List.mem_append, List.mem_flatMap, List.mem_map] at member ⊢
  rcases member with (⟨_, ⟨insn, there, rfl⟩, label⟩ | range) | variable'
  · refine .inl (.inl ⟨insn, there, ?_⟩)
    cases insn with
    | op op operand => exact Operand.mem_targets_canonical.1 label
    | _ => exact label
  · exact .inl (.inr range)
  · exact .inr variable'

theorem LinesInOrder.canonical {code : Code} (ordered : code.LinesInOrder) :
    code.canonical.LinesInOrder := by
  have insns : code.canonical.instructions.toList
      = code.instructions.toList.map Instruction.canonical := Sequence.toList_ofList _ _
  unfold LinesInOrder
  rw [insns, place_canonical, lines_canonical, view_canonical]
  exact ordered

/-- **A body is written as it is read back.** -/
theorem encode_canonical {code : Code} (placed : code.WellPlaced) (ordered : code.LinesInOrder)
    (major : UInt16) : Refines (code.encode major) (code.canonical.encode major) := by
  refine encode_congr ?_ placed placed.canonical ordered ordered.canonical
  rw [view_canonical]
  unfold BodyView.canonical BodyView.written
  simp only [List.map_map]
  congr 1
  refine List.map_congr_left fun insn _ => ?_
  cases insn with
  | op op operand =>
    refine congrArg (Instruction.op op) ?_
    show operand.canonical.sorted.canonical = operand.sorted.canonical
    rw [operand.sorted_canonical, operand.canonical_canonical, operand.canonical_sorted]
  | _ => rfl

end Canonical

end Code

end ClassInstrument
