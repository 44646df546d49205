import ClassInstrument.Proofs.Code.Congruence
import ClassInstrument.Proofs.Code.RoundTrip

/-!
# Bodies in normal form

A body can spell one instruction in several ways: the byte that names a low variable says what the
plain load with that variable says, and constants and switches say things that leave no trace.  In
normal form all of this is as it is read back.  It is written to the same bytes, with labels placed
in any way or not at all.

* `Instruction.normalized`, `Code.normalized` — the normal form;
* `Opcode.short_agrees` — the bytes that name a low variable;
* `Item.bytes_normalized`, `Layout.settle_normalized` — **the same bytes, laid out the same**;
* `Code.encode_normalized` — **a body is written as its normal form is**;
* `Code.normal_normalized` — what the normal form looks like;
* `Code.shapes`, `Code.shapes_of_decode` — **the opcodes and kinds of operands that come back**.
-/

namespace ClassInstrument

open Builder

/-- The instruction as it is read back, up to the names of labels. -/
def Instruction.normalized : Instruction → Instruction
  | .op opcode .none =>
    match opcode.form? with
    | some (.shortVariable general v) => .op general (.var v)
    | _ => .op opcode .none
  | .op opcode operand => .op opcode operand.canonical
  | mark => mark

/-! ### One instruction -/

/-- **The bytes that name a low variable** are written for the general instruction. -/
theorem Opcode.short_agrees {op general : Opcode} {v : UInt16}
    (h : op.form? = some (.shortVariable general v)) :
    general.form? = some .variable ∧ Item.variableBytes general v = [op]
      ∧ (general != Opcode.ret && v ≤ 3) = true := by
  have all : ∀ op : Opcode, (match op.form? with
      | some (.shortVariable general v) => general.form? == some .variable
        && Item.variableBytes general v == [op] && (general != Opcode.ret && v ≤ 3)
      | _ => true) = true := forall_byte (by decide +kernel)
  have own := all op
  rw [h] at own
  simp only [Bool.and_eq_true, beq_iff_eq] at own
  obtain ⟨⟨form, bytes⟩, low⟩ := own
  exact ⟨form, bytes, Bool.and_eq_true_iff.2 low⟩

namespace Instruction

/-- What is in normal form: marks as they are, bytes that name a low variable in general form, and
all other operands as they are read back. -/
theorem normalized_cases {P : Instruction → Instruction → Prop}
    (mark : ∀ insn, insn.isPseudo = true → P insn insn)
    (short : ∀ op general v, op.form? = some (.shortVariable general v) →
      P (.op op .none) (.op general (.var v)))
    (other : ∀ op operand,
      (operand = .none → ∀ general v, op.form? ≠ some (.shortVariable general v)) →
      P (.op op operand) (.op op operand.canonical)) (insn : Instruction) :
    P insn insn.normalized := by
  cases insn with
  | op op operand =>
    cases operand with
    | none =>
      show P _ (match op.form? with
        | some (.shortVariable general v) => .op general (.var v)
        | _ => .op op .none)
      split
      · next general v known => exact short op general v known
      · next unknown => exact other op .none fun _ => unknown
    | _ => exact other op _ fun none => (nomatch none)
  | _ => exact mark _ rfl

theorem isPseudo_normalized (insn : Instruction) : insn.normalized.isPseudo = insn.isPseudo :=
  insn.normalized_cases (P := fun insn other => other.isPseudo = insn.isPseudo)
    (fun _ _ => rfl) (fun _ _ _ _ => rfl) fun _ _ _ => rfl

/-- In normal form an executable instruction is executable. -/
theorem exists_op_normalized (op : Opcode) (operand : Operand) :
    ∃ op' operand', (Instruction.op op operand).normalized = .op op' operand' := by
  have executable := isPseudo_normalized (.op op operand)
  cases known : (Instruction.op op operand).normalized with
  | op op' operand' => exact ⟨op', operand', rfl⟩
  | _ =>
    rw [known] at executable
    cases executable

theorem addConstants_normalized (insn : Instruction) :
    insn.normalized.addConstants = insn.addConstants :=
  insn.normalized_cases (P := fun insn other => other.addConstants = insn.addConstants)
    (fun _ _ => rfl) (fun _ _ _ _ => rfl) fun _ operand _ => operand.addConstants_canonical

theorem toItem_eq (insn : Instruction) :
    insn.toItem = (fun index => ⟨insn, index, false⟩) <$> insn.addConstants := by
  cases insn <;> rfl

end Instruction

namespace Item

/-- The item with its instruction in normal form. -/
def normalized (item : Item) : Item := { item with insn := item.insn.normalized }

/-- **As many bytes**. -/
theorem size_normalized (offset : Nat) (item : Item) :
    item.normalized.size offset = item.size offset := by
  obtain ⟨insn, index, far⟩ := item
  show size offset ⟨insn.normalized, index, far⟩ = _
  refine insn.normalized_cases (P := fun insn other =>
    size offset ⟨other, index, far⟩ = size offset ⟨insn, index, far⟩) (fun _ _ => rfl) ?_ ?_
  · intro op general v known
    obtain ⟨-, -, low⟩ := Opcode.short_agrees known
    show opSize offset index far general (.var v) = 1
    rw [opSize, if_pos low]
  · exact fun op operand _ => opSize_canonical

/-- **The same bytes**. -/
theorem bytes_normalized {labels : LabelTable} {offset : Nat} {item : Item} {bytes : Bytes}
    (h : Item.bytes labels (offset, item) = .ok bytes) :
    Item.bytes labels (offset, item.normalized) = .ok bytes := by
  obtain ⟨insn, index, far⟩ := item
  revert h
  show _ → Item.bytes labels (offset, ⟨insn.normalized, index, far⟩) = .ok bytes
  refine insn.normalized_cases (P := fun insn other =>
    Item.bytes labels (offset, ⟨insn, index, far⟩) = .ok bytes →
      Item.bytes labels (offset, ⟨other, index, far⟩) = .ok bytes) (fun _ _ h => h) ?_ ?_
  · intro op general v known h
    obtain ⟨form, same, -⟩ := Opcode.short_agrees known
    have own : Item.opBytes labels offset index far op .none = .ok [op] := by
      unfold opBytes
      rw [known]
    cases own.symm.trans h
    show opBytes labels offset index far general (.var v) = .ok [op]
    unfold opBytes
    rw [form, ← same]
  · exact fun op operand _ h => opBytes_canonical.2 h

/-- The same jumps are widened. -/
theorem widenItem_normalized (labels : LabelTable) (offset : Nat) (item : Item) :
    Layout.widenItem labels (offset, item.normalized)
      = (Layout.widenItem labels (offset, item)).map normalized := by
  obtain ⟨insn, index, far⟩ := item
  -- only a jump is looked at, and a jump is in normal form already
  cases insn with
  | op op operand =>
    cases operand with
    | jump target =>
      cases far with
      | true => rfl
      | false =>
        show Layout.widenItem labels (offset, ⟨.op op (.jump target), index, false⟩) = _
        unfold Layout.widenItem
        dsimp only
        cases labels.distance offset target with
        | error e => rfl
        | ok distance =>
          show (if _ then _ else if _ then _ else _) = Except.map normalized (if _ then _ else _)
          split_ifs <;> rfl
    | none =>
      show Layout.widenItem labels (offset, ⟨Instruction.normalized (.op op .none), index, far⟩) = _
      refine Instruction.normalized_cases (P := fun insn other =>
        insn = .op op .none → Layout.widenItem labels (offset, ⟨other, index, far⟩)
          = .ok ⟨other, index, far⟩) ?_ ?_ ?_ (.op op .none) rfl
      · rintro _ executable rfl
        cases executable
      · exact fun _ _ _ _ _ => rfl
      · rintro _ _ - same
        cases same
        rfl
    | _ => rfl
  | _ => rfl

end Item

/-! ### Layouts -/

namespace Layout

/-- The layout with its instructions in normal form. -/
def normalized (layout : Layout) : Layout :=
  { layout with placed := layout.placed.map fun p => (p.1, p.2.normalized) }

theorem place_normalized (items : List Item) :
    place (items.map Item.normalized) = (place items).map normalized := by
  have general : ∀ offset placed,
      placeOnto offset (placed.map fun p : Placed => (p.1, p.2.normalized))
          (items.map Item.normalized)
        = (placeOnto offset placed items).map normalized := by
    induction items with
    | nil =>
      intro offset placed
      simp only [List.map_nil, placeOnto, Except.map, normalized, List.map_reverse]
    | cons item items ih =>
      intro offset placed
      rw [List.map_cons, placeOnto, placeOnto, Item.size_normalized]
      split
      · rfl
      · exact ih _ ((offset, item) :: placed)
  exact general 0 []

/-- What is made of marks is made of them in normal form, too. -/
theorem foldl_normalized {β : Type} (f : β → Placed → β)
    (other : ∀ (s : β) (offset : Nat) (item : Item), item.insn.isPseudo = false →
      f s (offset, item) = s) (placed : List Placed) (s : β) :
    (placed.map fun p => (p.1, p.2.normalized)).foldl f s = placed.foldl f s := by
  induction placed generalizing s with
  | nil => rfl
  | cons p placed ih =>
    rw [List.map_cons, List.foldl_cons, List.foldl_cons, ih]
    congr 1
    obtain ⟨offset, insn, index, far⟩ := p
    cases insn with
    | op op operand =>
      rw [other s offset ⟨.op op operand, index, far⟩ rfl]
      exact other s offset _ (Instruction.isPseudo_normalized (.op op operand))
    | _ => rfl

theorem labels_normalized (layout : Layout) : layout.normalized.labels = layout.labels := by
  refine foldl_normalized _ (fun table offset item executable => ?_) layout.placed ∅
  dsimp only
  split
  · next l same =>
    rw [same] at executable
    cases executable
  · rfl

theorem framesOf_normalized (layout : Layout) :
    Assembly.framesOf layout.normalized = Assembly.framesOf layout := by
  refine congrArg List.reverse ?_
  refine foldl_normalized _ (fun frames offset item executable => ?_) layout.placed []
  dsimp only
  split
  · next frame same =>
    rw [same] at executable
    cases executable
  · rfl

theorem widen_normalized (layout : Layout) :
    layout.normalized.widen = layout.widen.map (List.map Item.normalized) := by
  have each : ∀ labels (placed : List Placed),
      (placed.map fun p => (p.1, p.2.normalized)).mapM (widenItem labels)
        = (placed.mapM (widenItem labels)).map (List.map Item.normalized) := by
    intro labels placed
    induction placed with
    | nil => rfl
    | cons p placed ih =>
      obtain ⟨offset, item⟩ := p
      rw [List.map_cons, List.mapM_cons, List.mapM_cons, ih, Item.widenItem_normalized]
      cases widenItem labels (offset, item) with
      | error e => rfl
      | ok wide => cases placed.mapM (widenItem labels) <;> rfl
  unfold widen
  rw [labels_normalized]
  exact each layout.labels layout.placed

theorem narrowCount_normalized (items : List Item) :
    narrowCount (items.map Item.normalized) = narrowCount items := by
  unfold narrowCount
  rw [List.countP_map]
  rfl

/-- **Laid out the same**, after all rounds of widening. -/
theorem settle_normalized (items : List Item) :
    settle (items.map Item.normalized) = (settle items).map normalized := by
  fun_induction settle items with
  | case1 items e placed =>
    rw [settle, place_normalized, placed]
    rfl
  | case2 items layout placed e widened =>
    rw [settle, place_normalized, placed]
    dsimp only [Except.map]
    rw [widen_normalized, widened]
    rfl
  | case3 items layout placed wide widened fewer ih =>
    rw [settle, place_normalized, placed]
    dsimp only [Except.map]
    rw [widen_normalized, widened]
    dsimp only [Except.map]
    rw [narrowCount_normalized, narrowCount_normalized, if_pos fewer]
    exact ih
  | case4 items layout placed wide widened done =>
    rw [settle, place_normalized, placed]
    dsimp only [Except.map]
    rw [widen_normalized, widened]
    dsimp only [Except.map]
    rw [narrowCount_normalized, narrowCount_normalized, if_neg done]

theorem code_normalized {layout : Layout} {body : Bytes} (h : layout.code = .ok body) :
    layout.normalized.code = .ok body := by
  obtain ⟨chunks, each, h⟩ := Traverse.bind_eq_ok_iff.1 h
  refine Traverse.bind_eq_ok_iff.2 ⟨chunks, ?_, h⟩
  rw [Traverse.mapM_eq_ok_iff] at each ⊢
  rw [labels_normalized]
  exact List.forall₂_map_left_iff.2 (each.imp fun p chunk bytes => Item.bytes_normalized bytes)

end Layout

/-! ### Bodies -/

namespace Code

/-- The body with its instructions in normal form. -/
def normalized (code : Code) : Code :=
  { code with
    instructions := .ofList (code.instructions.toList.map Instruction.normalized)
      code.instructions.labelCount }

theorem toList_normalized (code : Code) : code.normalized.instructions.toList
    = code.instructions.toList.map Instruction.normalized := Sequence.toList_ofList _ _

theorem lines_normalized (insns : List Instruction) :
    lines (insns.map Instruction.normalized) = lines insns := by
  unfold lines
  rw [List.filterMap_map]
  refine List.filterMap_congr fun insn _ => ?_
  rw [Function.comp_apply]
  cases insn with
  | op op operand =>
    obtain ⟨_, _, same⟩ := Instruction.exists_op_normalized op operand
    rw [same]
  | _ => rfl

theorem mapM_toItem_normalized (insns : List Instruction) :
    (insns.map Instruction.normalized).mapM Instruction.toItem
      = List.map Item.normalized <$> insns.mapM Instruction.toItem := by
  induction insns with
  | nil => rfl
  | cons insn insns ih =>
    rw [List.map_cons, List.mapM_cons, List.mapM_cons, ih, Instruction.toItem_eq,
      Instruction.toItem_eq, Instruction.addConstants_normalized]
    simp only [← bind_pure_comp, bind_assoc, pure_bind]
    rfl

/-- **A body is written as its normal form is.** -/
theorem encode_normalized (code : Code) (major : UInt16) :
    Refines (code.encode major) (code.normalized.encode major) := by
  intro t bytes t' h
  obtain ⟨items, s, layout, body, behind, resolved, settled, emitted, written, rfl⟩ :=
    encode_eq_ok_iff.1 h
  refine encode_eq_ok_iff.2 ⟨items.map Item.normalized, s, layout.normalized, body, behind, ?_, ?_,
    Layout.code_normalized emitted, ?_, rfl⟩
  · rw [toList_normalized, mapM_toItem_normalized, ← bind_pure_comp, bind_eq_ok_iff]
    exact ⟨items, s, resolved, rfl⟩
  · rw [Layout.settle_normalized, settled]
    rfl
  · have lines' : encodeLines layout.labels code.normalized.instructions.toList
        = encodeLines layout.labels code.instructions.toList := by
      unfold encodeLines
      rw [toList_normalized, lines_normalized]
    unfold encodeBehind at written ⊢
    rw [Layout.labels_normalized, Layout.framesOf_normalized, lines']
    exact written

end Code

/-! ### What the normal form looks like -/

namespace Instruction

theorem legible_op {op : Opcode} {operand : Operand} :
    (Instruction.op op operand).Legible ↔ op.form? ≠ none ∧ operand.isEmptyTable = false :=
  ⟨fun legible => legible op operand rfl, fun legible _ _ same => by cases same; exact legible⟩

/-- The same instructions are legible. -/
theorem legible_normalized (insn : Instruction) : insn.normalized.Legible ↔ insn.Legible := by
  refine insn.normalized_cases (P := fun insn other => other.Legible ↔ insn.Legible)
    (fun _ _ => Iff.rfl) (fun op general v known => ?_) fun op operand _ => ?_
  · obtain ⟨form, -, -⟩ := Opcode.short_agrees known
    rw [legible_op, legible_op, known, form]
    simp [Operand.isEmptyTable]
  · rw [legible_op, legible_op, operand.isEmptyTable_canonical]

/-- The opcode and the kind of the operand, without what the operand holds. -/
def shape? : Instruction → Option (Opcode × Nat)
  | .op opcode operand => some (opcode, operand.ctorIdx)
  | _ => none

theorem shape?_sorted (insn : Instruction) : insn.sorted.shape? = insn.shape? := by
  cases insn with
  | op op operand => cases operand <;> rfl
  | _ => rfl

theorem shape?_mapLabels (f : Label → Label) (insn : Instruction) :
    (insn.mapLabels f).shape? = insn.shape? := by
  cases insn with
  | op op operand => cases operand <;> rfl
  | _ => rfl

/-- What has another shape in normal form is a byte that names a low variable. -/
theorem shape?_normalized_eq_iff (insn : Instruction) : insn.normalized.shape? = insn.shape?
    ↔ ∀ op general v, op.form? = some (.shortVariable general v) → insn ≠ .op op .none := by
  refine insn.normalized_cases (P := fun insn other => other.shape? = insn.shape?
    ↔ ∀ op general v, op.form? = some (.shortVariable general v) → insn ≠ .op op .none) ?_ ?_ ?_
  · rintro mark pseudo
    refine ⟨fun _ op general v _ same => ?_, fun _ => rfl⟩
    rw [same] at pseudo
    cases pseudo
  · intro op general v known
    exact ⟨fun same => (nomatch congrArg (Option.map Prod.snd) same),
      fun long => absurd rfl (long op general v known)⟩
  · intro op operand long
    refine ⟨fun _ op' general v known same => ?_, fun _ => by cases operand <;> rfl⟩
    cases same
    exact long rfl general v known

end Instruction

namespace Code

theorem ops_normalized (insns : List Instruction) :
    ops (insns.map Instruction.normalized) = (ops insns).map Instruction.normalized := by
  unfold ops
  rw [List.filter_map]
  congr 2
  funext insn
  rw [Function.comp_apply, insn.isPseudo_normalized]

theorem legible_normalized (code : Code) : code.normalized.Legible ↔ code.Legible := by
  unfold Legible
  rw [toList_normalized, ops_normalized, List.forall_mem_map, ne_eq, List.map_eq_nil_iff]
  simp only [Instruction.legible_normalized, ne_eq]

/-- **A body in normal form** has general opcodes and constants that can be found again. -/
theorem normal_normalized {code : Code} (shallow : ∀ op operand,
    .op op operand ∈ code.instructions.toList → operand.Shallow) : code.normalized.Normal := by
  have each : ∀ op operand, .op op operand ∈ code.normalized.instructions.toList →
      (operand = .none → ∀ general v, op.form? ≠ some (.shortVariable general v))
        ∧ operand.Representable := by
    intro op operand inside
    rw [toList_normalized] at inside
    obtain ⟨insn, original, same⟩ := List.mem_map.1 inside
    revert original same
    refine insn.normalized_cases (P := fun insn other => insn ∈ code.instructions.toList →
      other = .op op operand → (operand = .none → ∀ general v,
        op.form? ≠ some (.shortVariable general v)) ∧ operand.Representable) ?_ ?_ ?_
    · rintro _ pseudo - rfl
      cases pseudo
    · rintro _ _ v - - same
      cases same
      exact ⟨fun none => (nomatch none), trivial⟩
    · intro _ operand' long original same
      cases same
      refine ⟨fun none => long ?_, (shallow op operand' original).representable⟩
      cases operand' with
      | none => rfl
      | _ => cases none
  exact ⟨fun op general v short inside => (each op .none inside).1 rfl general v short,
    fun op operand inside => (each op operand inside).2⟩

/-! ### What comes back -/

/-- The opcodes of a body with the kinds of their operands. -/
def shapes (code : Code) : List (Opcode × Nat) :=
  code.instructions.toList.filterMap Instruction.shape?

theorem shapes_eq (insns : List Instruction) :
    insns.filterMap Instruction.shape? = (ops insns).filterMap Instruction.shape? := by
  unfold ops
  rw [List.filterMap_filter]
  refine List.filterMap_congr fun insn _ => ?_
  cases insn <;> rfl

/-- In normal form a body has the shapes it had, unless a byte in it names a low variable. -/
theorem shapes_normalized_eq_iff (code : Code) :
    code.normalized.shapes = code.shapes ↔ code.General := by
  unfold shapes General
  rw [toList_normalized]
  generalize code.instructions.toList = insns
  have pointwise : (insns.map Instruction.normalized).filterMap Instruction.shape?
        = insns.filterMap Instruction.shape?
      ↔ ∀ insn ∈ insns, insn.normalized.shape? = insn.shape? := by
    induction insns with
    | nil => simp
    | cons insn insns ih =>
      rw [List.map_cons, List.filterMap_cons, List.filterMap_cons, List.forall_mem_cons, ← ih]
      cases insn with
      | op op operand =>
        obtain ⟨_, _, same⟩ := Instruction.exists_op_normalized op operand
        rw [same]
        simp [Instruction.shape?]
      | _ => simp [Instruction.normalized, Instruction.shape?]
  rw [pointwise]
  simp only [Instruction.shape?_normalized_eq_iff]
  exact ⟨fun each op general v known inside => each _ inside op general v known rfl,
    fun long insn inside op general v known same => long op general v known (same ▸ inside)⟩

section Written

variable {major : UInt16} {code : Code} {bytes : Bytes} {t : ConstantTables} {items : List Item}
  {layout : Layout} {body behind : Bytes} {header : MethodHeader}

/-- **What is read of a body in normal form has the same shapes.** -/
theorem shapes_of_decode (written : Written major code bytes t items layout body behind)
    (typed : ∀ frame, .frame frame ∈ code.instructions.toList →
      ∃ entry, header.entryFrame = .ok entry) (normal : code.Normal) {code' : Code}
    (read : decode t.pool t.bootstrap header .all bytes = .ok code') :
    code'.shapes = code.shapes := by
  have legible := (written.isOk_decode_iff typed normal).1 ⟨code', read⟩
  obtain ⟨entry, whole⟩ := written.decode_eq_assemble typed normal legible
  obtain ⟨code'', put, insns⟩ := written.exists_assemble entry
  cases read.symm.trans (whole.trans put)
  unfold shapes
  rw [insns, shapes_eq, written.laid.ops_reread, shapes_eq code.instructions.toList,
    List.filterMap_map]
  refine List.filterMap_congr fun insn _ => ?_
  rw [Function.comp_apply, Instruction.shape?_mapLabels, Instruction.shape?_mapLabels,
    insn.shape?_sorted]

end Written

end Code

end ClassInstrument
