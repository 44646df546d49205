import ClassInstrument.Proofs.Code.Boundaries
import ClassInstrument.Proofs.Code.Canonical

/-!
# Layouts of bodies that say the same

Marks take no bytes, and an instruction takes as many whatever its labels are called.  So two bodies
whose instructions say the same are laid out at the same offsets, the same jumps are widened in both,
and their code has the same bytes.

* `Layout.bare` — what is executed, without marks;
* `Item.Alike` — two instructions that say the same;
* `Layout.place_alike`, `Layout.widen_alike` — one round of laying out and widening;
* `Layout.settle_alike` — **the same offsets**, after all rounds;
* `Layout.code_alike` — **the same bytes**.
-/

namespace ClassInstrument

open Traverse

/-! ### Labels that stand for the same -/

/-- A table with the offsets that some labels are to have. -/
def LabelTable.of (g : Label → Nat) : List Label → LabelTable
  | [] => ∅
  | l :: ls => (LabelTable.of g ls).insert l (g l)

theorem LabelTable.offset_of {g : Label → Nat} {ls : List Label} {l : Label} (h : l ∈ ls) :
    (LabelTable.of g ls).offset l = .ok (g l) := by
  induction ls with
  | nil => cases h
  | cons m ls ih =>
    unfold LabelTable.offset at ih ⊢
    rw [LabelTable.of, Std.HashMap.getElem?_insert]
    by_cases same : m = l
    · rw [if_pos (beq_iff_eq.2 same), same]
    · rw [if_neg (mt beq_iff_eq.1 same)]
      exact ih ((List.mem_cons.1 h).resolve_left (Ne.symm same))

/-- The labels of an instruction are at offsets that depend only on what they stand for. -/
def LabelTable.Knows (labels : LabelTable) (f : Label → Label) (g : Label → Nat)
    (insn : Instruction) : Prop :=
  ∀ l ∈ insn.targets, labels.offset l = .ok (g (f l))

/-- The target of a jump. -/
def Operand.jump? : Operand → Option Label
  | .jump target => some target
  | _ => Option.none

theorem Operand.jump?_canonical (operand : Operand) : operand.canonical.jump? = operand.jump? := by
  cases operand <;> rfl

theorem Operand.jump?_mapLabels (f : Label → Label) (operand : Operand) :
    (operand.mapLabels f).jump? = operand.jump?.map f := by
  cases operand <;> rfl

theorem Operand.mem_targets_canonical {operand : Operand} {l : Label} :
    l ∈ operand.canonical.targets ↔ l ∈ operand.targets := by
  rw [targets_canonical, mem_targets_sorted]

namespace Item

/-- Two items that say the same, where `f` and `f'` tell what labels stand for. -/
structure Alike (f f' : Label → Label) (a b : Item) : Prop where
  insn : (b.insn.mapLabels f').canonical = (a.insn.mapLabels f).canonical
  index : b.index = a.index
  far : b.far = a.far

variable {f f' : Label → Label} {a b : Item}

/-- Two executable items have one opcode, and their operands say the same. -/
theorem Alike.exists_op (h : Alike f f' a b) {op : Opcode} {operand : Operand}
    (same : a.insn = .op op operand) : ∃ operand', b.insn = .op op operand'
      ∧ (operand'.mapLabels f').canonical = (operand.mapLabels f).canonical := by
  have insn := h.insn
  rw [same] at insn
  cases known : b.insn with
  | op op' operand' =>
    rw [known] at insn
    obtain ⟨rfl, said⟩ := Instruction.op.inj insn
    exact ⟨operand', rfl, said⟩
  | _ =>
    rw [known] at insn
    cases insn

/-- **Both take the same number of bytes.** -/
theorem Alike.size (h : Alike f f' a b) (executable : a.insn.isPseudo = false) (offset : Nat) :
    b.size offset = a.size offset := by
  cases known : a.insn with
  | op op operand =>
    obtain ⟨operand', known', same⟩ := h.exists_op known
    unfold Item.size
    rw [known, known', h.index, h.far]
    dsimp only
    calc opSize offset a.index a.far op operand'
        = opSize offset a.index a.far op (operand'.mapLabels f').canonical := by
          rw [opSize_canonical, opSize_mapLabels]
      _ = opSize offset a.index a.far op operand := by
          rw [same, opSize_canonical, opSize_mapLabels]
  | _ =>
    rw [known] at executable
    cases executable

variable {labels labels' : LabelTable} {g : Label → Nat} {offset : Nat}

/-- What is no narrow jump stays as it is. -/
theorem widenItem_of_ne_jump {op : Opcode} {operand : Operand} {index : UInt16} {far : Bool}
    (other : ¬∃ target, operand = .jump target ∧ far = false) :
    Layout.widenItem labels (offset, ⟨.op op operand, index, far⟩)
      = .ok ⟨.op op operand, index, far⟩ := by
  unfold Layout.widenItem
  split
  · next heq =>
    cases heq
    exact absurd ⟨_, rfl, rfl⟩ other
  · next heq =>
    cases heq
    rfl

/-- Jumps of one distance are both widened, or none of them. -/
theorem widenItem_jump_alike {op : Opcode} {index : UInt16} {target target' : Label}
    (h : Alike f f' ⟨.op op (.jump target), index, false⟩ ⟨.op op (.jump target'), index, false⟩)
    (place : labels'.offset target' = labels.offset target) {wide : Item}
    (widened : Layout.widenItem labels (offset, ⟨.op op (.jump target), index, false⟩) = .ok wide) :
    ∃ wide', Layout.widenItem labels' (offset, ⟨.op op (.jump target'), index, false⟩) = .ok wide'
      ∧ Alike f f' wide wide' := by
  unfold Layout.widenItem at widened ⊢
  dsimp only at widened ⊢
  rw [distance_congr place]
  obtain ⟨distance, near, widened⟩ := bind_eq_ok_iff.1 widened
  rw [near]
  show ∃ wide', (if fitsShort distance = true then _ else _) = _ ∧ _
  split at widened
  · next fits =>
    cases widened
    exact ⟨_, if_pos fits, h⟩
  · next fits =>
    rw [if_neg fits]
    split at widened
    · next form =>
      cases widened
      exact ⟨_, if_pos form, h.insn, rfl, rfl⟩
    · cases widened

/-- **Both are widened, or none of them.** -/
theorem widenItem_alike (h : Alike f f' a b) (executable : a.insn.isPseudo = false)
    (known : labels.Knows f g a.insn) (known' : labels'.Knows f' g b.insn) {wide : Item}
    (widened : Layout.widenItem labels (offset, a) = .ok wide) :
    ∃ wide', Layout.widenItem labels' (offset, b) = .ok wide' ∧ Alike f f' wide wide' := by
  obtain ⟨insn, index, far⟩ := a
  obtain ⟨insn', index', far'⟩ := b
  cases insn with
  | op op operand =>
    obtain ⟨operand', rfl, same⟩ := h.exists_op rfl
    obtain rfl : far' = far := h.far
    obtain rfl : index' = index := h.index
    have jumps := congrArg Operand.jump? same
    rw [Operand.jump?_canonical, Operand.jump?_canonical, Operand.jump?_mapLabels,
      Operand.jump?_mapLabels] at jumps
    by_cases jump : ∃ target, operand = .jump target ∧ far' = false
    · obtain ⟨target, rfl, rfl⟩ := jump
      obtain ⟨target', rfl⟩ : ∃ target', operand' = .jump target' := by
        cases operand' with
        | jump target' => exact ⟨target', rfl⟩
        | _ => cases jumps
      refine widenItem_jump_alike h ?_ widened
      rw [known' target' List.mem_cons_self, known target List.mem_cons_self, Option.some.inj jumps]
    · rw [widenItem_of_ne_jump jump] at widened
      cases widened
      refine ⟨_, widenItem_of_ne_jump ?_, h⟩
      rintro ⟨target', rfl, narrow⟩
      cases operand with
      | jump target => exact jump ⟨target, rfl, narrow⟩
      | _ => cases jumps
  | _ => cases executable

/-- **Both have the same bytes.** -/
theorem bytes_alike (h : Alike f f' a b) (executable : a.insn.isPseudo = false)
    (known : labels.Knows f g a.insn) (known' : labels'.Knows f' g b.insn) {bytes : Bytes}
    (written : Item.bytes labels (offset, a) = .ok bytes) :
    Item.bytes labels' (offset, b) = .ok bytes := by
  obtain ⟨insn, index, far⟩ := a
  obtain ⟨insn', index', far'⟩ := b
  cases insn with
  | op op operand =>
    obtain ⟨operand', rfl, same⟩ := h.exists_op rfl
    obtain rfl : far' = far := h.far
    obtain rfl : index' = index := h.index
    -- Both are compared with the operand in which labels are what they stand for.
    let table := LabelTable.of g (operand.mapLabels f).targets
    have first : ∀ l ∈ operand.targets, table.offset (f l) = labels.offset l := by
      intro l member
      rw [known l member]
      refine LabelTable.offset_of ?_
      rw [Operand.targets_mapLabels]
      exact List.mem_map_of_mem member
    have second : ∀ l ∈ operand'.targets, table.offset (f' l) = labels'.offset l := by
      intro l member
      rw [known' l member]
      refine LabelTable.offset_of ?_
      rw [← Operand.mem_targets_canonical, ← same, Operand.mem_targets_canonical,
        Operand.targets_mapLabels]
      exact List.mem_map_of_mem member
    have named := opBytes_canonical.2 ((opBytes_mapLabels first).2 written)
    rw [← same] at named
    exact (opBytes_mapLabels second).1 (opBytes_canonical.1 named)
  | _ => cases executable

end Item

/-! ### Without marks -/

namespace Layout

/-- The items that are executed. -/
def bare (items : List Item) : List Item := items.filter fun item => !item.insn.isPseudo

/-- The items that are executed, in their places. -/
def barePlaced (placed : List Placed) : List Placed :=
  placed.filter fun p => !p.2.insn.isPseudo

theorem starts_eq (placed : List Placed) : starts placed = (barePlaced placed).map Prod.fst := by
  induction placed with
  | nil => rfl
  | cons p placed ih =>
    obtain ⟨offset, insn, index, far⟩ := p
    cases insn with
    | op op operand =>
      show offset :: starts placed = offset :: (barePlaced placed).map Prod.fst
      rw [ih]
    | _ => exact ih

theorem map_snd_barePlaced (placed : List Placed) :
    (barePlaced placed).map Prod.snd = bare (placed.map Prod.snd) := by
  unfold bare barePlaced
  rw [List.filter_map]
  rfl

theorem mem_barePlaced {placed : List Placed} {p : Placed} (h : p ∈ barePlaced placed) :
    p ∈ placed ∧ p.2.insn.isPseudo = false := by
  obtain ⟨member, executable⟩ := List.mem_filter.1 h
  exact ⟨member, by simpa using executable⟩

/-- Results for the items that are executed, out of those for all. -/
theorem forall₂_bare {β : Type} {R : Placed → β → Prop} {pseudo : β → Bool} {placed : List Placed}
    {results : List β} (h : List.Forall₂ R placed results)
    (same : ∀ p r, R p r → pseudo r = p.2.insn.isPseudo) :
    List.Forall₂ R (barePlaced placed) (results.filter fun r => !pseudo r) := by
  induction h with
  | nil => exact .nil
  | @cons p r placed results first _ ih =>
    have here := same p r first
    unfold barePlaced at ih ⊢
    cases executable : p.2.insn.isPseudo with
    | true =>
      rw [List.filter_cons_of_neg (by simp [executable]),
        List.filter_cons_of_neg (by simp [here, executable])]
      exact ih
    | false =>
      rw [List.filter_cons_of_pos (by simp [executable]),
        List.filter_cons_of_pos (by simp [here, executable])]
      exact .cons first ih

/-- Results for all items, out of those for the ones that are executed. -/
theorem forall₂_fill {β : Type} {R : Placed → β → Prop} {placed : List Placed} {core : List β}
    (h : List.Forall₂ R (barePlaced placed) core) (mark : Placed → β)
    (marks : ∀ p ∈ placed, p.2.insn.isPseudo = true → R p (mark p)) :
    ∃ results, List.Forall₂ R placed results
      ∧ ∀ (P : β → Bool), (∀ r ∈ core, P r = true) →
        (∀ p ∈ placed, p.2.insn.isPseudo = true → P (mark p) = false) → results.filter P = core := by
  induction placed generalizing core with
  | nil =>
    cases h
    exact ⟨[], .nil, fun _ _ _ => rfl⟩
  | cons p placed ih =>
    unfold barePlaced at h ih
    cases executable : p.2.insn.isPseudo with
    | true =>
      rw [List.filter_cons_of_neg (by simp [executable])] at h
      obtain ⟨results, each, filtered⟩ := ih h fun q hq => marks q (List.mem_cons_of_mem _ hq)
      refine ⟨mark p :: results, .cons (marks p List.mem_cons_self executable) each,
        fun P kept left => ?_⟩
      rw [List.filter_cons_of_neg (by simp [left p List.mem_cons_self executable])]
      exact filtered P kept fun q hq => left q (List.mem_cons_of_mem _ hq)
    | false =>
      rw [List.filter_cons_of_pos (by simp [executable])] at h
      cases h with
      | @cons _ r _ core first rest =>
        obtain ⟨results, each, filtered⟩ := ih rest fun q hq => marks q (List.mem_cons_of_mem _ hq)
        refine ⟨r :: results, .cons first each, fun P kept left => ?_⟩
        rw [List.filter_cons_of_pos (kept r List.mem_cons_self),
          filtered P (fun r hr => kept r (List.mem_cons_of_mem _ hr)) fun q hq =>
            left q (List.mem_cons_of_mem _ hq)]

/-! ### Placing -/

variable {f f' : Label → Label}

/-- Two items at one offset that say the same. -/
def PlacedAlike (f f' : Label → Label) (p q : Placed) : Prop := q.1 = p.1 ∧ Item.Alike f f' p.2 q.2

theorem Chained.bare {offset finish : Nat} {placed : List Placed}
    (h : Chained offset placed finish) : Chained offset (barePlaced placed) finish := by
  induction h with
  | nil => exact .nil _
  | @cons offset finish item placed _ ih =>
    obtain ⟨insn, index, far⟩ := item
    cases insn with
    | op op operand => exact .cons ih
    | _ => exact ih

/-- Marks between items that stand one behind the other. -/
theorem Chained.fill {offset finish : Nat} {core : List Placed} (h : Chained offset core finish)
    {items : List Item} (same : core.map Prod.snd = Layout.bare items) :
    ∃ placed, placed.map Prod.snd = items ∧ barePlaced placed = core
      ∧ Chained offset placed finish := by
  induction items generalizing offset core with
  | nil =>
    obtain rfl := List.map_eq_nil_iff.1 same
    exact ⟨[], rfl, rfl, h⟩
  | cons item items ih =>
    obtain ⟨insn, index, far⟩ := item
    cases insn with
    | op op operand =>
      cases h with
      | nil => cases same
      | @cons _ _ other core rest =>
        obtain ⟨rfl, others⟩ := List.cons.inj
          (show other :: core.map Prod.snd = _ :: Layout.bare items from same)
        obtain ⟨placed, rfl, rfl, chained⟩ := ih rest others
        exact ⟨(offset, _) :: placed, rfl, rfl, .cons chained⟩
    | _ =>
      obtain ⟨placed, rfl, rfl, chained⟩ := ih h same
      exact ⟨(offset, _) :: placed, rfl, rfl, .cons chained⟩

/-- Items that say the same stand at the same offsets. -/
theorem Chained.alike {offset finish : Nat} {core : List Placed} (h : Chained offset core finish)
    (executable : ∀ p ∈ core, p.2.insn.isPseudo = false) {items : List Item}
    (alike : List.Forall₂ (Item.Alike f f') (core.map Prod.snd) items) :
    ∃ core', core'.map Prod.snd = items ∧ List.Forall₂ (PlacedAlike f f') core core'
      ∧ Chained offset core' finish := by
  induction h generalizing items with
  | nil =>
    cases alike
    exact ⟨[], rfl, .nil, .nil _⟩
  | @cons offset finish item core rest ih =>
    cases alike with
    | @cons _ item' _ items first others =>
      have size := first.size (executable _ List.mem_cons_self) offset
      obtain ⟨core', rfl, each, chained⟩ :=
        ih (fun p hp => executable p (List.mem_cons_of_mem _ hp)) others
      rw [← size] at chained
      exact ⟨(offset, item') :: core', rfl, .cons ⟨rfl, first⟩ each, .cons chained⟩

/-- Items that stand one behind the other are placed as they stand. -/
theorem place_of_chained (layout : Layout) (chained : Chained 0 layout.placed layout.length)
    (short : layout.length ≤ maxLength) : place (layout.placed.map Prod.snd) = .ok layout := by
  have general : ∀ {offset finish : Nat} {placed : List Placed}, Chained offset placed finish →
      finish ≤ maxLength → ∀ front,
        placeOnto offset front (placed.map Prod.snd) = .ok ⟨front.reverse ++ placed, finish⟩ := by
    intro offset finish placed chained short
    induction chained with
    | nil =>
      intro front
      rw [List.map_nil, placeOnto, List.append_nil]
    | @cons offset finish item placed rest ih =>
      intro front
      have le := rest.le
      rw [List.map_cons, placeOnto]
      dsimp only
      rw [if_neg (by omega), ih short ((offset, item) :: front), List.reverse_cons,
        List.append_assoc]
      rfl
  exact general chained short []

/-- **Bodies that say the same are placed alike.** -/
theorem place_alike {items items' : List Item}
    (alike : List.Forall₂ (Item.Alike f f') (bare items) (bare items')) {layout : Layout}
    (h : place items = .ok layout) :
    ∃ layout', place items' = .ok layout' ∧ layout'.length = layout.length
      ∧ List.Forall₂ (PlacedAlike f f') (barePlaced layout.placed) (barePlaced layout'.placed) := by
  obtain ⟨same, chained, short⟩ := place_spec h
  rw [← same, ← map_snd_barePlaced] at alike
  obtain ⟨core, coreItems, each, coreChained⟩ :=
    chained.bare.alike (fun p member => (mem_barePlaced member).2) alike
  obtain ⟨placed, rfl, rfl, chained'⟩ := coreChained.fill coreItems
  exact ⟨⟨placed, layout.length⟩, place_of_chained ⟨placed, layout.length⟩ chained' short, rfl,
    each⟩

theorem boundary_alike {layout layout' : Layout} (length : layout'.length = layout.length)
    (each : List.Forall₂ (PlacedAlike f f') (barePlaced layout.placed) (barePlaced layout'.placed)) :
    starts layout'.placed = starts layout.placed
      ∧ boundary layout'.placed layout'.length = boundary layout.placed layout.length := by
  have same : starts layout'.placed = starts layout.placed := by
    rw [starts_eq, starts_eq]
    generalize barePlaced layout.placed = core, barePlaced layout'.placed = core' at each
    induction each with
    | nil => rfl
    | cons first _ ih => rw [List.map_cons, List.map_cons, ih, first.1]
  refine ⟨same, ?_⟩
  funext k
  unfold boundary
  rw [same, length]

/-! ### Bodies side by side -/

/-- The offset of a label that is placed is that of what it stands for. -/
theorem offset_eq {layout : Layout} (chained : Chained 0 layout.placed layout.length) {l : Label}
    (there : l ∈ Steps.labelsOf (insns layout.placed)) :
    layout.labels.offset l = .ok (boundary layout.placed layout.length
      (Code.place (insns layout.placed) l).index) := by
  obtain ⟨k, position⟩ := Option.isSome_iff_exists.1 (Steps.isSome_positionOf?.2 there)
  unfold LabelTable.offset Code.place
  rw [getElem?_labels chained, position]
  rfl

/-- All labels that instructions refer to are placed. -/
def Named (insns : List Instruction) : Prop :=
  ∀ insn ∈ insns, ∀ l ∈ insn.targets, l ∈ Steps.labelsOf insns

theorem knows_of_named {layout : Layout} (chained : Chained 0 layout.placed layout.length)
    (named : Named (insns layout.placed)) {p : Placed} (member : p ∈ layout.placed) :
    layout.labels.Knows (Code.place (insns layout.placed))
      (fun l => boundary layout.placed layout.length l.index) p.2.insn := fun l target =>
  offset_eq chained (named p.2.insn (List.mem_map_of_mem member) l target)

/-- Two layouts of bodies, with what is executed alike and at the same offsets. -/
structure LayoutsAlike (body body' : List Instruction) (layout layout' : Layout) : Prop where
  own : insns layout.placed = body
  own' : insns layout'.placed = body'
  chained : Chained 0 layout.placed layout.length
  chained' : Chained 0 layout'.placed layout'.length
  length : layout'.length = layout.length
  each : List.Forall₂ (PlacedAlike (Code.place body) (Code.place body')) (barePlaced layout.placed)
    (barePlaced layout'.placed)

section Results

variable {body body' : List Instruction} {layout layout' : Layout} {β γ : Type}
  {R : Placed → β → Prop} {S : Placed → γ → Prop} {T : β → γ → Prop}

/-- **What is made of the items of one body is made of those of the other**, step by step. -/
theorem LayoutsAlike.exists_results (h : LayoutsAlike body body' layout layout')
    (named : Named body) (named' : Named body')
    (step : ∀ g offset a b r, Item.Alike (Code.place body) (Code.place body') a b →
      a.insn.isPseudo = false → layout.labels.Knows (Code.place body) g a.insn →
      layout'.labels.Knows (Code.place body') g b.insn → R (offset, a) r →
      ∃ s, T r s ∧ S (offset, b) s)
    {results : List β} (rows : List.Forall₂ R (barePlaced layout.placed) results) :
    ∃ results', List.Forall₂ T results results'
      ∧ List.Forall₂ S (barePlaced layout'.placed) results' := by
  obtain ⟨rfl, rfl, chained, chained', length, each⟩ := h
  obtain ⟨-, boundaries⟩ := boundary_alike length each
  have inside := (List.forall₂_and_left _ _).2
    ⟨fun p (member : p ∈ barePlaced layout.placed) => mem_barePlaced member, each⟩
  have inside' := (List.forall₂_and_left _ _).2
    ⟨fun q (member : q ∈ barePlaced layout'.placed) => (mem_barePlaced member).1, inside.flip⟩
  refine Traverse.forall₂_exists (Traverse.forall₂_trans ?_ rows.flip inside'.flip)
  rintro r ⟨offset, a⟩ ⟨offset', b⟩ row ⟨member', ⟨member, executable⟩, same, alike⟩
  obtain rfl : offset' = offset := same
  have known' := knows_of_named chained' named' member'
  rw [boundaries] at known'
  exact step _ _ _ _ _ alike executable (knows_of_named chained named member) known' row

end Results

/-! ### Widening -/

theorem narrowCount_alike {items items' : List Item}
    (h : List.Forall₂ (Item.Alike f f') items items') : narrowCount items' = narrowCount items := by
  unfold narrowCount
  induction h with
  | nil => rfl
  | cons first _ ih => rw [List.countP_cons, List.countP_cons, ih, first.far]

/-- Marks stay as they are. -/
theorem widenItem_mark {labels : LabelTable} {p : Placed} (mark : p.2.insn.isPseudo = true) :
    widenItem labels p = .ok p.2 := by
  obtain ⟨offset, insn, index, far⟩ := p
  cases insn with
  | op op operand => cases mark
  | _ => rfl

theorem insn_of_widenItem {labels : LabelTable} {p : Placed} {item : Item}
    (h : widenItem labels p = .ok item) : item.insn = p.2.insn := by
  rcases widenItem_spec h with ⟨rfl, -⟩ | ⟨rfl, -, -⟩ <;> rfl

/-- Whether a round widens anything can be told without the marks. -/
theorem narrowCount_bare {labels : LabelTable} {placed : List Placed} {widened : List Item}
    (h : List.Forall₂ (fun p item => widenItem labels p = .ok item) placed widened) :
    narrowCount widened + narrowCount (bare (placed.map Prod.snd))
      = narrowCount (placed.map Prod.snd) + narrowCount (bare widened) := by
  unfold narrowCount bare
  induction h with
  | nil => rfl
  | @cons p item placed widened first _ ih =>
    have same := insn_of_widenItem first
    rw [List.map_cons, List.countP_cons, List.countP_cons]
    cases executable : p.2.insn.isPseudo with
    | true =>
      rw [widenItem_mark executable] at first
      cases first
      rw [List.filter_cons_of_neg (by simp [executable]),
        List.filter_cons_of_neg (by simp [executable])]
      omega
    | false =>
      rw [List.filter_cons_of_pos (by simp [executable]),
        List.filter_cons_of_pos (by simp [same, executable]), List.countP_cons, List.countP_cons]
      omega

theorem insns_of_widen {layout : Layout} {widened : List Item} (h : layout.widen = .ok widened) :
    widened.map Item.insn = insns layout.placed := by
  have each := mapM_eq_ok_iff.1 h
  unfold insns
  clear h
  generalize layout.placed = placed at each
  induction each with
  | nil => rfl
  | cons first _ ih => rw [List.map_cons, List.map_cons, ih, insn_of_widenItem first]

/-- **Bodies that say the same are widened alike.** -/
theorem widen_alike {body body' : List Instruction} (named : Named body) (named' : Named body')
    {layout layout' : Layout} (alike : LayoutsAlike body body' layout layout')
    {widened : List Item} (h : layout.widen = .ok widened) :
    ∃ widened', layout'.widen = .ok widened'
      ∧ List.Forall₂ (Item.Alike (Code.place body) (Code.place body')) (bare widened)
        (bare widened') := by
  have executed : ∀ p item, widenItem layout.labels p = .ok item →
      item.insn.isPseudo = p.2.insn.isPseudo := fun p item row => by rw [insn_of_widenItem row]
  obtain ⟨core', alikes, rows'⟩ := alike.exists_results
    (S := fun q item => widenItem layout'.labels q = .ok item) named named'
    (fun g offset a b wide said executable known known' row =>
      (Item.widenItem_alike said executable known known' row).imp fun wide' both => both.symm)
    (forall₂_bare (mapM_eq_ok_iff.1 h) executed)
  obtain ⟨widened', all, filtered⟩ := forall₂_fill rows' Prod.snd
    fun p _ mark => widenItem_mark mark
  refine ⟨widened', mapM_eq_ok_iff.2 all, ?_⟩
  rw [bare, bare, filtered]
  · exact alikes
  · intro item member
    obtain ⟨p, there, row⟩ := exists_of_mem_right rows' member
    rw [insn_of_widenItem row, (mem_barePlaced there).2]
    rfl
  · intro p _ mark
    rw [mark]
    rfl

/-! ### Settling -/

theorem insns_of_place {items : List Item} {layout : Layout} (h : place items = .ok layout) :
    insns layout.placed = items.map Item.insn := by
  rw [← (place_spec h).1, List.map_map]
  rfl

section Settling

variable {body body' : List Instruction} (named : Named body) (named' : Named body')

/-- The items of two bodies, those that are executed alike. -/
structure ItemsAlike (body body' : List Instruction) (items items' : List Item) : Prop where
  own : items.map Item.insn = body
  own' : items'.map Item.insn = body'
  alike : List.Forall₂ (Item.Alike (Code.place body) (Code.place body')) (bare items) (bare items')

include named named' in
/-- **One round for both**: both are widened, or both are done. -/
theorem round_alike {items items' widened : List Item} (h : ItemsAlike body body' items items')
    {layout : Layout} (hplace : place items = .ok layout) (hwiden : layout.widen = .ok widened) :
    ∃ layout' widened', place items' = .ok layout' ∧ layout'.widen = .ok widened'
      ∧ LayoutsAlike body body' layout layout' ∧ ItemsAlike body body' widened widened'
      ∧ (narrowCount widened' < narrowCount items' ↔ narrowCount widened < narrowCount items) := by
  obtain ⟨own, own', alike⟩ := h
  obtain ⟨layout', hplace', length, each⟩ := place_alike alike hplace
  obtain ⟨placed, chained, -⟩ := place_spec hplace
  obtain ⟨placed', chained', -⟩ := place_spec hplace'
  obtain rfl : insns layout.placed = body := (insns_of_place hplace).trans own
  obtain rfl : insns layout'.placed = body' := (insns_of_place hplace').trans own'
  have layouts : LayoutsAlike _ _ layout layout' := ⟨rfl, rfl, chained, chained', length, each⟩
  obtain ⟨widened', hwiden', round⟩ := widen_alike named named' layouts hwiden
  refine ⟨layout', widened', hplace', hwiden', layouts,
    ⟨insns_of_widen hwiden, insns_of_widen hwiden', round⟩, ?_⟩
  have count := narrowCount_bare (mapM_eq_ok_iff.1 hwiden)
  have count' := narrowCount_bare (mapM_eq_ok_iff.1 hwiden')
  rw [placed] at count
  rw [placed'] at count'
  have before := narrowCount_alike alike
  have after := narrowCount_alike round
  omega

include named named' in
/-- **Bodies that say the same settle alike.** -/
theorem settle_alike {items items' : List Item} (alike : ItemsAlike body body' items items')
    {layout : Layout} (h : settle items = .ok layout) :
    ∃ layout', settle items' = .ok layout' ∧ LayoutsAlike body body' layout layout' := by
  fun_induction settle items generalizing items' with
  | case1 items e hplace => cases h
  | case2 items placed hplace e hwiden => cases h
  | case3 items placed hplace widened hwiden fewer ih =>
    obtain ⟨placed', widened', hplace', hwiden', -, round, rounds⟩ :=
      round_alike named named' alike hplace hwiden
    obtain ⟨layout', settled, same⟩ := ih round h
    refine ⟨layout', ?_, same⟩
    rw [settle, hplace']
    dsimp only
    rw [hwiden']
    dsimp only
    rw [if_pos (rounds.2 fewer), settled]
  | case4 items placed hplace widened hwiden done =>
    cases h
    obtain ⟨layout', widened', hplace', hwiden', same, -, rounds⟩ :=
      round_alike named named' alike hplace hwiden
    refine ⟨layout', ?_, same⟩
    rw [settle, hplace']
    dsimp only
    rw [hwiden']
    dsimp only
    rw [if_neg (mt rounds.1 done)]

end Settling

/-! ### Bytes -/

/-- Marks add nothing to the bytes of a body. -/
theorem code_eq_ok_iff {layout : Layout} {body : Bytes} :
    layout.code = .ok body ↔ ∃ chunks,
      List.Forall₂ (fun p chunk => Item.bytes layout.labels p = .ok chunk)
        (barePlaced layout.placed) chunks ∧ chunks.flatten = body := by
  unfold Layout.code
  generalize layout.labels = labels, layout.placed = placed
  constructor
  · intro h
    obtain ⟨chunks, rows, h⟩ := bind_eq_ok_iff.1 h
    cases h
    have each := mapM_eq_ok_iff.1 rows
    clear h rows
    induction each with
    | nil => exact ⟨[], .nil, rfl⟩
    | @cons p chunk placed chunks first _ ih =>
      obtain ⟨core, inner, same⟩ := ih
      obtain ⟨offset, insn, index, far⟩ := p
      cases insn with
      | op op operand => exact ⟨chunk :: core, .cons first inner, congrArg (chunk ++ ·) same⟩
      | _ =>
        cases first
        exact ⟨core, inner, same⟩
  · rintro ⟨core, each, rfl⟩
    have rows : ∃ chunks, placed.mapM (Item.bytes labels) = .ok chunks
        ∧ chunks.flatten = core.flatten := by
      simp only [mapM_eq_ok_iff]
      induction placed generalizing core with
      | nil =>
        cases each
        exact ⟨[], .nil, rfl⟩
      | cons p placed ih =>
        obtain ⟨offset, insn, index, far⟩ := p
        cases insn with
        | op op operand =>
          cases each with
          | @cons _ chunk _ core first inner =>
            obtain ⟨chunks, rows, same⟩ := ih core inner
            exact ⟨chunk :: chunks, .cons first rows, congrArg (chunk ++ ·) same⟩
        | _ =>
          obtain ⟨chunks, rows, same⟩ := ih core each
          exact ⟨[] :: chunks, .cons rfl rows, same⟩
    obtain ⟨chunks, rows, same⟩ := rows
    exact bind_eq_ok_iff.2 ⟨chunks, rows, congrArg Except.ok same⟩

/-- **Bodies that say the same have the same bytes.** -/
theorem code_alike {body body' : List Instruction} (named : Named body) (named' : Named body')
    {layout layout' : Layout} (h : LayoutsAlike body body' layout layout') {bytes : Bytes}
    (written : layout.code = .ok bytes) : layout'.code = .ok bytes := by
  obtain ⟨chunks, rows, same⟩ := code_eq_ok_iff.1 written
  obtain ⟨chunks', equal, rows'⟩ := h.exists_results (T := Eq)
    (S := fun q chunk => Item.bytes layout'.labels q = .ok chunk) named named'
    (fun g offset a b chunk said executable known known' row =>
      ⟨chunk, rfl, Item.bytes_alike said executable known known' row⟩) rows
  rw [List.forall₂_eq_eq_eq] at equal
  rw [equal] at same
  exact code_eq_ok_iff.2 ⟨chunks', rows', same⟩

end Layout

end ClassInstrument
