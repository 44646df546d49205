import ClassInstrument.Code.Layout
import ClassInstrument.Proofs.Bytes.Traverse

/-!
# Layouts that settle

Jumps are widened and laid out again until every distance fits.  Whatever the number of rounds,
the layout that comes out has the items that went in, one behind the other, and nothing is wide
that has no wide form.

* `Layout.Chained` — items stand one behind the other;
* `Layout.place_spec` — laying out places all items;
* `Layout.Settled` — what is known of a layout whose distances fit;
* `Layout.settle_spec` — **every layout that is given has these properties**.
-/

namespace ClassInstrument.Layout

open Traverse

/-! ### Placing -/

/-- Items stand one behind the other from an offset to the end. -/
inductive Chained : Nat → List Placed → Nat → Prop where
  | nil (offset : Nat) : Chained offset [] offset
  | cons {offset finish : Nat} {item : Item} {placed : List Placed}
    (rest : Chained (offset + item.size offset) placed finish) :
    Chained offset ((offset, item) :: placed) finish

theorem Chained.le {offset finish : Nat} {placed : List Placed}
    (h : Chained offset placed finish) : offset ≤ finish := by
  induction h with
  | nil => exact Nat.le_refl _
  | cons _ ih => omega

theorem placeOnto_spec {items : List Item} {offset : Nat} {placed : List Placed} {layout : Layout}
    (inside : offset ≤ maxLength) (h : placeOnto offset placed items = .ok layout) :
    ∃ behind, layout.placed = placed.reverse ++ behind ∧ behind.map Prod.snd = items
      ∧ Chained offset behind layout.length ∧ layout.length ≤ maxLength := by
  induction items generalizing offset placed with
  | nil =>
    cases h
    exact ⟨[], by simp, rfl, .nil _, inside⟩
  | cons item items ih =>
    simp only [placeOnto] at h
    split at h
    · cases h
    · next fits =>
      obtain ⟨behind, whole, same, chained, short⟩ := ih (Nat.not_lt.1 fits) h
      refine ⟨(offset, item) :: behind, ?_, ?_, .cons chained, short⟩
      · rw [whole, List.reverse_cons, List.append_assoc]
        rfl
      · rw [List.map_cons, same]

/-- **All items are placed** one behind the other. -/
theorem place_spec {items : List Item} {layout : Layout} (h : place items = .ok layout) :
    layout.placed.map Prod.snd = items ∧ Chained 0 layout.placed layout.length
      ∧ layout.length ≤ maxLength := by
  obtain ⟨behind, whole, same, chained, short⟩ := placeOnto_spec (Nat.zero_le _) h
  rw [List.reverse_nil, List.nil_append] at whole
  rw [whole]
  exact ⟨same, chained, short⟩

/-! ### Widening -/

/-- A jump that has a wide form. -/
def IsWidenable (item : Item) : Prop :=
  ∃ op target, item.insn = .op op (.jump target) ∧ (op = Opcode.goto ∨ op = Opcode.jsr)

/-- Every distance of a narrow jump fits. -/
def Fits (labels : LabelTable) (placed : Placed) : Prop :=
  ∀ op target, placed.2.insn = .op op (.jump target) → placed.2.far = false →
    ∀ distance, labels.distance placed.1 target = .ok distance → fitsShort distance = true

/-- An item is left alone if its distance fits, or else widened. -/
theorem widenItem_spec {labels : LabelTable} {placed : Placed} {item : Item}
    (h : widenItem labels placed = .ok item) :
    (item = placed.2 ∧ Fits labels placed) ∨
      (item = { placed.2 with far := true } ∧ placed.2.far = false ∧ IsWidenable placed.2) := by
  unfold widenItem at h
  split at h
  · next offset op target index =>
    obtain ⟨distance, known, h⟩ := bind_eq_ok_iff.1 h
    split at h
    · next fits =>
      cases h
      refine .inl ⟨rfl, fun op' target' same _ distance' known' => ?_⟩
      cases same
      rw [known] at known'
      cases known'
      exact fits
    · split at h
      · next wide =>
        cases h
        simp only [Bool.or_eq_true, beq_iff_eq] at wide
        exact .inr ⟨rfl, rfl, op, target, rfl, wide⟩
      · cases h
  · next offset item' other =>
    cases h
    refine .inl ⟨rfl, fun op target same narrow => ?_⟩
    obtain ⟨insn, index, far⟩ := item
    cases same
    cases narrow
    exact absurd rfl (other _ _ _)

/-- Widening changes nothing but what is wide, and an unchanged number of narrow items means that
nothing was changed. -/
theorem narrowCount_widened {items widened : List Item}
    (h : List.Forall₂ (fun item wide => wide = item
      ∨ (wide = { item with far := true } ∧ item.far = false)) items widened) :
    narrowCount widened ≤ narrowCount items
      ∧ (narrowCount items ≤ narrowCount widened → widened = items) := by
  induction h with
  | nil => exact ⟨Nat.le_refl _, fun _ => rfl⟩
  | @cons item wide items widened first _ ih =>
    obtain ⟨fewer, same⟩ := ih
    unfold narrowCount at fewer same ⊢
    rcases first with rfl | ⟨rfl, narrow⟩
    · refine ⟨?_, fun equal => ?_⟩
      · rw [List.countP_cons, List.countP_cons]
        omega
      · rw [List.countP_cons, List.countP_cons] at equal
        rw [same (by omega)]
    · have less : List.countP (fun item : Item => !item.far) ({ item with far := true } :: widened)
          < List.countP (fun item : Item => !item.far) (item :: items) := by
        rw [List.countP_cons_of_neg (by simp), List.countP_cons_of_pos (by simp [narrow])]
        omega
      exact ⟨Nat.le_of_lt less, fun equal => absurd less (Nat.not_lt.2 equal)⟩

/-! ### Settling -/

/-- What is known of a layout of some items whose distances fit. -/
structure Settled (items : List Item) (layout : Layout) : Prop where
  chained : Chained 0 layout.placed layout.length
  short : layout.length ≤ maxLength
  /-- Nothing but what is wide differs from the items that went in. -/
  each : List.Forall₂ (fun item (placed : Placed) => placed.2.insn = item.insn
    ∧ placed.2.index = item.index) items layout.placed
  wide : ∀ placed ∈ layout.placed, placed.2.far = true → IsWidenable placed.2
  near : ∀ placed ∈ layout.placed, Fits layout.labels placed

/-- Items that came from others by widening. -/
def WidenedFrom (original items : List Item) : Prop :=
  List.Forall₂ (fun item wide => wide.insn = item.insn ∧ wide.index = item.index) original items
    ∧ ∀ item ∈ items, item.far = true → IsWidenable item

theorem widenedFrom_refl {items : List Item} (narrow : ∀ item ∈ items, item.far = false) :
    WidenedFrom items items := by
  refine ⟨List.forall₂_same.2 fun _ _ => ⟨rfl, rfl⟩, fun item member wide => ?_⟩
  rw [narrow item member] at wide
  cases wide

/-- One round of widening, on items that came from others. -/
theorem widenedFrom_widen {original items widened : List Item} {layout : Layout}
    (origin : WidenedFrom original items) (placed : layout.placed.map Prod.snd = items)
    (h : layout.widen = .ok widened) : WidenedFrom original widened := by
  have each := mapM_eq_ok_iff.1 h
  refine ⟨?_, ?_⟩
  · have step : List.Forall₂ (fun item wide => wide.insn = item.insn ∧ wide.index = item.index)
        items widened := by
      rw [← placed, List.forall₂_map_left_iff]
      refine each.imp fun placed wide row => ?_
      rcases widenItem_spec row with ⟨rfl, -⟩ | ⟨rfl, -, -⟩ <;> exact ⟨rfl, rfl⟩
    exact forall₂_trans (fun _ _ _ first second =>
      ⟨second.1.trans first.1, second.2.trans first.2⟩) origin.1 step
  · intro wide member far
    obtain ⟨old, hold, row⟩ := exists_of_mem_right each member
    rcases widenItem_spec row with ⟨rfl, -⟩ | ⟨rfl, -, op, target, same, form⟩
    · refine origin.2 _ ?_ far
      rw [← placed]
      exact List.mem_map_of_mem hold
    · exact ⟨op, target, same, form⟩

/-- When a round of widening widens nothing, everything fits. -/
theorem settled_of_widen {original items widened : List Item} {layout : Layout}
    (origin : WidenedFrom original items) (hplace : place items = .ok layout)
    (h : layout.widen = .ok widened) (done : ¬narrowCount widened < narrowCount items) :
    Settled original layout := by
  obtain ⟨placed, chained, short⟩ := place_spec hplace
  have each := mapM_eq_ok_iff.1 h
  have rounds : List.Forall₂ (fun item wide => wide = item
      ∨ (wide = { item with far := true } ∧ item.far = false)) items widened := by
    rw [← placed, List.forall₂_map_left_iff]
    refine each.imp fun placed wide row => ?_
    rcases widenItem_spec row with ⟨same, -⟩ | ⟨same, narrow, -⟩
    · exact .inl same
    · exact .inr ⟨same, narrow⟩
  have same : widened = items := (narrowCount_widened rounds).2 (Nat.not_lt.1 done)
  refine ⟨chained, short, ?_, fun old hold => ?_, fun old hold => ?_⟩
  · have first := origin.1
    rw [← placed, List.forall₂_map_right_iff] at first
    exact first
  · refine origin.2 _ ?_
    rw [← placed]
    exact List.mem_map_of_mem hold
  · rw [same, ← placed, List.forall₂_map_right_iff, List.forall₂_same] at each
    rcases widenItem_spec (each old hold) with ⟨-, fits⟩ | ⟨wide, narrow, -⟩
    · exact fits
    · rw [wide] at narrow
      cases narrow

theorem settled_of_settle {original items : List Item} {layout : Layout}
    (origin : WidenedFrom original items) (h : settle items = .ok layout) :
    Settled original layout := by
  fun_induction settle items with
  | case1 items e hplace => cases h
  | case2 items placed hplace e hwiden => cases h
  | case3 items placed hplace widened hwiden fewer ih =>
    exact ih (widenedFrom_widen origin (place_spec hplace).1 hwiden) h
  | case4 items placed hplace widened hwiden done =>
    cases h
    exact settled_of_widen origin hplace hwiden done

/-- **Every layout that is given** has all items in place, and every distance fits. -/
theorem settle_spec {items : List Item} {layout : Layout}
    (narrow : ∀ item ∈ items, item.far = false) (h : settle items = .ok layout) :
    Settled items layout :=
  settled_of_settle (widenedFrom_refl narrow) h

end ClassInstrument.Layout
