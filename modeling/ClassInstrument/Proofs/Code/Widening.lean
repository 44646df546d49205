import ClassInstrument.Proofs.Code.Alike
import ClassInstrument.Proofs.Code.Exact

/-!
# Jumps that are widened only when they have to be

Widening a jump moves everything behind it, and the padding of a switch may then become shorter by
two bytes.  So a distance across a switch can be longer in an early round than in the last one, and a
branch may be refused that would fit in the end.  Two bytes to spare are enough to rule that out:
then no round widens a jump that may stay as it is, and no branch is refused.

* `Layout.extent` — where items end that start at an offset;
* `Layout.extent_add_four`, `Layout.extent_le` — ends move by multiples of four with their starts,
  and never back when something is widened;
* `Layout.gap_le` — **a distance is longer before widening by two bytes at most**, and only across a
  switch;
* `Layout.Crosses`, `Layout.Spares` — the jumps across switches, and the two bytes;
* `Layout.exists_widen_within` — one round widens no jump that may stay as it is;
* `Layout.settle_within` — **neither do all rounds**, so the body is laid out.
-/

namespace ClassInstrument

open Traverse

/-- The distance of a label that is placed. -/
theorem LabelTable.distance_of_offset {labels : LabelTable} {l : Label} {place : Nat}
    (h : labels.offset l = .ok place) (source : Nat) :
    labels.distance source l = .ok ((place : Int) - source) := by
  unfold distance
  rw [h]
  rfl

/-- Whether this is a switch. -/
def Instruction.isSwitch : Instruction → Bool
  | .op _ (.tableSwitch ..) | .op _ (.lookupSwitch ..) => true
  | _ => false

/-! ### The sizes of items -/

/-- A switch takes its padding and a fixed number of bytes, everything else only the latter. -/
theorem Item.size_cases (item : Item) :
    (item.insn.isSwitch = false ∧ ∃ n, ∀ offset, item.size offset = n)
      ∨ item.insn.isSwitch = true
        ∧ ∃ n, ∀ offset, item.size offset = 1 + switchPadding offset + n := by
  obtain ⟨insn, index, far⟩ := item
  cases insn with
  | op opcode operand =>
    cases operand with
    | tableSwitch default low high targets =>
      exact .inr ⟨rfl, 12 + 4 * targets.length, fun offset => Nat.add_assoc ..⟩
    | lookupSwitch default pairs =>
      exact .inr ⟨rfl, 8 + 8 * pairs.length, fun offset => Nat.add_assoc ..⟩
    | _ => exact .inl ⟨rfl, _, fun offset => rfl⟩
  | _ => exact .inl ⟨rfl, 0, fun offset => rfl⟩

theorem Item.size_pos_of_isSwitch (item : Item) (h : item.insn.isSwitch = true) (offset : Nat) :
    0 < item.size offset := by
  rcases item.size_cases with ⟨plain, -⟩ | ⟨-, n, padded⟩
  · rw [h] at plain
    cases plain
  · rw [padded]
    omega

namespace Layout

theorem WidenedAlone.insn_eq {item wide : Item} (h : WidenedAlone item wide) :
    wide.insn = item.insn := by
  rcases h with rfl | ⟨rfl, -, -⟩ <;> rfl

/-- Widening changes no instruction. -/
theorem insns_eq {items wider : List Item} (h : List.Forall₂ WidenedAlone items wider) :
    wider.map Item.insn = items.map Item.insn := by
  induction h with
  | nil => rfl
  | cons first _ ih => rw [List.map_cons, List.map_cons, first.insn_eq, ih]

/-- A jump that is widened takes two bytes more; everything else stays as it is. -/
theorem WidenedAlone.size_cases {item wide : Item} (h : WidenedAlone item wide) :
    wide.insn.isSwitch = item.insn.isSwitch ∧ (wide = item
      ∨ item.insn.isSwitch = false ∧ ∀ offset, item.size offset = 3 ∧ wide.size offset = 5) := by
  rcases h with rfl | ⟨rfl, narrow, form⟩
  · exact ⟨rfl, .inl rfl⟩
  · obtain ⟨insn, index, far⟩ := item
    obtain rfl : far = false := narrow
    cases insn with
    | op opcode operand =>
      cases operand with
      | jump target => exact ⟨rfl, .inr ⟨rfl, fun _ => ⟨rfl, rfl⟩⟩⟩
      | _ => cases form
    | _ => cases form

/-! ### Where items end -/

/-- The offset behind some items that start at an offset. -/
def extent (offset : Nat) : List Item → Nat
  | [] => offset
  | item :: items => extent (offset + item.size offset) items

theorem extent_append (offset : Nat) (front behind : List Item) :
    extent offset (front ++ behind) = extent (extent offset front) behind := by
  induction front generalizing offset with
  | nil => rfl
  | cons item front ih => exact ih _

theorem le_extent (offset : Nat) (items : List Item) : offset ≤ extent offset items := by
  induction items generalizing offset with
  | nil => exact Nat.le_refl _
  | cons item items ih => exact Nat.le_trans (Nat.le_add_right _ _) (ih _)

/-- The items in front of another one end no later than those in front of a later one. -/
theorem extent_take_le (items : List Item) {a b : Nat} (le : a ≤ b) :
    extent 0 (items.take a) ≤ extent 0 (items.take b) := by
  obtain ⟨n, rfl⟩ := Nat.exists_eq_add_of_le le
  rw [List.take_add, extent_append]
  exact le_extent _ _

theorem extent_take_succ {items : List Item} {k : Nat} {item : Item}
    (here : items[k]? = some item) : extent 0 (items.take (k + 1))
      = extent 0 (items.take k) + item.size (extent 0 (items.take k)) := by
  rw [List.take_add_one, here, extent_append]
  rfl

/-- Padding depends only on the remainder by four. -/
theorem extent_add_four (offset k : Nat) (items : List Item) :
    extent (offset + 4 * k) items = extent offset items + 4 * k := by
  induction items generalizing offset with
  | nil => rfl
  | cons item items ih =>
    have size : item.size (offset + 4 * k) = item.size offset := by
      rcases item.size_cases with ⟨-, n, fixed⟩ | ⟨-, n, padded⟩
      · rw [fixed, fixed]
      · rw [padded, padded]
        unfold switchPadding
        omega
    rw [extent, extent, size, ← ih]
    congr 1
    omega

/-- **Nothing moves back** when the start moves on or something is widened. -/
theorem extent_le {items wider : List Item} (h : List.Forall₂ WidenedAlone items wider)
    {offset offset' : Nat} (le : offset ≤ offset') :
    extent offset items ≤ extent offset' wider := by
  induction h generalizing offset offset' with
  | nil => exact le
  | @cons item wide items wider first _ ih =>
    refine ih ?_
    rcases first.size_cases with ⟨-, rfl | ⟨-, sizes⟩⟩
    · rcases wide.size_cases with ⟨-, n, fixed⟩ | ⟨-, n, padded⟩
      · rw [fixed, fixed]
        omega
      · -- the operands of a switch start at the next multiple of four
        rw [padded, padded]
        unfold switchPadding
        omega
    · rw [(sizes offset).1, (sizes offset').2]
      omega

/-- Offsets are even or odd whatever is widened. -/
theorem extent_mod_two {items wider : List Item} (h : List.Forall₂ WidenedAlone items wider)
    {offset offset' : Nat} (same : offset % 2 = offset' % 2) :
    extent offset items % 2 = extent offset' wider % 2 := by
  induction h generalizing offset offset' with
  | nil => exact same
  | @cons item wide items wider first _ ih =>
    refine ih ?_
    rcases first.size_cases with ⟨-, rfl | ⟨-, sizes⟩⟩
    · rcases wide.size_cases with ⟨-, n, fixed⟩ | ⟨-, n, padded⟩
      · rw [fixed, fixed]
        omega
      · rw [padded, padded]
        unfold switchPadding
        omega
    · rw [(sizes offset).1, (sizes offset').2]
      omega

/-- Without switches the start does not matter. -/
theorem extent_eq_add {items : List Item} (plain : ∀ item ∈ items, item.insn.isSwitch = false)
    (offset : Nat) : extent offset items = offset + extent 0 items := by
  induction items generalizing offset with
  | nil => rfl
  | cons item items ih =>
    rw [List.forall_mem_cons] at plain
    obtain ⟨-, n, fixed⟩ := item.size_cases.resolve_right fun padded =>
      absurd padded.1 (by rw [plain.1]; exact Bool.false_ne_true)
    rw [extent, extent, fixed, fixed, ih plain.2 (offset + n), ih plain.2 (0 + n)]
    omega

/-- What some items take, before and after widening, from offsets that are both even or both odd. -/
theorem extent_gap_le {items wider : List Item} (h : List.Forall₂ WidenedAlone items wider)
    {offset offset' : Nat} (same : offset % 2 = offset' % 2) :
    extent offset items + offset' ≤ extent offset' wider + offset + 2 := by
  -- Both offsets are moved on by multiples of four, so that the second is the same or two behind.
  obtain ⟨j, k, above, below⟩ : ∃ j k, offset + 4 * j ≤ offset' + 4 * k
      ∧ offset' + 4 * k ≤ offset + 4 * j + 2 :=
    ⟨offset', (offset + 3 * offset' + 3) / 4, by omega, by omega⟩
  have moved := extent_le h above
  rw [extent_add_four, extent_add_four] at moved
  omega

/-- Without switches they take no more before widening. -/
theorem extent_gap_le_of_plain {items wider : List Item}
    (h : List.Forall₂ WidenedAlone items wider)
    (plain : ∀ item ∈ wider, item.insn.isSwitch = false) (offset offset' : Nat) :
    extent offset items + offset' ≤ extent offset' wider + offset := by
  have plain' : ∀ item ∈ items, item.insn.isSwitch = false := by
    intro item member
    obtain ⟨wide, inside, widened⟩ := exists_of_mem_right h.flip member
    exact (WidenedAlone.size_cases widened).1.symm.trans (plain wide inside)
  have moved := extent_le h (Nat.le_refl 0)
  rw [extent_eq_add plain', extent_eq_add plain]
  omega

/-- **A distance is longer before widening by two bytes at most**, and only across a switch. -/
theorem gap_le {items wider : List Item} (h : List.Forall₂ WidenedAlone items wider) {a b : Nat}
    (le : a ≤ b) :
    extent 0 (items.take b) + extent 0 (wider.take a)
        ≤ extent 0 (wider.take b) + extent 0 (items.take a) + 2
      ∧ ((∀ item ∈ (wider.drop a).take (b - a), item.insn.isSwitch = false) →
        extent 0 (items.take b) + extent 0 (wider.take a)
          ≤ extent 0 (wider.take b) + extent 0 (items.take a)) := by
  obtain ⟨n, rfl⟩ := Nat.exists_eq_add_of_le le
  have between := List.forall₂_take n (List.forall₂_drop a h)
  have same : extent 0 (items.take a) % 2 = extent 0 (wider.take a) % 2 :=
    extent_mod_two (List.forall₂_take a h) rfl
  rw [List.take_add, List.take_add, extent_append, extent_append, Nat.add_sub_cancel_left]
  exact ⟨extent_gap_le between same, fun plain => extent_gap_le_of_plain between plain _ _⟩

/-! ### Laying out -/

/-- Items that end soon enough are laid out. -/
theorem exists_place {items : List Item} (short : extent 0 items ≤ maxLength) :
    ∃ layout, place items = .ok layout := by
  suffices general : ∀ (items : List Item) offset placed, extent offset items ≤ maxLength →
      ∃ layout, placeOnto offset placed items = .ok layout from general items 0 [] short
  intro items
  induction items with
  | nil => exact fun offset placed _ => ⟨_, rfl⟩
  | cons item items ih =>
    intro offset placed short
    have fits := Nat.le_trans (le_extent (offset + item.size offset) items) short
    rw [placeOnto, if_neg (Nat.not_lt.2 fits)]
    exact ih _ _ short

/-- Items stand where those before them end. -/
theorem Chained.offset_eq {offset finish : Nat} {placed : List Placed}
    (chained : Chained offset placed finish) {k : Nat} {p : Placed} (here : placed[k]? = some p) :
    p.1 = extent offset ((placed.map Prod.snd).take k) := by
  induction chained generalizing k with
  | nil => cases here
  | @cons offset finish item placed _ ih =>
    cases k with
    | zero =>
      cases here
      rfl
    | succ k => exact ih here

theorem Chained.finish_eq {offset finish : Nat} {placed : List Placed}
    (chained : Chained offset placed finish) :
    finish = extent offset (placed.map Prod.snd) := by
  induction chained with
  | nil => rfl
  | cons _ ih => exact ih

/-! ### Labels -/

/-- The offset of a label that is placed there for the last time. -/
theorem offset_of_last {items : List Item} {layout : Layout} (placed : place items = .ok layout)
    {l : Label} {k : Nat} (here : (items.map Item.insn)[k]? = some (.label l))
    (last : ∀ j, k < j → (items.map Item.insn)[j]? ≠ some (.label l)) :
    layout.labels.offset l = .ok (extent 0 (items.take k)) := by
  obtain ⟨same, chained, -⟩ := place_spec placed
  rw [← same, List.map_map, List.getElem?_map, Option.map_eq_some_iff] at here
  obtain ⟨p, there, label⟩ := here
  have start := chained.offset_eq there
  rw [same] at start
  have whole : layout.placed = layout.placed.take k ++ p :: layout.placed.drop (k + 1) := by
    obtain ⟨inside, rfl⟩ := List.getElem?_eq_some_iff.1 there
    rw [← List.drop_eq_getElem_cons, List.take_append_drop]
  have found : PlacedLast layout.placed l p.1 := by
    refine ⟨_, p.2, _, whole, label, fun q behind again => ?_⟩
    obtain ⟨m, position⟩ := List.mem_iff_getElem?.1 behind
    rw [List.getElem?_drop] at position
    refine last (k + 1 + m) (by omega) ?_
    rw [← same, List.map_map, List.getElem?_map, position]
    exact congrArg some again
  unfold LabelTable.offset
  rw [getElem?_labels_iff.2 found, start]

/-- An element of a list has a last place. -/
theorem exists_last {α : Type} {a : α} {l : List α} (h : a ∈ l) :
    ∃ k : Nat, l[k]? = some a ∧ ∀ j : Nat, k < j → l[j]? ≠ some a := by
  induction l with
  | nil => cases h
  | cons b l ih =>
    by_cases later : a ∈ l
    · obtain ⟨k, here, last⟩ := ih later
      refine ⟨k + 1, here, fun j behind => ?_⟩
      obtain ⟨j, rfl⟩ := Nat.exists_eq_add_of_le' (Nat.lt_of_le_of_lt (Nat.zero_le _) behind)
      exact last j (Nat.lt_of_succ_lt_succ behind)
    · refine ⟨0, congrArg some ((List.mem_cons.1 h).resolve_right later).symm, fun j behind => ?_⟩
      obtain ⟨j, rfl⟩ := Nat.exists_eq_add_of_le' behind
      exact fun there => later (List.mem_of_getElem? there)

/-- **A label stands behind the same items** in all layouts of a body. -/
theorem exists_offset {insns : List Instruction} {l : Label} (there : l ∈ Steps.labelsOf insns) :
    ∃ k, ∀ items layout, items.map Item.insn = insns → place items = .ok layout →
      layout.labels.offset l = .ok (extent 0 (items.take k)) := by
  obtain ⟨insn, member, label⟩ := List.mem_filterMap.1 there
  obtain rfl : insn = .label l := by
    cases insn with
    | label other => exact congrArg _ (Option.some.inj label)
    | _ => cases label
  obtain ⟨k, here, last⟩ := exists_last member
  refine ⟨k, fun items layout same placed => ?_⟩
  subst same
  exact offset_of_last placed here last

/-! ### Jumps across switches -/

/-- A switch is between an offset and the place of a label. -/
def Crosses (layout : Layout) (source place : Nat) : Prop :=
  ∃ p ∈ layout.placed, p.2.insn.isSwitch = true
    ∧ (source ≤ p.1 ∧ p.1 < place ∨ place ≤ p.1 ∧ p.1 < source)

/-- The distances of narrow jumps across switches fit with two bytes to spare. -/
def Spares (layout : Layout) : Prop :=
  ∀ p ∈ layout.placed, ∀ op target, p.2.insn = .op op (.jump target) → p.2.far = false →
    ∀ place, layout.labels.offset target = .ok place → layout.Crosses p.1 place →
      -32766 ≤ (place : Int) - p.1 ∧ (place : Int) - p.1 ≤ 32765

section Compared

variable {items wider : List Item} {wideLayout : Layout}
  (widened : List.Forall₂ WidenedAlone items wider) (widePlaced : place wider = .ok wideLayout)

include widePlaced in
/-- A switch among some items is between the offsets of the first one and of the end. -/
theorem exists_switch_between {a b : Nat}
    (switch : ¬∀ item ∈ (wider.drop a).take (b - a), item.insn.isSwitch = false) :
    ∃ p ∈ wideLayout.placed, p.2.insn.isSwitch = true ∧ extent 0 (wider.take a) ≤ p.1
      ∧ p.1 < extent 0 (wider.take b) := by
  obtain ⟨same, chained, -⟩ := place_spec widePlaced
  push Not at switch
  obtain ⟨item, member, isSwitch⟩ := switch
  obtain ⟨m, there⟩ := List.mem_iff_getElem?.1 member
  rw [List.getElem?_take, List.getElem?_drop] at there
  split at there
  · next inside =>
    have known := there
    rw [← same, List.getElem?_map, Option.map_eq_some_iff] at known
    obtain ⟨p, here, rfl⟩ := known
    have start : p.1 = extent 0 (wider.take (a + m)) := by rw [chained.offset_eq here, same]
    refine ⟨p, List.mem_of_getElem? here, by simpa using isSwitch, ?_, ?_⟩
    · exact start ▸ extent_take_le wider (Nat.le_add_right a m)
    · have behind := extent_take_le wider (show a + m + 1 ≤ b by omega)
      rw [extent_take_succ there, ← start] at behind
      have pos := p.2.size_pos_of_isSwitch (by simpa using isSwitch) p.1
      omega
  · cases there

include widened widePlaced in
/-- A jump that fits in the wider layout, with two bytes to spare if it crosses a switch, fits in the
other one as well. -/
theorem fits_of_wider {i k : Nat}
    (fits : fitsShort ((extent 0 (wider.take k) : Int) - extent 0 (wider.take i)) = true)
    (spare : wideLayout.Crosses (extent 0 (wider.take i)) (extent 0 (wider.take k)) →
      -32766 ≤ (extent 0 (wider.take k) : Int) - extent 0 (wider.take i)
        ∧ (extent 0 (wider.take k) : Int) - extent 0 (wider.take i) ≤ 32765) :
    fitsShort ((extent 0 (items.take k) : Int) - extent 0 (items.take i)) = true := by
  simp only [fitsShort, Bool.and_eq_true, decide_eq_true_eq] at fits ⊢
  rcases Nat.le_total i k with forward | backward
  · obtain ⟨gap, tight⟩ := gap_le widened forward
    have ahead := extent_take_le items forward
    by_cases plain : ∀ item ∈ (wider.drop i).take (k - i), item.insn.isSwitch = false
    · have := tight plain
      omega
    · obtain ⟨p, member, switch, starts, ends⟩ := exists_switch_between widePlaced plain
      have := spare ⟨p, member, switch, .inl ⟨starts, ends⟩⟩
      omega
  · obtain ⟨gap, tight⟩ := gap_le widened backward
    have behind := extent_take_le items backward
    by_cases plain : ∀ item ∈ (wider.drop k).take (i - k), item.insn.isSwitch = false
    · have := tight plain
      omega
    · obtain ⟨p, member, switch, starts, ends⟩ := exists_switch_between widePlaced plain
      have := spare ⟨p, member, switch, .inr ⟨starts, ends⟩⟩
      omega

end Compared

/-! ### Rounds -/

/-- A jump whose distance fits is left alone, and so is everything else. -/
theorem widenItem_of_fits {labels : LabelTable} {p : Placed}
    (known : ∀ l ∈ p.2.insn.targets, ∃ o, labels.offset l = .ok o) (fits : Fits labels p) :
    widenItem labels p = .ok p.2 := by
  obtain ⟨offset, insn, index, far⟩ := p
  unfold widenItem
  split
  · next same =>
    cases same
    obtain ⟨o, place⟩ := known _ List.mem_cons_self
    have distance := LabelTable.distance_of_offset place offset
    exact bind_eq_ok_iff.2 ⟨_, distance, if_pos (fits _ _ rfl rfl _ distance)⟩
  · next same =>
    cases same
    rfl

/-- A jump with a wide form is left alone or widened. -/
theorem exists_widenItem {labels : LabelTable} {p : Placed}
    (known : ∀ l ∈ p.2.insn.targets, ∃ o, labels.offset l = .ok o)
    (form : p.2.insn.isWidenable = true) :
    ∃ item, widenItem labels p = .ok item ∧ (item = p.2 ∨ item = { p.2 with far := true }) := by
  obtain ⟨offset, insn, index, far⟩ := p
  unfold widenItem
  split
  · next same =>
    cases same
    obtain ⟨o, place⟩ := known _ List.mem_cons_self
    have distance := LabelTable.distance_of_offset place offset
    by_cases fits : fitsShort ((o : Int) - offset) = true
    · exact ⟨_, bind_eq_ok_iff.2 ⟨_, distance, if_pos fits⟩, .inl rfl⟩
    · exact ⟨_, bind_eq_ok_iff.2 ⟨_, distance, (if_neg fits).trans (if_pos form)⟩, .inr rfl⟩
  · next same =>
    cases same
    exact ⟨_, rfl, .inl rfl⟩

section Within

variable {items wider : List Item} {layout wideLayout : Layout}
  (named : Named (items.map Item.insn)) (widened : List.Forall₂ WidenedAlone items wider)
  (placed : place items = .ok layout) (widePlaced : place wider = .ok wideLayout)
  (near : ∀ p ∈ wideLayout.placed, Fits wideLayout.labels p) (spares : wideLayout.Spares)

include named widened placed widePlaced near spares in
/-- A jump that may stay as it is fits, and everything else can be widened. -/
theorem exists_widenItem_within {i : Nat} {p q : Placed} (here : layout.placed[i]? = some p)
    (there : wideLayout.placed[i]? = some q) (one : WidenedAlone p.2 q.2) :
    ∃ item, widenItem layout.labels p = .ok item ∧ WidenedAlone item q.2 := by
  obtain ⟨same, chained, -⟩ := place_spec placed
  obtain ⟨wideSame, wideChained, -⟩ := place_spec widePlaced
  have place : ∀ l ∈ p.2.insn.targets, ∃ k,
      layout.labels.offset l = .ok (extent 0 (items.take k))
        ∧ wideLayout.labels.offset l = .ok (extent 0 (wider.take k)) := by
    intro l target
    have member : p.2.insn ∈ items.map Item.insn := by
      rw [← same, List.map_map]
      exact List.mem_map_of_mem (List.mem_of_getElem? here)
    obtain ⟨k, known⟩ := exists_offset (named _ member l target)
    exact ⟨k, known items layout rfl placed, known wider wideLayout (insns_eq widened) widePlaced⟩
  have known : ∀ l ∈ p.2.insn.targets, ∃ o, layout.labels.offset l = .ok o := fun l target =>
    (place l target).imp' _ fun _ both => both.1
  rcases one with alike | ⟨wide, narrow, form⟩
  · refine ⟨p.2, widenItem_of_fits known fun op target jump narrow distance leads => ?_, .inl alike⟩
    obtain ⟨k, offset, wideOffset⟩ := place target (by rw [jump]; exact List.mem_cons_self)
    rw [LabelTable.distance_of_offset offset, chained.offset_eq here, same] at leads
    cases leads
    have member := List.mem_of_getElem? there
    have start := wideChained.offset_eq there
    rw [wideSame] at start
    have fits := near q member op target (alike ▸ jump) (alike ▸ narrow) _
      (LabelTable.distance_of_offset wideOffset _)
    have spare := spares q member op target (alike ▸ jump) (alike ▸ narrow) _ wideOffset
    rw [start] at fits spare
    exact fits_of_wider widened widePlaced fits spare
  · obtain ⟨item, widens, rfl | rfl⟩ := exists_widenItem known form
    · exact ⟨_, widens, .inr ⟨wide, narrow, form⟩⟩
    · exact ⟨_, widens, .inl wide⟩

include named widened placed widePlaced near spares in
/-- **One round widens no jump that may stay as it is**, and refuses none. -/
theorem exists_widen_within :
    ∃ next, layout.widen = .ok next ∧ List.Forall₂ WidenedAlone next wider := by
  have rows := widened
  rw [← (place_spec placed).1, ← (place_spec widePlaced).1, List.forall₂_map_left_iff,
    List.forall₂_map_right_iff, List.forall₂_iff_get] at rows
  have each : List.Forall₂ (fun p wide => ∃ item, widenItem layout.labels p = .ok item
      ∧ WidenedAlone item wide) layout.placed wider := by
    rw [← (place_spec widePlaced).1, List.forall₂_map_right_iff, List.forall₂_iff_get]
    refine ⟨rows.1, fun i hi hi' => ?_⟩
    exact exists_widenItem_within named widened placed widePlaced near spares
      (List.getElem?_eq_getElem hi) (List.getElem?_eq_getElem hi') (rows.2 i hi hi')
  obtain ⟨next, results, within⟩ := forall₂_exists each
  exact ⟨next, mapM_eq_ok_iff.2 results, within.flip⟩

end Within

/-- **No round widens a jump that may stay as it is**, so that the body is laid out. -/
theorem settle_within {items wider : List Item} {wideLayout : Layout}
    (named : Named (items.map Item.insn)) (widened : List.Forall₂ WidenedAlone items wider)
    (widePlaced : place wider = .ok wideLayout)
    (near : ∀ p ∈ wideLayout.placed, Fits wideLayout.labels p) (spares : wideLayout.Spares) :
    ∃ layout, settle items = .ok layout ∧ layout.length ≤ wideLayout.length
      ∧ List.Forall₂ WidenedAlone (layout.placed.map Prod.snd) wider := by
  obtain ⟨wideSame, wideChained, wideShort⟩ := place_spec widePlaced
  have wideEnd := wideChained.finish_eq
  rw [wideSame] at wideEnd
  fun_induction settle items with
  | case1 items e failed =>
    obtain ⟨layout, placed⟩ := exists_place
      (Nat.le_trans (extent_le widened (Nat.le_refl 0)) (wideEnd ▸ wideShort))
    rw [placed] at failed
    cases failed
  | case2 items layout placed e failed =>
    obtain ⟨next, widens, -⟩ := exists_widen_within named widened placed widePlaced near spares
    rw [widens] at failed
    cases failed
  | case3 items layout placed next widens fewer ih =>
    obtain ⟨next', widens', within⟩ :=
      exists_widen_within named widened placed widePlaced near spares
    rw [widens] at widens'
    cases widens'
    refine ih ?_ within
    rw [insns_of_widen widens, insns_of_place placed]
    exact named
  | case4 items layout placed next widens done =>
    obtain ⟨same, chained, -⟩ := place_spec placed
    refine ⟨layout, rfl, ?_, same ▸ widened⟩
    rw [chained.finish_eq, same, wideEnd]
    exact extent_le widened (Nat.le_refl 0)

end Layout

end ClassInstrument
