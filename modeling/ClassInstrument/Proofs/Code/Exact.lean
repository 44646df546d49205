import ClassInstrument.Code.Encode
import ClassInstrument.Proofs.Code.Boundaries

/-!
# Layout and bytes agree

A body is laid out before it is written.  What is written is where the layout says: every element
starts at its offset, every label has the offset of the place where it was placed last, and every
distance in the code is the exact one.

* `Layout.Widens`, `Layout.Stops` — one round of widening, and how the last one ends;
* `Layout.exists_rounds` — **there are no more rounds than jumps with a wide form**;
* `Layout.getElem?_labels_iff` — the offset of a label;
* `Item.Exact` — the bytes of a jump or switch hold the distances to its targets;
* `Assembly.Exact`, `Assembly.layout_exact` — **the bytes of a body go with its layout**.
-/

namespace ClassInstrument

open Traverse

/-! ### Rounds of widening -/

/-- Whether this is a jump that has a wide form. -/
def Instruction.isWidenable : Instruction → Bool
  | .op opcode (.jump _) => opcode == Opcode.goto || opcode == Opcode.jsr
  | _ => false

namespace Layout

/-- One round that widens something. -/
def Widens (items wider : List Item) : Prop :=
  ∃ layout, place items = .ok layout ∧ layout.widen = .ok wider ∧ wider ≠ items

/-- The last round: the items cannot be laid out, some distance cannot be written, or nothing is left
to be widened. -/
inductive Stops (items : List Item) : Except Failure Layout → Prop
  | unplaced {e : Failure} (failed : place items = .error e) : Stops items (.error e)
  | unfit {layout : Layout} {e : Failure} (placed : place items = .ok layout)
    (failed : layout.widen = .error e) : Stops items (.error e)
  | settled {layout : Layout} (placed : place items = .ok layout)
    (same : layout.widen = .ok items) : Stops items (.ok layout)

/-- The jumps that can still be widened. -/
def widenableCount (items : List Item) : Nat :=
  items.countP fun item => item.insn.isWidenable && !item.far

/-- An element before and after a round. -/
def WidenedAlone (item wide : Item) : Prop :=
  wide = item ∨ wide = { item with far := true } ∧ item.far = false ∧ item.insn.isWidenable = true

/-- A round leaves every item alone or widens it. -/
theorem widenedAlone_widen {items wider : List Item} {layout : Layout}
    (placed : place items = .ok layout) (h : layout.widen = .ok wider) :
    List.Forall₂ WidenedAlone items wider := by
  have each := mapM_eq_ok_iff.1 h
  rw [← (place_spec placed).1, List.forall₂_map_left_iff]
  refine each.imp fun p wide row => ?_
  rcases widenItem_spec row with ⟨same, -⟩ | ⟨same, narrow, op, target, jump, form⟩
  · exact .inl same
  · refine .inr ⟨same, narrow, ?_⟩
    rw [jump]
    simpa [Instruction.isWidenable] using form

/-- A round leaves fewer jumps to be widened, or changes nothing. -/
theorem widenableCount_widen {items wider : List Item}
    (h : List.Forall₂ WidenedAlone items wider) :
    widenableCount wider ≤ widenableCount items
      ∧ (widenableCount items ≤ widenableCount wider → wider = items) := by
  unfold widenableCount
  induction h with
  | nil => exact ⟨Nat.le_refl _, fun _ => rfl⟩
  | @cons item wide items wider first _ ih =>
    obtain ⟨fewer, same⟩ := ih
    rcases first with rfl | ⟨rfl, narrow, form⟩
    · rw [List.countP_cons, List.countP_cons]
      exact ⟨by omega, fun equal => by rw [same (by omega)]⟩
    · rw [List.countP_cons_of_neg (by simp), List.countP_cons_of_pos (by simp [form, narrow])]
      exact ⟨by omega, fun equal => absurd fewer (by omega)⟩

/-- A round that widens something uses up a jump. -/
theorem Widens.widenableCount_lt {items wider : List Item} (h : Widens items wider) :
    widenableCount wider < widenableCount items := by
  obtain ⟨layout, placed, widened, changed⟩ := h
  obtain ⟨-, same⟩ := widenableCount_widen (widenedAlone_widen placed widened)
  exact Nat.lt_of_not_le fun equal => changed (same equal)

/-- **There are no more rounds than jumps** with a wide form. -/
theorem length_le_of_isChain {items : List Item} {rounds : List (List Item)}
    (chain : List.IsChain Widens (items :: rounds)) : rounds.length ≤ widenableCount items := by
  induction rounds generalizing items with
  | nil => exact Nat.zero_le _
  | cons wider rounds ih =>
    obtain ⟨first, others⟩ := List.isChain_cons_cons.1 chain
    have fewer := first.widenableCount_lt
    have behind := ih others
    rw [List.length_cons]
    omega

/-- Widening goes on round by round until one of them changes nothing or fails. -/
theorem exists_rounds (items : List Item) : ∃ rounds,
    List.IsChain Widens (items :: rounds)
      ∧ Stops ((items :: rounds).getLast (List.cons_ne_nil _ _)) (settle items) := by
  fun_induction settle items with
  | case1 items e failed => exact ⟨[], .singleton _, .unplaced failed⟩
  | case2 items layout placed e failed => exact ⟨[], .singleton _, .unfit placed failed⟩
  | case3 items layout placed wider widened fewer ih =>
    obtain ⟨rounds, chain, stops⟩ := ih
    have changed : wider ≠ items := by
      rintro rfl
      exact Nat.lt_irrefl _ fewer
    refine ⟨wider :: rounds, List.isChain_cons_cons.2 ⟨⟨layout, placed, widened, changed⟩, chain⟩, ?_⟩
    rw [List.getLast_cons (List.cons_ne_nil _ _)]
    exact stops
  | case4 items layout placed wider widened done =>
    have each : List.Forall₂ (fun item wide => wide = item
        ∨ (wide = { item with far := true } ∧ item.far = false)) items wider :=
      (widenedAlone_widen placed widened).imp fun _ _ one => one.imp_right fun both =>
        ⟨both.1, both.2.1⟩
    obtain rfl : wider = items := (narrowCount_widened each).2 (Nat.not_lt.1 done)
    exact ⟨[], .singleton _, .settled placed widened⟩

/-! ### Labels -/

/-- The last place of a label is at an offset. -/
def PlacedLast (placed : List Placed) (l : Label) (offset : Nat) : Prop :=
  ∃ front item behind, placed = front ++ (offset, item) :: behind ∧ item.insn = .label l
    ∧ ∀ p ∈ behind, p.2.insn ≠ .label l

theorem placedLast_cons {p : Placed} {placed : List Placed} {l : Label} {offset : Nat} :
    PlacedLast (p :: placed) l offset ↔ PlacedLast placed l offset
      ∨ p.1 = offset ∧ p.2.insn = .label l ∧ ∀ q ∈ placed, q.2.insn ≠ .label l := by
  constructor
  · rintro ⟨front, item, behind, same, here, last⟩
    cases front with
    | nil =>
      cases same
      exact .inr ⟨rfl, here, last⟩
    | cons first front =>
      cases same
      exact .inl ⟨front, item, behind, rfl, here, last⟩
  · rintro (⟨front, item, behind, rfl, here, last⟩ | ⟨rfl, here, last⟩)
    · exact ⟨p :: front, item, behind, rfl, here, last⟩
    · exact ⟨[], p.2, placed, rfl, here, last⟩

theorem getElem?_labelsOnto_iff (table : LabelTable) (placed : List Placed) {l : Label}
    {offset : Nat} : (labelsOnto table placed)[l]? = some offset ↔ PlacedLast placed l offset
      ∨ table[l]? = some offset ∧ ∀ p ∈ placed, p.2.insn ≠ .label l := by
  induction placed generalizing table with
  | nil => simp [labelsOnto, PlacedLast]
  | cons p placed ih =>
    obtain ⟨here, insn, index, far⟩ := p
    rw [placedLast_cons, List.forall_mem_cons]
    cases insn with
    | label other =>
      show (labelsOnto (table.insert other here) placed)[l]? = some offset ↔ _
      rw [ih, Std.HashMap.getElem?_insert]
      by_cases same : other = l
      · subst same
        simp [and_comm]
      · simp [same]
    | _ => exact (ih table).trans (by simp)

/-- **A label has the offset of the place where it was placed last.** -/
theorem getElem?_labels_iff {layout : Layout} {l : Label} {offset : Nat} :
    layout.labels[l]? = some offset ↔ PlacedLast layout.placed l offset := by
  refine (getElem?_labelsOnto_iff ∅ layout.placed).trans ?_
  simp

end Layout

/-! ### Distances -/

/-- A number is the exact distance from an offset to a label. -/
def LabelTable.Leads (labels : LabelTable) (source : Nat) (target : Label) (value : Int) : Prop :=
  ∃ place, labels[target]? = some place ∧ value = (place : Int) - source

/-- No label of a body is behind its longest end. -/
def LabelTable.Short (labels : LabelTable) : Prop :=
  ∀ (l : Label) (place : Nat), labels[l]? = some place → place ≤ Layout.maxLength

namespace LabelTable

variable {labels : LabelTable} {source : Nat} {target : Label}

theorem leads_of_distance {value : Int} (h : labels.distance source target = .ok value) :
    labels.Leads source target value := by
  obtain ⟨place, known, h⟩ := bind_eq_ok_iff.1 h
  cases h
  unfold offset at known
  split at known
  · next found =>
    cases known
    exact ⟨place, found, rfl⟩
  · cases known

/-- A distance that fits is not changed by two bytes. -/
theorem Leads.near {value : Int} (leads : labels.Leads source target value)
    (fits : fitsShort value = true) : labels.Leads source target (Int16.ofInt value).toInt := by
  simp only [fitsShort, Bool.and_eq_true, decide_eq_true_eq] at fits
  rwa [Int16.toInt_ofInt_of_le (by omega) (by omega)]

/-- Four bytes are enough for every distance in a body. -/
theorem Leads.far {value : Int} (leads : labels.Leads source target value) (short : labels.Short)
    (inside : source ≤ Layout.maxLength) :
    labels.Leads source target (Int32.ofInt value).toInt := by
  obtain ⟨place, known, same⟩ := leads
  have bound := short _ _ known
  unfold Layout.maxLength at bound inside
  rw [Int32.toInt_ofInt_of_le (by omega) (by omega)]
  exact ⟨place, known, same⟩

end LabelTable

namespace Item

/-- The bytes of a jump or a switch hold the distances to its targets, and the operands of a switch
start at a multiple of four. -/
def Exact (labels : LabelTable) (offset : Nat) (bytes : Bytes) : Item → Prop
  | ⟨.op opcode (.jump target), _, false⟩ =>
    ∃ d : Int16, labels.Leads offset target d.toInt ∧ bytes = opcode :: Word.encode d
  | ⟨.op opcode (.jump target), _, true⟩ =>
    ∃ d : Int32, labels.Leads offset target d.toInt
      ∧ bytes = (if opcode == Opcode.goto then Opcode.gotoW else Opcode.jsrW) :: Word.encode d
  | ⟨.op _ (.tableSwitch default low high targets), _, _⟩ =>
    ∃ (zeros : Nat) (first : Int32) (others : List Int32), zeros ≤ 3 ∧ 4 ∣ offset + 1 + zeros
      ∧ labels.Leads offset default first.toInt
      ∧ List.Forall₂ (fun target d => labels.Leads offset target d.toInt) targets others
      ∧ bytes = Opcode.tableswitch :: List.replicate zeros 0 ++ Word.encode first
        ++ Word.encode low ++ Word.encode high ++ others.flatMap Word.encode
  | ⟨.op _ (.lookupSwitch default pairs), _, _⟩ =>
    ∃ (zeros : Nat) (first : Int32) (rows : List (Int32 × Int32)), zeros ≤ 3
      ∧ 4 ∣ offset + 1 + zeros ∧ labels.Leads offset default first.toInt
      ∧ List.Forall₂ (fun pair row => row.1 = pair.1 ∧ labels.Leads offset pair.2 row.2.toInt)
        (pairs.mergeSort fun a b => a.1 ≤ b.1) rows
      ∧ bytes = Opcode.lookupswitch :: List.replicate zeros 0 ++ Word.encode first
        ++ Word.encode (Int32.ofNat pairs.length)
        ++ rows.flatMap fun row => Word.encode row.1 ++ Word.encode row.2
  | _ => True

theorem switchPadding_spec (offset : Nat) :
    switchPadding offset ≤ 3 ∧ 4 ∣ offset + 1 + switchPadding offset := by
  unfold switchPadding
  omega

/-- Chunks that are each made from something. -/
theorem flatten_eq_flatMap {α : Type} {f : α → Bytes} {chunks : List Bytes} {l : List α}
    (h : List.Forall₂ (fun chunk a => chunk = f a) chunks l) : chunks.flatten = l.flatMap f := by
  have same : chunks = l.map f := by
    rwa [← List.forall₂_eq_eq_eq, List.forall₂_map_right_iff]
  rw [same, List.flatMap_def]

section Distances

variable {labels : LabelTable} {offset : Nat} {bytes : Bytes} (short : labels.Short)
  (inside : offset ≤ Layout.maxLength)

include short inside in
/-- Four bytes hold the exact distance. -/
theorem farBytes_eq {target : Label} (h : farBytes labels offset target = .ok bytes) :
    ∃ d : Int32, labels.Leads offset target d.toInt ∧ bytes = Word.encode d := by
  obtain ⟨value, known, h⟩ := bind_eq_ok_iff.1 h
  cases h
  exact ⟨_, (LabelTable.leads_of_distance known).far short inside, rfl⟩

include short inside in
theorem exact_jump {op : Opcode} {target : Label} {index : UInt16} {far : Bool}
    (near : far = false → ∀ value, labels.distance offset target = .ok value →
      fitsShort value = true)
    (h : jumpBytes labels offset far op target = .ok bytes) :
    Exact labels offset bytes ⟨.op op (.jump target), index, far⟩ := by
  obtain ⟨value, known, h⟩ := bind_eq_ok_iff.1 h
  have leads := LabelTable.leads_of_distance known
  cases far with
  | false =>
    cases h
    exact ⟨_, leads.near (near rfl value known), rfl⟩
  | true =>
    cases h
    exact ⟨_, leads.far short inside, rfl⟩

include short inside in
theorem exact_table {op : Opcode} {default : Label} {low high : Int32} {targets : List Label}
    {index : UInt16} {far : Bool}
    (h : tableBytes labels offset default low high targets = .ok bytes) :
    Exact labels offset bytes ⟨.op op (.tableSwitch default low high targets), index, far⟩ := by
  unfold tableBytes at h
  split at h
  · cases h
  · obtain ⟨front, hfront, h⟩ := bind_eq_ok_iff.1 h
    obtain ⟨chunks, hchunks, h⟩ := bind_eq_ok_iff.1 h
    cases h
    obtain ⟨first, leads, rfl⟩ := farBytes_eq short inside hfront
    obtain ⟨others, each, written⟩ := forall₂_exists ((mapM_eq_ok_iff.1 hchunks).imp
      fun target chunk row => farBytes_eq short inside row)
    obtain ⟨few, aligned⟩ := switchPadding_spec offset
    refine ⟨_, first, others, few, aligned, leads, each, ?_⟩
    rw [flatten_eq_flatMap written]
    rfl

include short inside in
theorem exact_lookup {op : Opcode} {default : Label} {pairs : List (Int32 × Label)}
    {index : UInt16} {far : Bool} (h : lookupBytes labels offset default pairs = .ok bytes) :
    Exact labels offset bytes ⟨.op op (.lookupSwitch default pairs), index, far⟩ := by
  obtain ⟨front, hfront, h⟩ := bind_eq_ok_iff.1 h
  obtain ⟨chunks, hchunks, h⟩ := bind_eq_ok_iff.1 h
  cases h
  obtain ⟨first, leads, rfl⟩ := farBytes_eq short inside hfront
  obtain ⟨few, aligned⟩ := switchPadding_spec offset
  have rows : List.Forall₂ (fun pair chunk => ∃ row : Int32 × Int32,
      (row.1 = pair.1 ∧ labels.Leads offset pair.2 row.2.toInt)
        ∧ chunk = Word.encode row.1 ++ Word.encode row.2)
      (pairs.mergeSort fun a b => a.1 ≤ b.1) chunks := by
    refine (mapM_eq_ok_iff.1 hchunks).imp fun pair chunk row => ?_
    obtain ⟨far, hfar, rfl⟩ := map_eq_ok_iff.1 row
    obtain ⟨d, leads, rfl⟩ := farBytes_eq short inside hfar
    exact ⟨(pair.1, d), ⟨rfl, leads⟩, rfl⟩
  obtain ⟨rows, each, written⟩ := forall₂_exists rows
  refine ⟨_, first, rows, few, aligned, leads, each, ?_⟩
  rw [flatten_eq_flatMap written]
  rfl

/-- The bytes of an executable instruction hold exact distances. -/
theorem exact_opBytes (short : labels.Short) (inside : offset ≤ Layout.maxLength) {op : Opcode}
    {operand : Operand} {index : UInt16} {far : Bool}
    (fits : Layout.Fits labels (offset, ⟨.op op operand, index, far⟩))
    (h : opBytes labels offset index far op operand = .ok bytes) :
    Exact labels offset bytes ⟨.op op operand, index, far⟩ := by
  rcases takes_or_bare h with ⟨form, known, takes⟩ | ⟨rfl, -, -⟩
  · unfold opBytes at h
    rw [known] at h
    cases takes with
    | branch target => exact exact_jump short inside (fits op target rfl) h
    | tableSwitch default low high targets => exact exact_table short inside h
    | lookupSwitch default pairs => exact exact_lookup short inside h
    | _ => trivial
  · trivial

/-- **What is written for an element holds exact distances.** -/
theorem exact_bytes (short : labels.Short) {p : Placed} (inside : p.1 ≤ Layout.maxLength)
    (fits : Layout.Fits labels p) (h : Item.bytes labels p = .ok bytes) :
    Exact labels p.1 bytes p.2 := by
  obtain ⟨offset, insn, index, far⟩ := p
  cases insn with
  | op op operand => exact exact_opBytes short inside fits h
  | _ => trivial

end Distances

end Item

/-! ### Whole bodies -/

namespace Layout

/-- Behind a number of elements as many bytes are written as the offset of the next one says. -/
theorem length_take_flatten {labels : LabelTable} {offset finish : Nat} {placed : List Placed}
    (chained : Chained offset placed finish) {chunks : List Bytes}
    (each : List.Forall₂ (fun p bytes => Item.bytes labels p = .ok bytes) placed chunks) {k : Nat}
    {p : Placed} (here : placed[k]? = some p) :
    offset + (chunks.take k).flatten.length = p.1 := by
  induction chained generalizing chunks k with
  | nil => cases here
  | cons rest ih =>
    cases each with
    | cons first others =>
      cases k with
      | zero =>
        cases here
        rfl
      | succ k =>
        have length := Item.length_bytes first
        have behind := ih others here
        dsimp only at length
        rw [List.take_succ_cons, List.flatten_cons, List.length_append, length]
        omega

end Layout

/-- An element of a body as it is laid out at first, with the constant pool index in its operand. -/
def Item.narrow (row : Instruction × UInt16) : Item := ⟨row.1, row.2, false⟩

namespace Assembly

/-- The bytes of a body go with its layout. -/
structure Exact (rows : List (Instruction × UInt16)) (layout : Layout) (a : Assembly) : Prop where
  /-- All elements are laid out, in their order and with their indices. -/
  elements : layout.placed.map (fun p => (p.2.insn, p.2.index)) = rows
  /-- The bytes are those of the elements, each at its offset. -/
  chunks : ∃ chunks : List Bytes, a.bytes = chunks.flatten ∧ chunks.length = rows.length
    ∧ ∀ k p chunk, layout.placed[k]? = some p → chunks[k]? = some chunk →
      (chunks.take k).flatten.length = p.1 ∧ Item.bytes a.labels p = .ok chunk
        ∧ p.2.Exact a.labels p.1 chunk
  total : a.bytes.length = layout.length
  short : layout.length ≤ 65535
  labels : ∀ (l : Label) (offset : Nat),
    a.labels[l]? = some offset ↔ Layout.PlacedLast layout.placed l offset
  /-- Only `goto` and `jsr` are written with four-byte distances. -/
  wide : ∀ p ∈ layout.placed, p.2.far = true → p.2.insn.isWidenable = true

/-- The bytes of a body whose layout has settled go with the layout. -/
theorem exact_of_settled {rows : List (Instruction × UInt16)} {layout : Layout} {a : Assembly}
    (settled : Layout.Settled (rows.map Item.narrow) layout) (h : ofLayout layout = .ok a) :
    Exact rows layout a := by
  obtain ⟨body, written, h⟩ := bind_eq_ok_iff.1 h
  cases h
  have total := Layout.length_code settled.chained written
  obtain ⟨chunks, hchunks, h⟩ := bind_eq_ok_iff.1 written
  cases h
  -- one chunk for every element, in the same order
  have each := mapM_eq_ok_iff.1 hchunks
  have elements : layout.placed.map (fun p => (p.2.insn, p.2.index)) = rows := by
    rw [← List.forall₂_eq_eq_eq, List.forall₂_map_left_iff]
    refine (List.forall₂_map_left_iff.1 settled.each).flip.imp fun p row same => ?_
    exact Prod.ext same.1 same.2
  have short : layout.labels.Short := by
    intro l place known
    obtain ⟨front, item, behind, whole, -⟩ := Layout.getElem?_labels_iff.1 known
    have member : (place, item) ∈ layout.placed := by simp [whole]
    have ends := (settled.chained.size_le member).2
    exact Nat.le_trans (Nat.le_trans (Nat.le_add_right _ _) ends) settled.short
  refine ⟨elements, ⟨chunks, rfl, ?_, fun k p chunk here there => ?_⟩, total, settled.short,
    fun l offset => Layout.getElem?_labels_iff, fun p member far => ?_⟩
  · rw [← each.length_eq, ← elements, List.length_map]
  · obtain ⟨inside, rfl⟩ := List.getElem?_eq_some_iff.1 here
    obtain ⟨inside', rfl⟩ := List.getElem?_eq_some_iff.1 there
    have row : Item.bytes layout.labels layout.placed[k] = .ok chunks[k] := each.get inside inside'
    have member := List.mem_of_getElem? here
    have ends := (settled.chained.size_le member).2
    have before := Layout.length_take_flatten settled.chained each here
    rw [Nat.zero_add] at before
    refine ⟨before, row, Item.exact_bytes short ?_ (settled.near _ member) row⟩
    exact Nat.le_trans (Nat.le_trans (Nat.le_add_right _ _) ends) settled.short
  · obtain ⟨op, target, jump, form⟩ := settled.wide p member far
    rw [jump]
    simpa [Instruction.isWidenable] using form

/-- **The layout of a body is the one that is written**, whatever its elements and the indices in
them are.  Widening comes to an end, after no more rounds than there are jumps with a wide form; and
whenever a body is written, everything in it is where the layout says, and every distance is exact. -/
theorem layout_exact (rows : List (Instruction × UInt16)) :
    (∃ rounds, List.IsChain Layout.Widens (rows.map Item.narrow :: rounds)
      ∧ Layout.Stops ((rows.map Item.narrow :: rounds).getLast (List.cons_ne_nil _ _))
        (Layout.settle (rows.map Item.narrow)))
    ∧ (∀ rounds, List.IsChain Layout.Widens (rows.map Item.narrow :: rounds) →
      rounds.length ≤ Layout.widenableCount (rows.map Item.narrow))
    ∧ ∀ a, ofItems (rows.map Item.narrow) = .ok a →
      ∃ layout, Layout.settle (rows.map Item.narrow) = .ok layout ∧ a.Exact rows layout := by
  refine ⟨Layout.exists_rounds _, fun rounds => Layout.length_le_of_isChain, fun a h => ?_⟩
  obtain ⟨layout, settles, h⟩ := bind_eq_ok_iff.1 h
  -- nothing is wide at first, so whatever is wide in the end was widened
  refine ⟨layout, settles, exact_of_settled (Layout.settle_spec (fun item member => ?_) settles) h⟩
  obtain ⟨row, -, rfl⟩ := List.mem_map.1 member
  rfl

/-- A loop around a switch: a label at the start, a target behind the switch, and a jump back. -/
def loopRows : List (Instruction × UInt16) :=
  [(.label ⟨0⟩, 0), (.op Opcode.iload (.var 1), 0),
    (.op Opcode.tableswitch (.tableSwitch ⟨0⟩ 0 0 [⟨1⟩]), 0), (.label ⟨1⟩, 0),
    (.op Opcode.goto (.jump ⟨0⟩), 0)]

/-- Where everything in the loop is. -/
def loopLayout : Layout where
  placed := [0, 0, 1, 20, 20].zip (loopRows.map Item.narrow)
  length := 23

/-- The distances of its labels. -/
theorem distances_loop : loopLayout.labels.distance 20 ⟨0⟩ = .ok (-20)
    ∧ loopLayout.labels.distance 1 ⟨0⟩ = .ok (-1)
    ∧ loopLayout.labels.distance 1 ⟨1⟩ = .ok 19 := by
  have offsets : loopLayout.labels.offset ⟨0⟩ = .ok 0
      ∧ loopLayout.labels.offset ⟨1⟩ = .ok 20 := by
    rw [show loopLayout.labels = ((∅ : LabelTable).insert ⟨0⟩ 0).insert ⟨1⟩ 20 from rfl]
    simp [LabelTable.offset, Std.HashMap.getElem_insert]
  exact ⟨bind_eq_ok_iff.2 ⟨0, offsets.1, rfl⟩, bind_eq_ok_iff.2 ⟨0, offsets.1, rfl⟩,
    bind_eq_ok_iff.2 ⟨20, offsets.2, rfl⟩⟩

/-- No jump in the loop is widened. -/
theorem settle_loop : Layout.settle (loopRows.map Item.narrow) = .ok loopLayout := by
  have placed : Layout.place (loopRows.map Item.narrow) = .ok loopLayout := rfl
  have widened : loopLayout.widen = .ok (loopRows.map Item.narrow) :=
    mapM_eq_ok_iff.2 (.cons rfl (.cons rfl (.cons rfl (.cons rfl
      (.cons (bind_eq_ok_iff.2 ⟨-20, distances_loop.1, rfl⟩) .nil)))))
  rw [Layout.settle, placed]
  dsimp only
  rw [widened]
  exact if_neg (Nat.lt_irrefl _)

/-- The loop is written. -/
theorem exists_ofItems_loop : ∃ a, ofItems (loopRows.map Item.narrow) = .ok a := by
  obtain ⟨back, default, target⟩ := distances_loop
  have far : ∀ {l : Label} {distance : Int}, loopLayout.labels.distance 1 l = .ok distance →
      Item.farBytes loopLayout.labels 1 l = .ok (Word.encode (Int32.ofInt distance)) :=
    fun known => bind_eq_ok_iff.2 ⟨_, known, rfl⟩
  obtain ⟨switch, table⟩ : ∃ bytes,
      Item.tableBytes loopLayout.labels 1 ⟨0⟩ 0 0 [⟨1⟩] = .ok bytes :=
    ⟨_, bind_eq_ok_iff.2 ⟨_, far default, bind_eq_ok_iff.2
      ⟨_, mapM_eq_ok_iff.2 (.cons (far target) .nil), rfl⟩⟩⟩
  obtain ⟨jump, goto⟩ : ∃ bytes,
      Item.jumpBytes loopLayout.labels 20 false Opcode.goto ⟨0⟩ = .ok bytes :=
    ⟨_, bind_eq_ok_iff.2 ⟨_, back, rfl⟩⟩
  have chunks : loopLayout.placed.mapM (Item.bytes loopLayout.labels)
      = .ok [[], [Opcode.iload0 + 1], switch, [], jump] :=
    mapM_eq_ok_iff.2 (.cons rfl (.cons rfl (.cons table (.cons rfl (.cons goto .nil)))))
  exact ⟨_, bind_eq_ok_iff.2 ⟨_, settle_loop, bind_eq_ok_iff.2
    ⟨_, bind_eq_ok_iff.2 ⟨_, chunks, rfl⟩, rfl⟩⟩⟩

theorem layout_exact_loop : ∃ a layout, ofItems (loopRows.map Item.narrow) = .ok a
    ∧ Layout.settle (loopRows.map Item.narrow) = .ok layout ∧ a.Exact loopRows layout := by
  obtain ⟨a, written⟩ := exists_ofItems_loop
  obtain ⟨layout, settles, exact⟩ := (layout_exact loopRows).2.2 a written
  exact ⟨a, layout, written, settles, exact⟩

end Assembly

end ClassInstrument
