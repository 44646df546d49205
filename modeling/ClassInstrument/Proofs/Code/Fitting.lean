import ClassInstrument.Proofs.Code.Widening
import ClassInstrument.Proofs.Code.Writable

/-!
# Bodies that fit are not refused for their length

A body is refused if a distance does not fit two bytes and its jump has no wide form, or if the body
is longer than a class file allows.  That is never done to a body that could be laid out with some of
its jumps widened, as long as the jumps across switches have two bytes to spare.  Without these two
bytes it is done: a distance is judged while other jumps are still to be widened.

* `Failure.isTooLong` — the two failures;
* `Assembly.ofInstructions` — the part of writing a body in which they arise;
* `Layout.Encodes` — a layout with some jumps widened in which all others fit;
* `Assembly.not_tooLong_of_encodes` — **a body with such a layout is not refused for its length**;
* `Assembly.not_tooLong_of_plain` — a body without switches needs nothing to spare;
* `Assembly.refuses_encodable` — the two bytes are needed.
-/

namespace ClassInstrument

open Traverse

/-- A distance does not fit two bytes, or a body is too long. -/
def Failure.isTooLong : Failure → Bool
  | .encoding (.branchTooFar ..) | .encoding (.bodyTooLong _) => true
  | _ => false

/-! ### The bytes of a body -/

namespace Item

variable {labels : LabelTable} {offset : Nat}

theorem avoids_distance (target : Label) :
    Avoids Failure.isTooLong (labels.distance offset target) := by
  unfold LabelTable.distance LabelTable.offset
  cases labels[target]? with
  | none => exact .error rfl
  | some place => exact .ok _

theorem avoids_farBytes (target : Label) :
    Avoids Failure.isTooLong (farBytes labels offset target) :=
  (avoids_distance target).bind fun _ _ => .ok _

theorem avoids_jumpBytes (far : Bool) (op : Opcode) (target : Label) :
    Avoids Failure.isTooLong (jumpBytes labels offset far op target) := by
  refine (avoids_distance target).bind fun distance _ => ?_
  cases far <;> exact .ok _

theorem avoids_tableBytes (default : Label) (low high : Int32) (targets : List Label) :
    Avoids Failure.isTooLong (tableBytes labels offset default low high targets) := by
  unfold tableBytes
  split
  · exact .error rfl
  · exact (avoids_farBytes default).bind fun _ _ =>
      (Avoids.mapM fun target _ => avoids_farBytes target).bind fun _ _ => .ok _

theorem avoids_lookupBytes (default : Label) (pairs : List (Int32 × Label)) :
    Avoids Failure.isTooLong (lookupBytes labels offset default pairs) :=
  (avoids_farBytes default).bind fun _ _ =>
    (Avoids.mapM fun pair _ => (avoids_farBytes pair.2).map _).bind fun _ _ => .ok _

theorem avoids_interfaceBytes (op : Opcode) (member : MemberRef) (index : UInt16) :
    Avoids Failure.isTooLong (interfaceBytes op member index) := by
  refine (Avoids.methodType (fun _ => rfl) member.desc).bind fun type _ => ?_
  dsimp only
  split
  · exact .ok _
  · exact .error rfl

theorem avoids_opBytes (index : UInt16) (far : Bool) (op : Opcode) (operand : Operand) :
    Avoids Failure.isTooLong (opBytes labels offset index far op operand) := by
  have checked : ∀ {c : Prop} [Decidable c] {bytes : Bytes} {cause : EncodingFault},
      (Failure.encoding cause).isTooLong = false →
        Avoids Failure.isTooLong (if c then .ok bytes else .error (.encoding cause)) := by
    intro c _ bytes cause other
    split
    · exact .ok _
    · exact .error other
  unfold opBytes
  split
  all_goals first
    | exact .ok _
    | exact .error rfl
    | exact checked rfl
    | exact avoids_jumpBytes _ _ _
    | exact avoids_tableBytes _ _ _ _
    | exact avoids_lookupBytes _ _
    | exact avoids_interfaceBytes _ _ _

/-- Once a body is laid out, nothing in it is too long. -/
theorem avoids_bytes (p : Placed) : Avoids Failure.isTooLong (Item.bytes labels p) := by
  obtain ⟨offset, insn, index, far⟩ := p
  cases insn with
  | op op operand => exact avoids_opBytes index far op operand
  | _ => exact .ok _

end Item

/-- **A body that is laid out** is not refused for its length any more. -/
theorem Assembly.avoids_ofLayout (layout : Layout) : Avoids Failure.isTooLong (ofLayout layout) := by
  have code : Avoids Failure.isTooLong layout.code :=
    (Avoids.mapM fun p _ => Item.avoids_bytes p).bind fun _ _ => .ok _
  exact code.bind fun _ _ => .ok _

/-! ### Whole bodies -/

namespace Layout

/-- An item whose end is known, in front of others. -/
theorem Chained.step {offset next finish : Nat} {item : Item} {placed : List Placed}
    (size : offset + item.size offset = next) (rest : Chained next placed finish) :
    Chained offset ((offset, item) :: placed) finish := .cons (size ▸ rest)

/-- A layout of some items with some `goto` and `jsr` widened, in which all other distances fit. -/
def Encodes (items : List Item) (layout : Layout) : Prop :=
  ∃ wider, List.Forall₂ WidenedAlone items wider ∧ place wider = .ok layout
    ∧ ∀ p ∈ layout.placed, Fits layout.labels p

/-- Without switches nothing has to be spared. -/
theorem Encodes.spares {items : List Item} {layout : Layout} (h : Encodes items layout)
    (plain : ∀ insn ∈ items.map Item.insn, insn.isSwitch = false) : layout.Spares := by
  obtain ⟨wider, widened, placed, -⟩ := h
  rintro p - op target - - place - ⟨q, member, switch, -⟩
  have inside : q.2.insn ∈ items.map Item.insn := by
    rw [← insns_eq widened, ← insns_of_place placed]
    exact List.mem_map_of_mem member
  rw [plain _ inside] at switch
  cases switch

end Layout

/-- Add the constants of a body, lay it out and write it. -/
def Assembly.ofInstructions (insns : List Instruction) : Builder Assembly := do
  let items ← insns.mapM Instruction.toItem
  Builder.ofExcept (ofItems items)

namespace Code

/-- The items of a body are its instructions, in their order. -/
theorem insns_of_toItem {insns : List Instruction} {items : List Item} {t s : ConstantTables}
    (h : insns.mapM Instruction.toItem t = .ok items s) : items.map Item.insn = insns := by
  rw [mapM_toItem, ← bind_pure_comp, Builder.bind_eq_ok_iff] at h
  obtain ⟨indices, s, -, h⟩ := h
  cases h
  exact map_insn_fill insns indices

end Code

namespace Assembly

section Instructions

variable {insns : List Instruction} {t : ConstantTables} (named : Layout.Named insns)

include named in
/-- A body with such a layout, with two bytes to spare across switches, is laid out. -/
theorem exists_settle {items : List Item} {s : ConstantTables}
    (resolved : insns.mapM Instruction.toItem t = .ok items s) {layout : Layout}
    (encodes : Layout.Encodes items layout) (spares : layout.Spares) :
    ∃ settled, Layout.settle items = .ok settled := by
  obtain ⟨wider, widened, placed, near⟩ := encodes
  rw [← Code.insns_of_toItem resolved] at named
  obtain ⟨settled, settles, -⟩ := Layout.settle_within named widened placed near spares
  exact ⟨settled, settles⟩

/-- A body that is laid out fails for another reason than its length, if it fails. -/
theorem avoids_ofInstructions (laid : ∀ items s, insns.mapM Instruction.toItem t = .ok items s →
      ∃ layout, Layout.settle items = .ok layout) {e : Failure} {t' : ConstantTables}
    (failed : ofInstructions insns t = .error e t') : e.isTooLong = false := by
  rcases Builder.bind_eq_error_iff.1 failed with full | ⟨items, s, resolved, refused⟩
  · have adds := Builder.Adds.mapM fun insn (_ : insn ∈ insns) => insn.adds_toItem
    rcases adds.full full with rfl | rfl <;> rfl
  · obtain ⟨layout, settles⟩ := laid items s resolved
    obtain ⟨refused, -⟩ := Builder.ofExcept_eq_error_iff.1 refused
    rw [ofItems, settles] at refused
    exact avoids_ofLayout layout e refused

include named in
/-- **A body is not refused for its length if it has a layout**, with some jumps widened, in which
all other distances fit, and fit with two bytes to spare if a switch is in between.  It is laid out,
and whatever fails afterwards is of another kind. -/
theorem not_tooLong_of_encodes (encodable : ∀ items s, insns.mapM Instruction.toItem t = .ok items s →
      ∃ layout, Layout.Encodes items layout ∧ layout.Spares) :
    (∀ items s, insns.mapM Instruction.toItem t = .ok items s →
        ∃ layout, Layout.settle items = .ok layout)
      ∧ ∀ e t', ofInstructions insns t = .error e t' → e.isTooLong = false := by
  have laid : ∀ items s, insns.mapM Instruction.toItem t = .ok items s →
      ∃ layout, Layout.settle items = .ok layout := fun items s resolved => by
    obtain ⟨layout, encodes, spares⟩ := encodable items s resolved
    exact exists_settle named resolved encodes spares
  exact ⟨laid, fun e t' failed => avoids_ofInstructions laid failed⟩

include named in
/-- Without switches every layout in which the distances fit will do. -/
theorem not_tooLong_of_plain (plain : ∀ insn ∈ insns, insn.isSwitch = false)
    (encodable : ∀ items s, insns.mapM Instruction.toItem t = .ok items s →
      ∃ layout, Layout.Encodes items layout) {e : Failure} {t' : ConstantTables}
    (failed : ofInstructions insns t = .error e t') : e.isTooLong = false := by
  refine avoids_ofInstructions (fun items s resolved => ?_) failed
  obtain ⟨layout, encodes⟩ := encodable items s resolved
  exact exists_settle named resolved encodes
    (encodes.spares (Code.insns_of_toItem resolved ▸ plain))

end Instructions

/-! ### A jump and a branch across one switch -/

/-- The end, to which everything in the body leads. -/
def theEnd : Label := ⟨0⟩

/-- A jump and a branch to the end, across a switch with so many targets. -/
def crossing (n : Nat) : List Instruction :=
  [.op Opcode.goto (.jump theEnd), .op Opcode.iconst0 .none, .op Opcode.ifeq (.jump theEnd),
    .op Opcode.iconst0 .none,
    .op Opcode.tableswitch (.tableSwitch theEnd 0 (Int32.ofNat n - 1) (List.replicate n theEnd)),
    .label theEnd, .op Opcode.vreturn .none]

/-- Its items, the jump to the end being wide or not. -/
def crossingItems (n : Nat) (far : Bool) : List Item :=
  ⟨.op Opcode.goto (.jump theEnd), 0, far⟩ :: (crossing n).tail.map fun insn => ⟨insn, 0, false⟩

/-- Their layout: the padding of the switch is two bytes shorter if the jump is wide. -/
def crossingLayout (n : Nat) (far : Bool) : Layout where
  placed := (if far then [0, 5, 6, 9, 10, 24 + 4 * n, 24 + 4 * n]
    else [0, 3, 4, 7, 8, 24 + 4 * n, 24 + 4 * n]).zip (crossingItems n far)
  length := 25 + 4 * n

theorem named_crossing (n : Nat) : Layout.Named (crossing n) := by
  intro insn member l target
  have same : l = theEnd := by
    simp only [crossing, List.mem_cons, List.not_mem_nil, or_false] at member
    rcases member with rfl | rfl | rfl | rfl | rfl | rfl | rfl <;>
      simp only [Instruction.targets, Operand.targets, List.mem_cons, List.mem_replicate,
        List.not_mem_nil, or_false] at target
    · exact target
    · exact target
    · exact target.elim id And.right
  rw [same]
  exact List.mem_filterMap.2 ⟨.label theEnd, by simp [crossing], rfl⟩

theorem resolved_crossing (n : Nat) (t : ConstantTables) :
    (crossing n).mapM Instruction.toItem t = .ok (crossingItems n false) t := rfl

theorem place_crossing {n : Nat} (short : n ≤ 16000) (far : Bool) :
    Layout.place (crossingItems n far) = .ok (crossingLayout n far) := by
  have switch : ∀ offset, switchPadding offset + offset = 11 → ∀ index far,
      offset + Item.size offset ⟨.op Opcode.tableswitch
        (.tableSwitch theEnd 0 (Int32.ofNat n - 1) (List.replicate n theEnd)), index, far⟩
          = 24 + 4 * n := by
    intro offset padding index far
    simp only [Item.size, Item.opSize, List.length_replicate]
    omega
  have items : (crossingLayout n far).placed.map Prod.snd = crossingItems n far := by
    cases far <;> rfl
  rw [← items]
  refine Layout.place_of_chained (crossingLayout n far) ?_ ?_
  · have last : 24 + 4 * n + 1 = 25 + 4 * n := by omega
    cases far
    · exact .step rfl (.step rfl (.step rfl (.step rfl (.step (switch 8 rfl 0 false)
        (.step rfl (.step last (.nil _)))))))
    · exact .step rfl (.step rfl (.step rfl (.step rfl (.step (switch 10 rfl 0 false)
        (.step rfl (.step last (.nil _)))))))
  · show 25 + 4 * n ≤ 65535
    omega

theorem offset_crossing (n : Nat) (far : Bool) :
    (crossingLayout n far).labels.offset theEnd = .ok (24 + 4 * n) := by
  have labels : (crossingLayout n far).labels
      = (∅ : LabelTable).insert theEnd (24 + 4 * n) := by
    cases far <;> rfl
  rw [labels]
  simp [LabelTable.offset]

/-- With the wide jump only the branch is narrow. -/
theorem branch_of_narrow {n : Nat} {p : Placed} (member : p ∈ (crossingLayout n true).placed)
    {op : Opcode} {target : Label} (jump : p.2.insn = .op op (.jump target))
    (narrow : p.2.far = false) : p.1 = 6 ∧ target = theEnd := by
  have listed : p ∈ [0, 5, 6, 9, 10, 24 + 4 * n, 24 + 4 * n].zip (crossingItems n true) := member
  simp only [crossingItems, crossing, List.tail_cons, List.map_cons, List.map_nil,
    List.zip_cons_cons, List.zip_nil_right, List.mem_cons, List.not_mem_nil, or_false] at listed
  rcases listed with rfl | rfl | rfl | rfl | rfl | rfl | rfl
  · cases narrow
  · cases jump
  · cases jump
    exact ⟨rfl, rfl⟩
  all_goals cases jump

/-- The branch fits across so many targets. -/
theorem encodes_crossing {n : Nat} (near : n ≤ 8187) :
    Layout.Encodes (crossingItems n false) (crossingLayout n true) := by
  refine ⟨crossingItems n true, .cons (.inr ⟨rfl, rfl, rfl⟩) ?_, place_crossing (by omega) true,
    fun p member op target jump narrow distance known => ?_⟩
  · exact List.forall₂_same.2 fun item _ => .inl rfl
  · obtain ⟨start, rfl⟩ := branch_of_narrow member jump narrow
    rw [start, LabelTable.distance_of_offset (offset_crossing n true)] at known
    cases known
    simp only [fitsShort, Bool.and_eq_true, decide_eq_true_eq]
    omega

/-- With a target less there are two bytes to spare. -/
theorem spares_crossing {n : Nat} (near : n ≤ 8186) : (crossingLayout n true).Spares := by
  intro p member op target jump narrow place known _
  obtain ⟨start, rfl⟩ := branch_of_narrow member jump narrow
  rw [offset_crossing] at known
  cases known
  omega

/-- The jump across 8186 targets has to be widened, and the branch is not refused for that. -/
theorem not_tooLong_of_encodes_crossing : Layout.Named (crossing 8186)
    ∧ (∃ layout, Layout.Encodes (crossingItems 8186 false) layout ∧ layout.Spares)
    ∧ (∃ layout, Layout.settle (crossingItems 8186 false) = .ok layout)
    ∧ ∀ e t', ofInstructions (crossing 8186) ⟨.empty, .empty⟩ = .error e t' →
      e.isTooLong = false := by
  have encodable : ∃ layout, Layout.Encodes (crossingItems 8186 false) layout ∧ layout.Spares :=
    ⟨_, encodes_crossing (by decide), spares_crossing (by decide)⟩
  have known : ∀ items s, (crossing 8186).mapM Instruction.toItem ⟨.empty, .empty⟩ = .ok items s →
      ∃ layout, Layout.Encodes items layout ∧ layout.Spares := fun items s resolved => by
    rw [resolved_crossing] at resolved
    cases resolved
    exact encodable
  obtain ⟨laid, other⟩ := not_tooLong_of_encodes (named_crossing 8186) known
  exact ⟨named_crossing 8186, encodable, laid _ _ (resolved_crossing 8186 _), other⟩

/-- **The two bytes are needed.**  A branch across 8187 targets fits once the jump is widened, but it
is refused before that. -/
theorem refuses_encodable (t : ConstantTables) :
    (∃ layout, Layout.Encodes (crossingItems 8187 false) layout)
      ∧ ofInstructions (crossing 8187) t
        = .error (.encoding (.branchTooFar 32768 (.op Opcode.ifeq (.jump theEnd)))) t := by
  refine ⟨⟨_, encodes_crossing (by decide)⟩, ?_⟩
  have offset : (crossingLayout 8187 false).labels.offset theEnd = .ok 32772 :=
    offset_crossing 8187 false
  have goto : ∃ item, Layout.widenItem (crossingLayout 8187 false).labels
      (0, ⟨.op Opcode.goto (.jump theEnd), 0, false⟩) = .ok item :=
    ⟨_, bind_eq_ok_iff.2 ⟨_, LabelTable.distance_of_offset offset 0, rfl⟩⟩
  have ifeq : Layout.widenItem (crossingLayout 8187 false).labels
      (4, ⟨.op Opcode.ifeq (.jump theEnd), 0, false⟩)
        = .error (.encoding (.branchTooFar 32768 (.op Opcode.ifeq (.jump theEnd)))) :=
    bind_eq_error_iff.2 (.inr ⟨_, LabelTable.distance_of_offset offset 4, rfl⟩)
  -- the jump is about to be widened when the branch is judged
  have widen : (crossingLayout 8187 false).widen
      = .error (.encoding (.branchTooFar 32768 (.op Opcode.ifeq (.jump theEnd)))) := by
    show ([(0, Item.mk (.op Opcode.goto (.jump theEnd)) 0 false),
        (3, Item.mk (.op Opcode.iconst0 .none) 0 false)]
      ++ (4, Item.mk (.op Opcode.ifeq (.jump theEnd)) 0 false) :: _).mapM _ = _
    refine mapM_eq_error (fun p member => ?_) ifeq
    rcases List.mem_cons.1 member with rfl | member
    · exact goto
    · obtain rfl := List.mem_singleton.1 member
      exact ⟨_, rfl⟩
  have settle : Layout.settle (crossingItems 8187 false)
      = .error (.encoding (.branchTooFar 32768 (.op Opcode.ifeq (.jump theEnd)))) := by
    rw [Layout.settle, place_crossing (by decide) false]
    dsimp only
    rw [widen]
  exact Builder.bind_eq_error_iff.2 (.inr ⟨_, t, resolved_crossing 8187 t,
    Builder.ofExcept_eq_error_iff.2 ⟨bind_eq_error_iff.2 (.inl settle), rfl⟩⟩)

end Assembly

end ClassInstrument
