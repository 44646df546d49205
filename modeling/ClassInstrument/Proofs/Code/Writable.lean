import ClassInstrument.Proofs.Code.Closed
import ClassInstrument.Proofs.Pool.Faults

/-!
# Closed bodies are written without a fault of their own

A closed body may be too large for a class file, but nothing that it says is in the way: its labels
are placed, its operands belong to their opcodes, and its variables do not end before they start.

* `Layout.blameless_settle` — jumps are laid out and widened, since their labels are placed;
* `Item.blameless_opBytes` — an operand that belongs to its opcode is written;
* `Code.Laid.blameless_encodeBehind` — so are the tables behind the code;
* `Code.Closed.blameless_encode` — **a closed body is written** without a fault that lies in it.
-/

namespace ClassInstrument

theorem LabelTable.blameless_distance {labels : LabelTable} {l : Label} {o : Nat}
    (placed : labels.offset l = .ok o) (source : Nat) : Blameless (labels.distance source l) := by
  unfold distance
  rw [placed]
  exact .ok _

/-! ### Layout -/

namespace Layout

theorem blameless_place (items : List Item) : Blameless (place items) := by
  suffices general : ∀ offset placed, Blameless (placeOnto offset placed items) from general 0 []
  induction items with
  | nil => exact fun offset placed => .ok _
  | cons item items ih =>
    intro offset placed
    simp only [placeOnto]
    split
    · exact .error rfl
    · exact ih _ _

theorem blameless_widenItem {labels : LabelTable} {p : Placed}
    (known : ∀ l ∈ p.2.insn.targets, ∃ o, labels.offset l = .ok o) :
    Blameless (widenItem labels p) := by
  unfold widenItem
  split
  · next offset op target index =>
    obtain ⟨o, placed⟩ := known target List.mem_cons_self
    refine (LabelTable.blameless_distance placed offset).bind fun distance _ => ?_
    split
    · exact .ok _
    · split
      · exact .ok _
      · exact .error rfl
  · exact .ok _

/-- **Jumps are laid out** whose labels are placed, unless the body is too large for them. -/
theorem blameless_settle {items : List Item} (named : Named (items.map Item.insn)) :
    Blameless (settle items) := by
  fun_induction settle items with
  | case1 items e refused =>
    intro e' h
    cases h
    exact blameless_place items _ refused
  | case2 items layout placed e refused =>
    intro e' h
    cases h
    rw [← insns_of_place placed] at named
    have each : ∀ p ∈ layout.placed, Blameless (widenItem layout.labels p) := fun p member =>
      blameless_widenItem fun l target =>
        ⟨_, offset_eq (place_spec placed).2.1 (named _ (List.mem_map_of_mem member) l target)⟩
    exact Avoids.mapM each _ refused
  | case3 items layout placed widened known fewer ih =>
    refine ih ?_
    rw [insns_of_widen known, insns_of_place placed]
    exact named
  | case4 items layout placed widened known done => exact .ok _

/-- The items that come out are those that went in, one behind the other. -/
theorem chained_of_settle {items : List Item} {layout : Layout} (h : settle items = .ok layout) :
    insns layout.placed = items.map Item.insn ∧ Chained 0 layout.placed layout.length := by
  fun_induction settle items with
  | case1 items e refused => cases h
  | case2 items placed known e refused => cases h
  | case3 items placed known widened found fewer ih =>
    obtain ⟨same, chained⟩ := ih h
    exact ⟨same.trans ((insns_of_widen found).trans (insns_of_place known)), chained⟩
  | case4 items placed known widened found done =>
    cases h
    exact ⟨insns_of_place known, (place_spec known).2.1⟩

end Layout

/-! ### Instructions -/

namespace Item

variable {labels : LabelTable} {offset : Nat}

theorem blameless_farBytes {target : Label} {o : Nat} (placed : labels.offset target = .ok o) :
    Blameless (farBytes labels offset target) :=
  (LabelTable.blameless_distance placed offset).bind fun _ _ => .ok _

theorem blameless_jumpBytes {target : Label} {o : Nat} (placed : labels.offset target = .ok o)
    (far : Bool) (op : Opcode) : Blameless (jumpBytes labels offset far op target) := by
  refine (LabelTable.blameless_distance placed offset).bind fun distance _ => ?_
  cases far <;> exact .ok _

theorem blameless_tableBytes {default : Label} {low high : Int32} {targets : List Label}
    (count : high.toInt - low.toInt + 1 = targets.length)
    (known : ∀ l ∈ default :: targets, ∃ o, labels.offset l = .ok o) :
    Blameless (tableBytes labels offset default low high targets) := by
  obtain ⟨⟨o, first⟩, others⟩ := List.forall_mem_cons.1 known
  unfold tableBytes
  rw [if_neg (not_not.2 count)]
  refine (blameless_farBytes first).bind fun _ _ => (Avoids.mapM fun l member => ?_).bind
    fun _ _ => .ok _
  obtain ⟨o, placed⟩ := others l member
  exact blameless_farBytes placed

theorem blameless_lookupBytes {default : Label} {pairs : List (Int32 × Label)}
    (known : ∀ l ∈ default :: pairs.map (·.2), ∃ o, labels.offset l = .ok o) :
    Blameless (lookupBytes labels offset default pairs) := by
  obtain ⟨⟨o, first⟩, others⟩ := List.forall_mem_cons.1 known
  refine (blameless_farBytes first).bind fun _ _ => (Avoids.mapM fun pair member => ?_).bind
    fun _ _ => .ok _
  obtain ⟨o, placed⟩ := others pair.2 (List.mem_map_of_mem (List.mem_mergeSort.1 member))
  exact (blameless_farBytes placed).map _

theorem blameless_interfaceBytes (op : Opcode) (member : MemberRef) (index : UInt16) :
    Blameless (interfaceBytes op member index) := by
  refine (Avoids.methodType (fun _ => rfl) _).bind fun type _ => ?_
  dsimp only
  split
  · exact .ok _
  · exact .error rfl

/-- **An operand is written that belongs to its opcode** and refers to labels that are placed. -/
theorem blameless_opBytes {op : Opcode} {operand : Operand} (takes : op.Takes operand)
    (holds : op.Holds operand) (known : ∀ l ∈ operand.targets, ∃ o, labels.offset l = .ok o)
    (index : UInt16) (far : Bool) : Blameless (opBytes labels offset index far op operand) := by
  obtain ⟨form, is, takes⟩ := takes
  have holds := holds form is
  unfold opBytes
  rw [is]
  cases takes with
  | signedByte value =>
    dsimp only
    rw [if_pos (show fitsByte value.toInt = true from holds)]
    exact .ok _
  | signedShort value =>
    dsimp only
    rw [if_pos (show fitsShort value.toInt = true from holds)]
    exact .ok _
  | elementType value =>
    dsimp only
    rw [if_pos (by simp [holds.1, holds.2])]
    exact .ok _
  | branch target =>
    obtain ⟨o, placed⟩ := known target List.mem_cons_self
    exact blameless_jumpBytes placed far op
  | tableSwitch default low high targets => exact blameless_tableBytes holds known
  | lookupSwitch default pairs => exact blameless_lookupBytes known
  | interfaceMethod member onInterface => exact blameless_interfaceBytes op member index
  | _ => exact .ok _

end Item

/-! ### Tables behind the code -/

theorem Attribute.blameless_encodeAll (attributes : List Attribute) :
    (Attribute.encodeAll attributes).Blameless := by
  refine (Builder.blameless_count _ _).bind fun _ => (Builder.Blameless.concat fun a _ => ?_).bind
    fun _ => .pure _
  exact (Builder.adds_addUtf8 _).blameless.bind fun _ => .ite (fun _ => .pure _) fun _ => .throw rfl

namespace Code

variable {labels : LabelTable}

theorem blameless_encodeRange {r : ExceptionRange}
    (known : ∀ l ∈ r.references, ∃ o, labels.offset l = .ok o) :
    (encodeRange labels r).Blameless := by
  obtain ⟨⟨start, hstart⟩, ⟨finish, hfinish⟩, ⟨handler, hhandler⟩, -⟩ : (∃ o, _) ∧ (∃ o, _)
    ∧ (∃ o, _) ∧ True := by simpa [ExceptionRange.references] using known
  unfold encodeRange
  rw [hstart, hfinish, hhandler]
  refine (Builder.Blameless.pure _).bind fun start => (Builder.Blameless.pure _).bind fun finish => ?_
  refine .ite (fun _ => .pure _) fun _ => (Builder.Blameless.pure _).bind fun handler => ?_
  exact (Builder.adds_addOptionalClass _).blameless.bind fun _ => .pure _

theorem blameless_encodeVariable {v : LocalVariable} {start finish : Nat}
    (first : labels.offset v.start = .ok start) (last : labels.offset v.finish = .ok finish)
    (forwards : start ≤ finish) : (encodeVariable labels v).Blameless := by
  unfold encodeVariable
  rw [first, last]
  show Builder.Blameless (if finish < start then _ else _)
  rw [if_neg (Nat.not_lt.2 forwards)]
  refine (Builder.adds_addUtf8 _).blameless.bind fun _ => ?_
  refine (Builder.adds_addUtf8 _).blameless.bind fun _ => ?_
  split
  · exact .pure _
  · exact (Builder.adds_addUtf8 _).blameless.bind fun _ => .pure _

theorem blameless_encodeType {type : VerificationType}
    (known : ∀ site, type.site? = some site → ∃ o, labels.offset site = .ok o) :
    (encodeType labels type).Blameless := by
  cases type with
  | object name => exact (Builder.adds_addClass name).blameless.bind fun _ => .pure _
  | uninitialized site =>
    obtain ⟨o, placed⟩ := known site rfl
    rw [encodeType, placed]
    exact (Builder.Blameless.pure o).bind fun _ => .pure _
  | _ => exact .pure _

theorem blameless_encodeFrame {frame : Frame}
    (known : ∀ l ∈ frame.sites, ∃ o, labels.offset l = .ok o) (delta : Nat) :
    (encodeFrame labels delta frame).Blameless := by
  have each : ∀ type ∈ frame.locals ++ frame.stack, (encodeType labels type).Blameless :=
    fun type member => blameless_encodeType fun site same =>
      known site (List.mem_filterMap.2 ⟨type, member, same⟩)
  refine (Builder.blameless_count _ _).bind fun _ => ?_
  refine (Builder.Blameless.concat fun type member =>
    each type (List.mem_append_left _ member)).bind fun _ => ?_
  refine (Builder.blameless_count _ _).bind fun _ => ?_
  exact (Builder.Blameless.concat fun type member =>
    each type (List.mem_append_right _ member)).bind fun _ => .pure _

theorem blameless_encodeFrames {frames : List (Nat × Frame)}
    (known : ∀ e ∈ frames, ∀ l ∈ e.2.sites, ∃ o, labels.offset l = .ok o) (major : UInt16) :
    (encodeFrames labels major frames).Blameless := by
  refine .ite (fun _ => .pure _) fun _ => (Builder.blameless_count _ _).bind fun _ => ?_
  refine (Builder.Blameless.concat fun e member => ?_).bind fun _ => .pure _
  rw [withDeltas_eq] at member
  obtain ⟨start, there⟩ := mem_deltasFrom member
  exact blameless_encodeFrame (known _ there) e.1

theorem blameless_encodeLines {insns : List Instruction}
    (known : ∀ row ∈ lines insns, ∃ o, labels.offset row.2 = .ok o) :
    (encodeLines labels insns).Blameless := by
  refine (Builder.Blameless.ofExcept (Avoids.mapM fun row member => ?_)).bind fun rows => ?_
  · obtain ⟨o, placed⟩ := known row member
    dsimp only
    rw [placed]
    exact .ok _
  · exact .ite (fun _ => .pure _) fun _ => (Builder.blameless_count _ _).bind fun _ => .pure _

theorem blameless_encodeVariables {vs : List LocalVariable}
    (each : ∀ v ∈ vs, (encodeVariable labels v).Blameless) :
    (encodeVariables labels vs).Blameless := by
  refine .ite (fun _ => .pure _) fun _ => (Builder.blameless_count _ _).bind fun _ => ?_
  refine (Builder.Blameless.mapM each).bind fun rows => .ite (fun _ => .pure _) fun _ => ?_
  exact (Builder.blameless_count _ _).bind fun _ => .pure _

/-! ### Whole bodies -/

namespace Laid

variable {code : Code} {layout : Layout} (laid : code.Laid layout) (closed : code.Closed)

include laid closed in
/-- A label that something refers to has the offset of the instruction it stands in front of. -/
theorem offset_place {l : Label} (member : l ∈ code.references) :
    layout.labels.offset l = .ok (Layout.boundary layout.placed layout.length
      (place code.instructions.toList l).index) := by
  have there : l ∈ Steps.labelsOf code.instructions.toList :=
    List.count_pos_iff.1 (by rw [closed.placed l member]; exact Nat.one_pos)
  rw [← laid.same] at there ⊢
  exact Layout.offset_eq laid.chained there

include laid closed in
/-- A variable does not end before it starts. -/
theorem blameless_encodeVariable {v : LocalVariable} (member : v ∈ code.localVariables) :
    (encodeVariable layout.labels v).Blameless := by
  have start := laid.offset_place closed (mem_references_variable member
    (show v.start ∈ v.references from List.mem_cons_self))
  have finish := laid.offset_place closed (mem_references_variable member
    (show v.finish ∈ v.references from List.mem_cons_of_mem _ List.mem_cons_self))
  obtain ⟨k, position, inside, -⟩ := laid.exists_position closed.placed
    (mem_references_variable member
      (show v.finish ∈ v.references from List.mem_cons_of_mem _ List.mem_cons_self))
  have forwards := closed.forwards v member
  have last : (place code.instructions.toList v.finish).index = k := by
    unfold place
    rw [position]
    rfl
  refine Code.blameless_encodeVariable start finish ?_
  rw [last] at forwards ⊢
  rw [← laid.same, ← Layout.length_starts] at inside
  by_contra less
  have := (Layout.boundary_lt_iff laid.chained inside (by omega)).1 (Nat.not_le.1 less)
  omega

include laid closed in
/-- **The tables behind the code are written**, since all that they refer to is placed. -/
theorem blameless_encodeBehind (major : UInt16) :
    (encodeBehind layout.labels major code.instructions.toList code.handlers code.localVariables
      (Assembly.framesOf layout)).Blameless := by
  have known : ∀ {l}, l ∈ code.references → ∃ o, layout.labels.offset l = .ok o :=
    fun member => ⟨_, laid.offset_place closed member⟩
  refine (Builder.Blameless.bind (.mapM fun r member => blameless_encodeRange fun l label =>
    known (mem_references_range member label)) fun rows =>
      (Builder.blameless_count _ _).bind fun _ => .pure _).bind fun ranges => ?_
  refine (blameless_encodeLines fun row member => known (mem_references_line member)).bind
    fun lines => ?_
  refine (blameless_encodeVariables fun v member => laid.blameless_encodeVariable closed member).bind
    fun localVariables => ?_
  refine (blameless_encodeFrames (fun e member l site => ?_) major).bind fun frames => ?_
  · rw [Layout.framesOf_eq laid.chained, laid.same] at member
    have inside := (mem_framesBefore (Layout.mem_framesAt member).2).resolve_left
      (Option.some_ne_none e.2).symm
    exact known (mem_references_insn inside site)
  · exact (Attribute.blameless_encodeAll _).bind fun _ => .pure _

include laid closed in
theorem blameless_code : Blameless layout.code := by
  refine (Avoids.mapM fun p member => ?_).bind fun _ _ => .ok _
  obtain ⟨offset, insn, index, far⟩ := p
  have inside : insn ∈ code.instructions.toList := by
    rw [← laid.same]
    exact List.mem_map_of_mem member
  cases insn with
  | op op operand =>
    exact Item.blameless_opBytes (closed.general op operand inside).2
      (closed.exact _ inside op operand rfl)
      (fun l target => ⟨_, laid.offset_place closed (mem_references_insn inside target)⟩) index far
  | _ => exact .ok _

end Laid

/-- The constants in an operand are added without such a fault. -/
theorem blameless_addConstants (insn : Instruction) : insn.addConstants.Blameless := by
  cases insn with
  | op op operand => exact operand.adds_addConstants.blameless
  | _ => exact .pure 0

/-- **A closed body is written** without a fault that lies in it. -/
theorem Closed.blameless_encode {code : Code} (closed : code.Closed) (major : UInt16) :
    (code.encode major).Blameless := by
  rw [encode_eq, mapM_toItem, bind_map_left]
  refine (Builder.Blameless.mapM fun insn _ => blameless_addConstants insn).bind fun indices => ?_
  have insns := map_insn_fill code.instructions.toList indices
  have named : Layout.Named ((fill code.instructions.toList indices).map Item.insn) := by
    rw [insns]
    intro insn member l target
    refine List.count_pos_iff.1 ?_
    rw [closed.placed l (mem_references_insn member ?_)]
    · exact Nat.one_pos
    · cases insn with
      | op op operand => exact target
      | _ => cases target
  have laid : ∀ layout, Layout.settle (fill code.instructions.toList indices) = .ok layout →
      code.Laid layout := by
    intro layout settled
    obtain ⟨same, chained⟩ := Layout.chained_of_settle settled
    exact ⟨chained, same.trans insns⟩
  refine Builder.Blameless.bind_of_ok (.ofExcept ?_) fun t assembly t' assembled => ?_
  · refine (Layout.blameless_settle named).bind fun layout settled => ?_
    exact ((laid layout settled).blameless_code closed).bind fun _ _ => .ok _
  · obtain ⟨known, -⟩ := Builder.ofExcept_eq_ok_iff.1 assembled
    obtain ⟨layout, settled, known⟩ := Traverse.bind_eq_ok_iff.1 known
    obtain ⟨body, emitted, known⟩ := Traverse.bind_eq_ok_iff.1 known
    cases known
    exact ((laid layout settled).blameless_encodeBehind closed major).bind fun _ => .pure _

end Code

end ClassInstrument
