import ClassInstrument.Proofs.Typing.Entry
import ClassInstrument.Proofs.Typing.NewProblem
import ClassInstrument.Proofs.Typing.PaddedRuns

/-!
# The locals of a new body

Dead code may have named locals that nothing else names.  They are gone when a new body is measured
again, and the state at its start has fewer locals.

* `Code.localSize_eq_ok_iff` — how locals are counted;
* `Code.entrySlots_le_iff` — **there is room for the receiver and all arguments** just if they can
  be counted;
* `Code.Computed.exists_localSize` — **a new body has no more locals**, and enough of them;
* `Code.exists_entryState` — **the state at the start with fewer locals**;
* `State.frame_pad` — the frame of a state with more locals.
-/

namespace ClassInstrument

/-! ### States with fewer locals -/

/-- What holds nothing at the end does not show in a frame. -/
theorem FramePlan.trim_append (entries : List VerificationType) (count : Nat) :
    trim (entries ++ List.replicate count .top) = trim entries := by
  unfold trim
  rw [List.reverse_append, List.reverse_replicate]
  induction count with
  | zero => rfl
  | succ count ih => exact ih

theorem Slot.collapseOnto_top (found slots : List Slot) :
    collapseOnto found (.top :: slots) = collapseOnto (.top :: found) slots := by
  cases slots <;> rfl

theorem Slot.collapseOnto_tops (found : List Slot) (count : Nat) :
    collapseOnto found (List.replicate count .top)
      = found.reverse ++ List.replicate count .top := by
  induction count generalizing found with
  | zero => exact (List.append_nil _).symm
  | succ count ih =>
    rw [List.replicate_succ, collapseOnto_top, ih, List.reverse_cons, List.append_assoc]
    rfl

theorem Slot.trim_collapseOnto (found slots : List Slot) (count : Nat) :
    FramePlan.trim (collapseOnto found (slots ++ List.replicate count .top))
      = FramePlan.trim (collapseOnto found slots) := by
  fun_induction collapseOnto found slots with
  | case1 found =>
    rw [List.nil_append, collapseOnto_tops, FramePlan.trim_append]
  | case2 found last =>
    cases count with
    | zero => rfl
    | succ count =>
      rw [List.replicate_succ, List.singleton_append, collapseOnto]
      split
      · rw [collapseOnto_tops, FramePlan.trim_append]
      · rw [collapseOnto_top, collapseOnto_tops, List.reverse_cons, List.append_assoc,
          List.singleton_append, ← List.replicate_succ, FramePlan.trim_append]
  | case3 found first next slots wide ih =>
    rw [List.cons_append, List.cons_append, collapseOnto, if_pos wide]
    exact ih
  | case4 found first next slots narrow ih =>
    rw [List.cons_append, List.cons_append, collapseOnto, if_neg narrow]
    exact ih

/-- **More locals do not show in a frame.** -/
theorem State.frame_pad (more : Nat) (s : State) : (s.pad more).frame = s.frame :=
  congrArg (Frame.mk · _) (Slot.trim_collapseOnto [] s.locals more)

/-! ### Counting locals -/

theorem foldl_max_le_iff {l : List Nat} {a b : Nat} :
    l.foldl max a ≤ b ↔ a ≤ b ∧ ∀ x ∈ l, x ≤ b := by
  induction l generalizing a with
  | nil => simp
  | cons x l ih => rw [List.foldl_cons, ih, Nat.max_le, List.forall_mem_cons, and_assoc]

namespace Code

/-- The slots that the instructions of a body name, up to each one of them. -/
def slotsNamed (code : Code) : List Nat :=
  (code.instructions.toList.filter (!·.isFrame)).filterMap slotsUsed

/-- How locals are counted. -/
theorem localSize_eq_ok_iff {header : MethodHeader} {code : Code} {locals : Nat} :
    localSize header (code.instructions.toList.filter (!·.isFrame)) = .ok locals
      ↔ ∃ type, methodType header.desc = .ok type ∧ (∀ used ∈ code.slotsNamed, used ≤ 65535)
        ∧ code.slotsNamed.foldl max (header.entrySlots type % 65536) = locals := by
  refine Traverse.bind_eq_ok_iff.trans (exists_congr fun type => and_congr_right fun _ => ?_)
  unfold slotsNamed
  dsimp only
  rw [header.toNat_counted]
  generalize (code.instructions.toList.filter (!·.isFrame)).filterMap slotsUsed = named
  have few : named.any (65535 < ·) = true ↔ ¬∀ used ∈ named, used ≤ 65535 := by
    simp
  split
  · next many => exact ⟨fun h => (nomatch h), fun h => absurd h.1 (few.1 many)⟩
  · next enough =>
    rw [few, not_not] at enough
    exact ⟨fun h => ⟨enough, Except.ok.inj h⟩, fun h => congrArg Except.ok h.2⟩

section

variable {header : MethodHeader} {code : Code} {locals : Nat}
  (size : localSize header (code.instructions.toList.filter (!·.isFrame)) = .ok locals)

include size

/-- Locals are counted in two bytes. -/
theorem localSize_le : locals ≤ 65535 := by
  obtain ⟨type, -, named, counted⟩ := localSize_eq_ok_iff.1 size
  have few := Nat.mod_lt (header.entrySlots type) (show 65536 > 0 by decide)
  exact counted ▸ foldl_max_le_iff.2 ⟨Nat.le_of_lt_succ few, named⟩

/-- **There is room for the receiver and all arguments**, just if they can be counted. -/
theorem entrySlots_le_iff {type : MethodType} (parsed : methodType header.desc = .ok type) :
    header.entrySlots type ≤ locals ↔ header.entrySlots type ≤ 65535 := by
  obtain ⟨type', parsed', -, counted⟩ := localSize_eq_ok_iff.1 size
  cases parsed.symm.trans parsed'
  constructor
  · exact fun room => Nat.le_trans room (localSize_le size)
  · intro few
    have room := (foldl_max_le_iff.1 (Nat.le_of_eq counted)).1
    rwa [Nat.mod_eq_of_lt (Nat.lt_succ_of_le few)] at room

end

/-- Only the instructions count. -/
theorem slotsNamed_eq (code : Code) :
    code.slotsNamed = (code.steps.map Step.insn).filterMap slotsUsed := by
  have marks : ∀ marks : List Instruction, (∀ mark ∈ marks, mark.isPseudo = true) →
      marks.filterMap slotsUsed = [] := by
    intro marks pseudo
    refine List.filterMap_eq_nil_iff.2 fun mark member => ?_
    have := pseudo mark member
    cases mark with
    | op op operand => cases this
    | _ => rfl
  have tidy : code.unframed.Tidy := Steps.tidy_ofList _
  have whole : code.slotsNamed = code.unframed.toList.filterMap slotsUsed := by
    rw [slotsNamed, unframed, Steps.toList_ofList]
  rw [whole, Steps.toList, List.filterMap_append, marks _ tidy.tail, List.append_nil,
    List.filterMap_flatMap, List.filterMap_map, List.filterMap_eq_flatMap_toList]
  refine List.flatMap_congr fun step member => ?_
  rw [List.filterMap_append, marks _ (tidy.marks step member), List.nil_append,
    List.filterMap_eq_flatMap_toList]
  exact List.append_nil _

theorem mem_slotsNamed {code : Code} {used : Nat} :
    used ∈ code.slotsNamed ↔ ∃ step ∈ code.steps, slotsUsed step.insn = some used := by
  rw [slotsNamed_eq, List.mem_filterMap]
  simp only [List.mem_map, exists_exists_and_eq_and]

variable {le : String → String → Prop} {hierarchy : Hierarchy} {header : MethodHeader}
  {code code' : Code} {p : TypingProblem} {entry : State} {t : Typing} {points : List Nat}
  {ins : FramePlan.Insertions}

/-- **A new body has no more locals**, and enough for all that it names. -/
theorem Computed.exists_localSize
    (computed : Computed le hierarchy header code p entry t points ins code') {locals : Nat}
    (size : localSize header (code.instructions.toList.filter (!·.isFrame)) = .ok locals) :
    ∃ fewer, localSize header (code'.instructions.toList.filter (!·.isFrame)) = .ok fewer
      ∧ fewer ≤ locals ∧ ∀ step ∈ code'.steps, step.NamesBelow fewer := by
  obtain ⟨type, parsed, few, rfl⟩ := localSize_eq_ok_iff.1 size
  have old : ∀ used ∈ code'.slotsNamed, used ∈ code.slotsNamed := by
    intro used member
    obtain ⟨step, inside, names⟩ := mem_slotsNamed.1 member
    obtain ⟨k, here⟩ := List.mem_iff_getElem?.1 inside
    rcases computed.reached_or_simple here with ⟨old, -, there, same⟩ | ⟨-, op, simple⟩
    · exact mem_slotsNamed.2 ⟨old, List.mem_of_getElem? there, by rw [same, names]⟩
    · rw [simple] at names
      cases names
  have more := localSize_eq_ok_iff.2 ⟨type, parsed, fun used member => few used (old used member),
    rfl⟩
  generalize header.entrySlots type % 65536 = arguments at more ⊢
  have bounds := foldl_max_le_iff.1 (Nat.le_refl (code.slotsNamed.foldl max arguments))
  have bounds' := foldl_max_le_iff.1 (Nat.le_refl (code'.slotsNamed.foldl max arguments))
  refine ⟨_, more, ?_, fun step member used names => ?_⟩
  · exact foldl_max_le_iff.2 ⟨bounds.1, fun used member => bounds.2 used (old used member)⟩
  · exact bounds'.2 used (mem_slotsNamed.2 ⟨step, member, names⟩)

/-! ### The state at the start -/

/-- **The state at the start with fewer locals**, if there is still room for the entry frame. -/
theorem exists_entryState {locals fewer : Nat} {frame : Frame}
    (first : header.entryFrame = .ok frame)
    (enters : TypingProblem.entryState header locals = .ok entry)
    (room : (Slot.expand frame.locals).length ≤ fewer) (le : fewer ≤ locals) :
    ∃ entry', TypingProblem.entryState header fewer = .ok entry'
      ∧ entry = entry'.pad (locals - fewer) ∧ Slot.Paired entry'.locals
      ∧ entry'.locals.length = fewer := by
  obtain ⟨_, first', rest⟩ := Traverse.bind_eq_ok_iff.1 enters
  cases first.symm.trans first'
  cases rest
  refine ⟨_, Traverse.bind_eq_ok_iff.2 ⟨frame, first, rfl⟩, ?_⟩
  dsimp only
  have paired := Slot.paired_expand frame.locals
  rw [MethodHeader.declared_entryFrame first]
  generalize Slot.expand frame.locals = slots at room paired ⊢
  rw [List.take_of_length_le room, List.take_of_length_le (Nat.le_trans room le)]
  refine ⟨?_, paired.append (Slot.paired_replicate_top _), ?_⟩
  · rw [State.pad, List.append_assoc, List.replicate_append_replicate]
    congr 3
    omega
  · rw [List.length_append, List.length_replicate]
    omega

end Code

end ClassInstrument
