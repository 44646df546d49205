import Mathlib.Data.List.DropRight
import ClassInstrument.Proofs.Typing.NewLocals
import ClassInstrument.Proofs.Typing.Occurring
import ClassInstrument.Proofs.Typing.Sound

/-!
# Frames tell everything

A frame lists values instead of slots, and leaves out what holds nothing at the end of the locals.
A reader puts a slot that holds nothing behind every value of two slots, and as many behind the
last local as are missing.  If a value ever lacked its second half, all locals behind it would be
off by one.

* `Slot.expand_collapse` — from slots to values and back;
* `Frame.toState` — **what a reader makes of a frame**;
* `State.toState_frame` — which is the state that the frame was made from;
* `State.Told` — states that are told by their frames, once allocation sites have labels;
* `TypingProblem.entryState_eq` — the state at the start is told by the entry frame;
* `Code.frames_tell` — **nothing that an analysis knows is lost**;
* `Code.withFrames_tells` — the frames of a new body tell their states.
-/

namespace ClassInstrument

/-! ### Values and slots -/

namespace Slot

theorem expand_tops (count : Nat) :
    expand (List.replicate count .top) = List.replicate count .top := by
  induction count with
  | zero => rfl
  | succ count ih => exact congrArg (.top :: ·) ih

/-- With both halves of every value, the values found so far are what is in front of the slots that
are left. -/
theorem expand_collapseOnto {slots : List Slot} (found : List Slot) (paired : Paired slots) :
    expand (collapseOnto found slots) = expand found.reverse ++ slots := by
  fun_induction collapseOnto found slots with
  | case1 found => exact (List.append_nil _).symm
  | case2 found last =>
    have narrow : ¬last.isWide = true := by
      intro wide
      cases (paired_cons_iff.1 paired).1 wide
    rw [List.reverse_cons, expand_append]
    show expand found.reverse ++ (widen last ++ []) = _
    rw [widen, if_neg narrow, List.append_nil]
  | case3 found first next slots wide ih =>
    obtain ⟨half, rest⟩ := paired_cons_iff.1 paired
    cases half wide
    rw [ih (paired_cons_iff.1 rest).2, List.reverse_cons, expand_append, List.append_assoc]
    show expand found.reverse ++ ((widen first ++ []) ++ slots) = _
    rw [widen, if_pos wide]
    rfl
  | case4 found first next slots narrow ih =>
    rw [ih (paired_cons_iff.1 paired).2, List.reverse_cons, expand_append, List.append_assoc]
    show expand found.reverse ++ ((widen first ++ []) ++ next :: slots) = _
    rw [widen, if_neg narrow]
    rfl

/-- **Slots with both halves of every value are those of their values.** -/
theorem expand_collapse {slots : List Slot} (paired : Paired slots) :
    expand (collapse slots) = slots :=
  expand_collapseOnto [] paired

/-- Slots that hold something hold a value. -/
theorem mem_of_mem_expand {entries : List Slot} {slot : Slot} (inside : slot ∈ expand entries)
    (some : slot ≠ .top) : slot ∈ entries := by
  obtain ⟨entry, member, half⟩ := List.mem_flatMap.1 inside
  unfold widen at half
  split at half
  · rcases List.mem_cons.1 half with rfl | second
    · exact member
    · exact absurd (List.mem_singleton.1 second) some
  · rw [List.mem_singleton.1 half]
    exact member

theorem widen_mapLabels (f : Label → Label) (entry : Slot) :
    widen (entry.mapLabels f) = (widen entry).map (·.mapLabels f) := by
  cases entry <;> rfl

theorem expand_mapLabels (f : Label → Label) (entries : List Slot) :
    expand (entries.map (·.mapLabels f)) = (expand entries).map (·.mapLabels f) := by
  unfold expand
  rw [List.flatMap_map, List.map_flatMap]
  exact congrArg (entries.flatMap ·) (funext (widen_mapLabels f))

end Slot

/-- What is left out of a frame holds nothing. -/
theorem FramePlan.exists_trim (entries : List VerificationType) :
    ∃ count, entries = trim entries ++ List.replicate count .top := by
  have tops : entries.rtakeWhile (· = .top)
      = List.replicate (entries.rtakeWhile (· = .top)).length .top := by
    refine List.eq_replicate_of_mem fun entry member => ?_
    have top := List.mem_rtakeWhile_imp member
    exact of_decide_eq_true top
  refine ⟨(entries.rtakeWhile (· = .top)).length, ?_⟩
  rw [← tops]
  exact List.rdropWhile_append_rtakeWhile.symm

/-! ### States and their frames -/

/-- **What a reader makes of a frame** where there is a given number of locals: one that holds
nothing behind every value of two slots, and as many at the end as are missing. -/
def Frame.toState (count : Nat) (frame : Frame) : State :=
  let locals := Slot.expand frame.locals
  ⟨locals ++ List.replicate (count - locals.length) .top, (Slot.expand frame.stack).reverse⟩

/-- The state with other names for its allocation sites. -/
def State.mapLabels (f : Label → Label) (s : State) : State :=
  ⟨s.locals.map (·.mapLabels f), s.stack.map (·.mapLabels f)⟩

theorem Frame.toState_mapLabels (f : Label → Label) (count : Nat) (frame : Frame) :
    (frame.mapLabels f).toState count = (frame.toState count).mapLabels f := by
  unfold toState mapLabels State.mapLabels
  dsimp only
  rw [Slot.expand_mapLabels, Slot.expand_mapLabels, List.length_map, List.map_append,
    List.map_replicate, List.map_reverse]
  rfl

/-- What is made of a frame is well formed, if there is room for all that the frame lists. -/
theorem Frame.formed_toState {frame : Frame} {count : Nat}
    (room : (Slot.expand frame.locals).length ≤ count) : (frame.toState count).Formed count where
  length := by
    unfold toState
    rw [List.length_append, List.length_replicate]
    omega
  paired := (Slot.paired_expand _).append (Slot.paired_replicate_top _)

namespace State

/-- **The frame of a state tells all of it**, if values have both of their halves. -/
theorem toState_frame {s : State} {count : Nat} (formed : s.Formed count)
    (operands : Slot.Paired s.stack.reverse) : s.frame.toState count = s := by
  obtain ⟨more, whole⟩ := FramePlan.exists_trim (Slot.collapse s.locals)
  have locals : Slot.expand s.frame.locals ++ List.replicate more .top = s.locals := calc
    _ = Slot.expand (s.frame.locals ++ List.replicate more .top) := by
      rw [Slot.expand_append, Slot.expand_tops]
    _ = Slot.expand (Slot.collapse s.locals) := congrArg Slot.expand whole.symm
    _ = s.locals := Slot.expand_collapse formed.paired
  have missing : count - (Slot.expand s.frame.locals).length = more := by
    rw [← formed.length, ← locals, List.length_append, List.length_replicate,
      Nat.add_sub_cancel_left]
  unfold Frame.toState
  dsimp only
  rw [missing, locals]
  show State.mk s.locals (Slot.expand (Slot.collapse s.stack.reverse)).reverse = s
  rw [Slot.expand_collapse operands, List.reverse_reverse]

/-- **A state is told by its frame**: the frame can be made just if every allocation site has a
label, and what a reader makes of it is the state, with the labels in place of the sites. -/
structure Told (count : Nat) (s : State) : Prop where
  made : ∀ labels : Std.HashMap Nat Label, (∃ f, FramePlan.frame labels s = .ok f)
    ↔ ∀ site, .uninitialized site ∈ s.locals ++ s.stack → ∃ l, labels[site.index]? = some l
  told : ∀ (labels : Std.HashMap Nat Label) (f : Frame), FramePlan.frame labels s = .ok f →
    f.toState count = s.mapLabels (FramePlan.siteLabel labels)

/-- If the entries of a frame can be made, all allocation sites have labels. -/
theorem exists_label_of_entries {labels : Std.HashMap Nat Label} {slots : List Slot}
    (paired : Slot.Paired slots) {entries : List VerificationType}
    (made : (Slot.collapse slots).mapM (FramePlan.entry labels) = .ok entries) {site : Label}
    (inside : .uninitialized site ∈ slots) : ∃ l, labels[site.index]? = some l := by
  rw [← Slot.expand_collapse paired] at inside
  have member := Slot.mem_of_mem_expand inside nofun
  obtain ⟨entry, -, labelled⟩ := Traverse.exists_of_mem_right
    (Traverse.mapM_eq_ok_iff.1 made).flip member
  change FramePlan.entry labels (.uninitialized site) = .ok entry at labelled
  unfold FramePlan.entry at labelled
  split at labelled
  · next same =>
    cases same
    split at labelled
    · next l known => exact ⟨l, known⟩
    · cases labelled
  · next other => exact absurd rfl (other site)

theorem exists_label_of_frame {labels : Std.HashMap Nat Label} {s : State} {f : Frame}
    (paired : Slot.Paired s.locals) (operands : Slot.Paired s.stack.reverse)
    (made : FramePlan.frame labels s = .ok f) {site : Label}
    (inside : .uninitialized site ∈ s.locals ++ s.stack) : ∃ l, labels[site.index]? = some l := by
  obtain ⟨locals, first, rest⟩ := Traverse.bind_eq_ok_iff.1 made
  obtain ⟨stack, second, -⟩ := Traverse.bind_eq_ok_iff.1 rest
  rcases List.mem_append.1 inside with local' | operand
  · exact exists_label_of_entries paired first local'
  · exact exists_label_of_entries operands second (List.mem_reverse.2 operand)

/-- **Well-formed states are told by their frames**, if the operand stack has both halves of every
value, too. -/
theorem Formed.told {s : State} {count : Nat} (formed : s.Formed count)
    (operands : Slot.Paired s.stack.reverse) : s.Told count where
  made labels := by
    constructor
    · rintro ⟨f, made⟩ site inside
      exact exists_label_of_frame formed.paired operands made inside
    · exact fun known => ⟨_, FramePlan.frame_eq known⟩
  told labels f made := by
    have known := FramePlan.frame_eq fun site inside =>
      exists_label_of_frame formed.paired operands made inside
    cases known.symm.trans made
    rw [Frame.toState_mapLabels, toState_frame formed operands]

end State

/-! ### The state at the start -/

/-- **The state at the start is what a reader makes of the entry frame**, if there is room for it. -/
theorem TypingProblem.entryState_eq {header : MethodHeader} {frame : Frame} {locals : Nat}
    (first : header.entryFrame = .ok frame) (room : (Slot.expand frame.locals).length ≤ locals) :
    entryState header locals = .ok (frame.toState locals) := by
  have operands : frame.stack = [] := by
    obtain ⟨type, -, rest⟩ := Traverse.bind_eq_ok_iff.1 first
    cases rest
    rfl
  refine Traverse.bind_eq_ok_iff.2 ⟨frame, first, ?_⟩
  dsimp only
  rw [MethodHeader.declared_entryFrame first, List.take_of_length_le room, Frame.toState, operands]
  rfl

namespace Code

/-! ### Bodies -/

/-- The state at the start is well formed, if the receiver and all arguments can be counted. -/
theorem formed_entryState {header : MethodHeader} {code : Code} {locals : Nat} {entry : State}
    (fits : header.Fits)
    (size : localSize header (code.instructions.toList.filter (!·.isFrame)) = .ok locals)
    (enters : TypingProblem.entryState header locals = .ok entry) : entry.Formed locals := by
  obtain ⟨frame, first, -⟩ := Traverse.bind_eq_ok_iff.1 enters
  obtain ⟨type, parsed, -⟩ := Traverse.bind_eq_ok_iff.1 first
  have room := (entrySlots_le_iff size parsed).2 (fits type parsed)
  rw [← MethodHeader.length_entryFrame parsed first] at room
  cases (TypingProblem.entryState_eq first room).symm.trans enters
  exact Frame.formed_toState room

/-- **The frames of a new body tell the states that they are made from.**  Where there is a frame, a
reader finds the state again, with its allocation sites by the names of labels. -/
theorem withFrames_tells {hierarchy : Hierarchy} {header : MethodHeader} {code code' : Code}
    (fits : header.Fits) (computed : code.withFrames hierarchy header = .ok code') :
    ∃ locals states name,
      localSize header (code.instructions.toList.filter (!·.isFrame)) = .ok locals
        ∧ code.Framed code' states name
        ∧ ∀ i s, states i = some s → code.NeedsFrame i → Slot.Paired s.stack.reverse →
          ∃ f, (code'.marksBefore i).filter Instruction.isFrame = [.frame f]
            ∧ f.toState locals = s.mapLabels name := by
  obtain ⟨locals, p, entry, t, points, ins, handlers, all, rfl⟩ := withFrames_eq_ok_iff.1 computed
  have framed := (all.computed hierarchy.goesBy_true).framed
  refine ⟨locals, t.state?, FramePlan.siteLabel ins.sites, all.size, framed,
    fun i s known point operands => ⟨_, framed.frame i s known point, ?_⟩⟩
  have formed := TypingProblem.formed_of_occurs (formed_entryState fits all.size all.enters)
    (TypingProblem.occurs_of_solve all.settled known)
  rw [Frame.toState_mapLabels, State.toState_frame formed operands]

end Code

end ClassInstrument
