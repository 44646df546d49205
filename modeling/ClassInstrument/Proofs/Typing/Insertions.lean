import ClassInstrument.Proofs.Typing.DeadRuns
import ClassInstrument.Proofs.Typing.Solve

/-!
# What is put into a body

Labels, frames and replacements are looked up by the number of a step.  Each table is made from a
list in which no number comes twice, so what is in it is what is in the list.

* `FramePlan.getElem?_label` — new labels;
* `State.frame` — **the frame that a state is**, its allocation sites as step numbers;
* `FramePlan.frame_eq` — the frame with labels for the sites;
* `FramePlan.Made`, `FramePlan.insertions_eq` — **what is in all of the tables**, which are always
  made.
-/

namespace ClassInstrument

theorem pairwise_keys {β : Type} {l : List (Nat × β)} (distinct : (l.map Prod.fst).Nodup) :
    l.Pairwise fun a b => (a.1 == b.1) = false := by
  refine (List.pairwise_map.1 distinct).imp fun different => ?_
  exact beq_eq_false_iff_ne.2 different

/-- A table has what is in a list in which no key comes twice. -/
theorem getElem?_ofList_iff {β : Type} {l : List (Nat × β)} (distinct : (l.map Prod.fst).Nodup)
    {k : Nat} {v : β} : (Std.HashMap.ofList l)[k]? = some v ↔ (k, v) ∈ l := by
  have apart := pairwise_keys distinct
  have found : ∀ {v : β}, (k, v) ∈ l → (Std.HashMap.ofList l)[k]? = some v :=
    fun member => Std.HashMap.getElem?_ofList_of_mem (beq_self_eq_true k) apart member
  refine ⟨fun known => ?_, found⟩
  have key : (l.map Prod.fst).contains k = true :=
    Std.HashMap.mem_ofList.1 (Std.HashMap.mem_iff_isSome_getElem?.2 (by rw [known]; rfl))
  rw [List.contains_iff_mem] at key
  obtain ⟨⟨k', v'⟩, member, rfl⟩ := List.mem_map.1 key
  rw [found member] at known
  cases known
  exact member

/-! ### Frames of states -/

/-- The frame that a state is, its allocation sites as step numbers. -/
def State.frame (s : State) : Frame :=
  ⟨FramePlan.trim (Slot.collapse s.locals), Slot.collapse s.stack.reverse⟩

theorem Slot.mem_collapse {slots : List Slot} {slot : Slot} (h : slot ∈ collapse slots) :
    slot ∈ slots := by
  have general : ∀ (found slots : List Slot), slot ∈ collapseOnto found slots →
      slot ∈ found ∨ slot ∈ slots := by
    intro found slots
    fun_induction collapseOnto found slots with
    | case1 found => exact fun member => .inl (List.mem_reverse.1 member)
    | case2 found last =>
      intro member
      rcases List.mem_cons.1 (List.mem_reverse.1 member) with rfl | old
      · exact .inr List.mem_cons_self
      · exact .inl old
    | case3 found first next slots wide ih =>
      intro member
      rcases ih member with old | new
      · rcases List.mem_cons.1 old with rfl | old
        · exact .inr List.mem_cons_self
        · exact .inl old
      · exact .inr (List.mem_cons_of_mem _ (List.mem_cons_of_mem _ new))
    | case4 found first next slots narrow ih =>
      intro member
      rcases ih member with old | new
      · rcases List.mem_cons.1 old with rfl | old
        · exact .inr List.mem_cons_self
        · exact .inl old
      · exact .inr (List.mem_cons_of_mem _ new)
  exact (general [] slots h).resolve_left List.not_mem_nil

namespace FramePlan

theorem trim_mapLabels (f : Label → Label) (entries : List VerificationType) :
    trim (entries.map (·.mapLabels f)) = (trim entries).map (·.mapLabels f) := by
  have same : ((fun entry : VerificationType => decide (entry = .top)) ∘
      VerificationType.mapLabels f) = fun entry => decide (entry = VerificationType.top) := by
    funext entry
    cases entry <;> rfl
  rw [trim, ← List.map_reverse, List.dropWhile_map, same, ← List.map_reverse, trim]

/-- The label of an allocation site. -/
def siteLabel (labels : Std.HashMap Nat Label) (site : Label) : Label :=
  labels.getD site.index site

theorem entry_eq {labels : Std.HashMap Nat Label} {slot : Slot}
    (known : ∀ site, slot = .uninitialized site → ∃ l, labels[site.index]? = some l) :
    entry labels slot = .ok (slot.mapLabels (siteLabel labels)) := by
  cases slot with
  | uninitialized site =>
    obtain ⟨l, here⟩ := known site rfl
    simp only [entry, VerificationType.mapLabels, siteLabel, Std.HashMap.getD_eq_getD_getElem?,
      here, Option.getD_some]
  | _ => rfl

/-- **The frame with labels for the sites**, if all of them have labels. -/
theorem frame_eq {labels : Std.HashMap Nat Label} {s : State}
    (known : ∀ site, .uninitialized site ∈ s.locals ++ s.stack →
      ∃ l, labels[site.index]? = some l) :
    frame labels s = .ok (s.frame.mapLabels (siteLabel labels)) := by
  have entries : ∀ slots : List Slot, (∀ slot ∈ slots, slot ∈ s.locals ++ s.stack) →
      (Slot.collapse slots).mapM (entry labels)
        = .ok ((Slot.collapse slots).map (·.mapLabels (siteLabel labels))) := by
    intro slots inside
    refine Traverse.mapM_eq_ok_map fun slot member => entry_eq fun site same => known site ?_
    rw [← same]
    exact inside slot (Slot.mem_collapse member)
  unfold frame
  rw [entries s.locals fun slot member => List.mem_append_left _ member,
    entries s.stack.reverse fun slot member =>
      List.mem_append_right _ (List.mem_reverse.1 member)]
  show Except.ok (Frame.mk (trim _) _) = _
  rw [trim_mapLabels]
  rfl

/-! ### New labels -/

theorem keys_label (positions : List Nat) (first : Nat) :
    (positions.zipIdx.map fun entry => (entry.1, (⟨first + entry.2⟩ : Label))).map Prod.fst
      = positions := by
  rw [List.map_map]
  exact List.zipIdx_map_fst 0 positions

theorem getElem?_label {positions : List Nat} (distinct : positions.Nodup) {first i : Nat}
    {l : Label} :
    (label first positions)[i]? = some l ↔ ∃ k, positions[k]? = some i ∧ l = ⟨first + k⟩ := by
  have keys := keys_label positions first
  have whole : label first positions = Std.HashMap.ofList
      (positions.zipIdx.map fun entry => (entry.1, (⟨first + entry.2⟩ : Label))) := rfl
  rw [whole, getElem?_ofList_iff (keys.symm ▸ distinct), List.mem_map]
  constructor
  · rintro ⟨⟨position, k⟩, member, same⟩
    cases same
    exact ⟨k, List.mem_zipIdx_iff_getElem?.1 member, rfl⟩
  · rintro ⟨k, there, rfl⟩
    exact ⟨(i, k), List.mem_zipIdx_iff_getElem?.2 there, rfl⟩

theorem size_label {positions : List Nat} (distinct : positions.Nodup) (first : Nat) :
    (label first positions).size = positions.length := by
  have apart := pairwise_keys ((keys_label positions first).symm ▸ distinct)
  refine (Std.HashMap.size_ofList apart).trans ?_
  rw [List.length_map, List.length_zipIdx]

/-- The new label of a step is given to no other one. -/
theorem label_injective {positions : List Nat} (distinct : positions.Nodup) {first i j : Nat}
    {l : Label} (h : (label first positions)[i]? = some l)
    (h' : (label first positions)[j]? = some l) : i = j := by
  obtain ⟨k, there, rfl⟩ := (getElem?_label distinct).1 h
  obtain ⟨k', there', same⟩ := (getElem?_label distinct).1 h'
  obtain rfl : k = k' := by
    have := Label.mk.inj same
    omega
  rw [there] at there'
  exact Option.some.inj there'

/-- Every step of a list gets a label. -/
theorem exists_label {positions : List Nat} (distinct : positions.Nodup) (first : Nat) {i : Nat}
    (member : i ∈ positions) : ∃ l, (label first positions)[i]? = some l := by
  obtain ⟨k, there⟩ := List.mem_iff_getElem?.1 member
  exact ⟨_, (getElem?_label distinct).2 ⟨k, there, rfl⟩⟩

/-! ### The lists behind the tables -/

section Lists

variable {t : Typing} {points : List Nat}

theorem mem_frames {i : Nat} {s : State} :
    (i, s) ∈ (ofTyping t points).frames ↔ t.state? i = some s ∧ i ∈ points := by
  have inside : (i, s) ∈ (ofTyping t points).frames ↔ ∃ entry ∈ t.states.toList.zipIdx,
      (if (Std.HashSet.ofList points).contains entry.2 then
        entry.1.map fun s => (entry.2, s) else none) = some (i, s) := List.mem_filterMap
  rw [inside]
  constructor
  · rintro ⟨⟨state, j⟩, member, same⟩
    rw [List.mem_zipIdx_iff_getElem?, Array.getElem?_toList] at member
    split at same
    · next marked =>
      obtain ⟨s', rfl, same⟩ := Option.map_eq_some_iff.1 same
      cases same
      rw [Std.HashSet.contains_ofList, List.contains_iff_mem] at marked
      refine ⟨?_, marked⟩
      unfold Typing.state?
      rw [member]
      rfl
    · cases same
  · rintro ⟨known, member⟩
    refine ⟨(some s, i), ?_, ?_⟩
    · rw [List.mem_zipIdx_iff_getElem?, Array.getElem?_toList]
      exact Option.join_eq_some_iff.1 known
    · rw [if_pos (by rw [Std.HashSet.contains_ofList, List.contains_iff_mem]; exact member)]
      rfl

theorem ascend_frames : ((ofTyping t points).frames.map Prod.fst).Pairwise (· < ·) := by
  have all : t.states.toList.zipIdx.Pairwise fun entry later => entry.2 < later.2 := by
    refine List.pairwise_map.1 ?_
    rw [List.zipIdx_map_snd]
    exact List.pairwise_lt_range'
  have number : ∀ (state : Option State) (i : Nat) (entry : Nat × State),
      (if (Std.HashSet.ofList points).contains i then state.map fun s => (i, s) else none)
        = some entry → entry.1 = i := by
    intro state i entry same
    split at same
    · obtain ⟨s, -, rfl⟩ := Option.map_eq_some_iff.1 same
      rfl
    · cases same
  refine List.pairwise_map.2 (List.pairwise_filterMap.2 (all.imp ?_))
  intro ⟨state, i⟩ ⟨state', i'⟩ less entry same later same'
  rw [number state i entry same, number state' i' later same']
  exact less

theorem mem_siteSteps {plan : FramePlan} {steps : Array Step} {i : Nat} :
    i ∈ plan.siteSteps steps ↔ (∃ step, steps[i]? = some step ∧ step.opcode = Opcode.new)
      ∧ i ∈ plan.sites := by
  unfold siteSteps
  dsimp only
  rw [List.mem_map]
  constructor
  · rintro ⟨⟨step, j⟩, member, rfl⟩
    obtain ⟨there, keep⟩ := List.mem_filter.1 member
    rw [List.mem_zipIdx_iff_getElem?, Array.getElem?_toList] at there
    rw [Bool.and_eq_true, beq_iff_eq] at keep
    exact ⟨⟨step, there, keep.1⟩, keep.2⟩
  · rintro ⟨⟨step, there, new⟩, site⟩
    refine ⟨(step, i), List.mem_filter.2 ⟨?_, ?_⟩, rfl⟩
    · rw [List.mem_zipIdx_iff_getElem?, Array.getElem?_toList]
      exact there
    · rw [Bool.and_eq_true, beq_iff_eq]
      exact ⟨new, site⟩

theorem nodup_siteSteps (plan : FramePlan) (steps : Array Step) :
    (plan.siteSteps steps).Nodup :=
  (DeadRun.ascend_filter_zipIdx steps.toList _).imp Nat.ne_of_lt

theorem mem_sites {plan : FramePlan} {i : Nat} {s : State} (member : (i, s) ∈ plan.frames)
    {site : Label} (inside : .uninitialized site ∈ s.locals ++ s.stack) :
    site.index ∈ plan.sites := by
  refine Std.HashSet.mem_ofList.2 (List.contains_iff_mem.2 (List.mem_flatMap.2 ⟨_, member, ?_⟩))
  exact List.mem_filterMap.2 ⟨_, inside, rfl⟩

variable {dead : Nat → Prop} {plan : FramePlan} (partition : DeadRun.Partition dead plan.dead)

include partition

theorem ascend_boundaries : plan.boundaries.Pairwise (· < ·) := by
  refine List.pairwise_flatMap.2 ⟨fun run member => ?_, ?_⟩
  · simpa using partition.proper run member
  · refine (List.Pairwise.and_mem.1 partition.apart).imp fun ⟨first, second, apart⟩ => ?_
    have less := partition.proper _ first
    have less' := partition.proper _ second
    simp only [List.mem_cons, List.not_mem_nil, or_false]
    rintro x (rfl | rfl) y (rfl | rfl) <;> omega

theorem getElem?_replacements {i : Nat} {insn : Instruction} :
    (Std.HashMap.ofList (plan.dead.flatMap replacements))[i]? = some insn
      ↔ ∃ run ∈ plan.dead, run.Holds i
        ∧ insn = .simple (if i + 1 = run.finish then Opcode.athrow else Opcode.nop) := by
  have keys : (plan.dead.flatMap replacements).map Prod.fst
      = plan.dead.flatMap fun run => List.range' run.start (run.finish - run.start) := by
    rw [List.map_flatMap]
    congr 1
    funext run
    rw [replacements, List.map_map]
    exact List.map_id'' (fun _ => rfl) _
  have distinct : ((plan.dead.flatMap replacements).map Prod.fst).Nodup := by
    rw [keys]
    refine List.Pairwise.imp Nat.ne_of_lt (List.pairwise_flatMap.2 ⟨fun run _ => ?_, ?_⟩)
    · exact List.pairwise_lt_range'
    · refine partition.apart.imp fun {run later} apart x inside y inside' => ?_
      rw [List.mem_range'_1] at inside inside'
      omega
  rw [getElem?_ofList_iff distinct, List.mem_flatMap]
  refine exists_congr fun run => and_congr_right fun member => ?_
  have less := partition.proper run member
  rw [replacements, List.mem_map]
  constructor
  · rintro ⟨position, inside, same⟩
    cases same
    rw [List.mem_range'_1] at inside
    exact ⟨⟨inside.1, by omega⟩, rfl⟩
  · rintro ⟨⟨first, last⟩, rfl⟩
    exact ⟨i, List.mem_range'_1.2 ⟨first, by omega⟩, rfl⟩

omit partition in
/-- The frames of the plan, and one at the start of each dead run. -/
theorem getElem?_frameTable (toFrame : State → Frame) {i : Nat} {f : Frame} :
    (Std.HashMap.ofList ((ofTyping t points).frames.map (fun entry => (entry.1, toFrame entry.2))
      ++ (ofTyping t points).dead.map fun run => (run.start, deadFrame)))[i]? = some f
      ↔ (∃ s, t.state? i = some s ∧ i ∈ points ∧ f = toFrame s)
        ∨ (∃ run ∈ DeadRun.all t.states, run.start = i) ∧ f = deadFrame := by
  have partition := DeadRun.partition_all t.states
  have starts : ((DeadRun.all t.states).map DeadRun.start).Pairwise (· < ·) := by
    refine List.pairwise_map.2 ((List.Pairwise.and_mem.1 partition.apart).imp ?_)
    exact fun ⟨first, _, apart⟩ => Nat.lt_trans (partition.proper _ first) apart
  have distinct : (((ofTyping t points).frames.map (fun entry => (entry.1, toFrame entry.2))
      ++ (ofTyping t points).dead.map fun run => (run.start, deadFrame)).map
        Prod.fst).Nodup := by
    rw [List.map_append, List.map_map, List.map_map]
    refine List.nodup_append.2 ⟨ascend_frames.imp Nat.ne_of_lt, starts.imp Nat.ne_of_lt, ?_⟩
    intro i reached j unreached same
    obtain ⟨entry, member, rfl⟩ := List.mem_map.1 reached
    obtain ⟨run, member', rfl⟩ := List.mem_map.1 unreached
    have unknown := (partition.dead_iff run.start).2
      ⟨run, member', Nat.le_refl _, partition.proper run member'⟩
    have known := (mem_frames.1 member).1
    rw [show entry.1 = run.start from same, Typing.state?, unknown] at known
    cases known
  rw [getElem?_ofList_iff distinct, List.mem_append, List.mem_map, List.mem_map]
  refine or_congr ⟨?_, ?_⟩ ⟨?_, ?_⟩
  · rintro ⟨⟨j, s⟩, member, same⟩
    cases same
    obtain ⟨known, point⟩ := mem_frames.1 member
    exact ⟨s, known, point, rfl⟩
  · rintro ⟨s, known, point, rfl⟩
    exact ⟨(i, s), mem_frames.2 ⟨known, point⟩, rfl⟩
  · rintro ⟨run, member, same⟩
    cases same
    exact ⟨⟨run, member, rfl⟩, rfl⟩
  · rintro ⟨⟨run, member, rfl⟩, rfl⟩
    exact ⟨run, member, rfl⟩

end Lists

/-! ### All tables -/

/-- **What is in the tables of a plan.** -/
structure Made (t : Typing) (points : List Nat) (steps : Array Step) (labelCount : Nat)
    (ins : Insertions) : Prop where
  sites : ins.sites = label labelCount ((ofTyping t points).siteSteps steps)
  boundaries : ins.boundaries = label
    (labelCount + ((ofTyping t points).siteSteps steps).length) (ofTyping t points).boundaries
  frames : ∀ i f, ins.frames[i]? = some f ↔
    (∃ s, t.state? i = some s ∧ i ∈ points ∧ f = s.frame.mapLabels (siteLabel ins.sites))
      ∨ (∃ run ∈ DeadRun.all t.states, run.start = i) ∧ f = deadFrame
  dead : ∀ i insn, ins.dead[i]? = some insn ↔ ∃ run ∈ DeadRun.all t.states, run.Holds i
    ∧ insn = .simple (if i + 1 = run.finish then Opcode.athrow else Opcode.nop)

section Made

variable {p : TypingProblem} {count : Nat} {t : Typing} (sane : p.Sane count t)

include sane in
/-- The sites of a state that gets a frame have labels. -/
theorem exists_siteLabel {points : List Nat} (labelCount : Nat) {i : Nat} {s : State}
    (known : t.state? i = some s) (point : i ∈ points) {site : Label}
    (inside : .uninitialized site ∈ s.locals ++ s.stack) :
    ∃ l, (label labelCount ((ofTyping t points).siteSteps p.context.steps))[site.index]?
      = some l := by
  have tracked := sane.tracked i s known
  have created : Slot.MadeBy p.Creates (.uninitialized site) :=
    (List.mem_append.1 inside).elim (tracked.locals _) (tracked.stack _)
  exact exists_label (nodup_siteSteps _ _) _
    (mem_siteSteps.2 ⟨created.2, mem_sites (mem_frames.2 ⟨known, point⟩) inside⟩)

include sane in
/-- **The tables of a plan are always made.** -/
theorem insertions_eq (points : List Nat) (labelCount : Nat) :
    ∃ ins, (ofTyping t points).insertions p.context.steps labelCount = .ok ins
      ∧ Made t points p.context.steps labelCount ins := by
  have frames := Traverse.mapM_eq_ok_map (l := (ofTyping t points).frames)
    (f := fun entry => (frame (label labelCount
      ((ofTyping t points).siteSteps p.context.steps)) entry.2).map fun f => (entry.1, f))
    (g := fun entry => (entry.1, entry.2.frame.mapLabels
      (siteLabel (label labelCount ((ofTyping t points).siteSteps p.context.steps)))))
    (by
      intro entry member
      obtain ⟨known, point⟩ := mem_frames.1 member
      rw [frame_eq fun site inside => exists_siteLabel sane labelCount known point inside]
      rfl)
  refine ⟨_, Traverse.bind_eq_ok_iff.2 ⟨_, frames, rfl⟩, rfl, rfl, fun i f => ?_, fun i insn => ?_⟩
  · exact getElem?_frameTable fun s => s.frame.mapLabels
      (siteLabel (label labelCount ((ofTyping t points).siteSteps p.context.steps)))
  · exact getElem?_replacements (DeadRun.partition_all t.states)

end Made

end FramePlan

end ClassInstrument
