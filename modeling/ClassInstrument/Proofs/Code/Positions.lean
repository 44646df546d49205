import ClassInstrument.Proofs.Code.Alike
import ClassInstrument.Proofs.Code.Retold

/-!
# Tables written by positions

What stands behind the code of a body refers to offsets, and the offset of a label is that of the
instruction it stands in front of.  So the tables can be told from the view of a body: its labels
are numbers of instructions, and each of these has its offset.

* `Layout.positions` — the offset of every instruction, under its number;
* `Code.encodeBehind` — everything behind the code;
* `Code.LinesInOrder` — lines that come in the order of the instructions they belong to;
* `Code.encodeBehind_eq` — **the tables of a body are those of its view**.
-/

namespace ClassInstrument

open Builder

namespace Layout

/-- The offset of every instruction and of the end, under its number. -/
def positions (layout : Layout) : LabelTable :=
  .of (fun l => boundary layout.placed layout.length l.index)
    ((List.range ((starts layout.placed).length + 1)).map Label.mk)

theorem offset_positions {layout : Layout} {k : Nat} (inside : k ≤ (starts layout.placed).length) :
    layout.positions.offset ⟨k⟩ = .ok (boundary layout.placed layout.length k) :=
  LabelTable.offset_of (List.mem_map.2 ⟨k, List.mem_range.2 (by omega), rfl⟩)

/-- Frames with other labels stay where they are. -/
theorem framesAt_map (starts : List Nat) (frames : List (Option Frame)) (g : Frame → Frame) :
    framesAt starts (frames.map (·.map g)) = (framesAt starts frames).map fun e => (e.1, g e.2) := by
  unfold framesAt
  rw [List.zip_map_right, List.filterMap_map, List.map_filterMap]
  congr 1
  funext ⟨start, frame⟩
  cases frame <;> rfl

end Layout

namespace Builder

theorem ofExcept_eq_ok_iff {α : Type} {r : Except Failure α} {t t' : ConstantTables} {v : α} :
    ofExcept r t = .ok v t' ↔ r = .ok v ∧ t' = t := by
  cases r with
  | error e => exact ⟨fun h => (nomatch h), fun h => (nomatch h.1)⟩
  | ok w =>
    constructor
    · intro h
      cases h
      exact ⟨rfl, rfl⟩
    · rintro ⟨h, rfl⟩
      cases h
      rfl

theorem ofExcept_eq_error_iff {α : Type} {r : Except Failure α} {t t' : ConstantTables}
    {e : Failure} : ofExcept r t = .error e t' ↔ r = .error e ∧ t' = t := by
  cases r with
  | error e' =>
    constructor
    · intro h
      cases h
      exact ⟨rfl, rfl⟩
    · rintro ⟨h, rfl⟩
      cases h
      rfl
  | ok v => exact ⟨fun h => (nomatch h), fun h => (nomatch h.1)⟩

theorem concatOnto_map_congr {α β : Type} {f : α → Builder Bytes} {g : β → Builder Bytes}
    {k : α → β} {l : List α} (h : ∀ a ∈ l, g (k a) = f a) (written : List Bytes) :
    concatOnto g written (l.map k) = concatOnto f written l := by
  induction l generalizing written with
  | nil => rfl
  | cons a l ih =>
    rw [List.map_cons, concatOnto, concatOnto, h a List.mem_cons_self]
    exact bind_congr fun chunk => ih (fun a ha => h a (List.mem_cons_of_mem _ ha)) (chunk :: written)

/-- Elements that are made from others, and give what those give. -/
theorem concat_map_congr {α β : Type} {f : α → Builder Bytes} {g : β → Builder Bytes} {k : α → β}
    {l : List α} (h : ∀ a ∈ l, g (k a) = f a) : concat g (l.map k) = concat f l :=
  concatOnto_map_congr h []

/-- Elements that give nothing are left out. -/
theorem filterMap_mapM_filter {α β : Type} {f : α → Builder (Option β)} {keep : α → Bool}
    {l : List α} (h : ∀ a ∈ l, keep a = false → f a = pure none) :
    (·.filterMap id) <$> (l.filter keep).mapM f = (·.filterMap id) <$> l.mapM f := by
  induction l with
  | nil => rfl
  | cons a l ih =>
    have behind := ih fun a ha => h a (List.mem_cons_of_mem _ ha)
    cases kept : keep a with
    | true =>
      rw [List.filter_cons_of_pos kept, List.mapM_cons, List.mapM_cons]
      simp only [map_bind, map_pure]
      refine bind_congr fun b => ?_
      have step := congrArg ((fun bs => b.toList ++ bs) <$> ·) behind
      simp only [← bind_pure_comp, bind_assoc, pure_bind] at step ⊢
      cases b <;> exact step
    | false =>
      rw [List.filter_cons_of_neg (by simp [kept]), List.mapM_cons, h a List.mem_cons_self kept,
        behind, pure_bind]
      simp only [← bind_pure_comp, bind_assoc, pure_bind]
      rfl

end Builder

namespace Code

/-! ### One entry of a table -/

section Entries

variable {labels labels' : LabelTable} {f : Label → Label}

theorem encodeRange_mapLabels {r : ExceptionRange}
    (known : ∀ l ∈ r.references, labels'.offset (f l) = labels.offset l) :
    encodeRange labels' (r.mapLabels f) = encodeRange labels r := by
  simp only [ExceptionRange.references, List.mem_cons, List.not_mem_nil, or_false, forall_eq_or_imp,
    forall_eq] at known
  unfold encodeRange ExceptionRange.mapLabels
  rw [known.1, known.2.1, known.2.2]

theorem encodeVariable_mapLabels {v : LocalVariable}
    (known : ∀ l ∈ v.references, labels'.offset (f l) = labels.offset l) :
    encodeVariable labels' (v.mapLabels f) = encodeVariable labels v := by
  simp only [LocalVariable.references, List.mem_cons, List.not_mem_nil, or_false, forall_eq_or_imp,
    forall_eq] at known
  unfold encodeVariable LocalVariable.mapLabels
  rw [known.1, known.2]

theorem encodeType_mapLabels {type : VerificationType}
    (known : ∀ site, type.site? = some site → labels'.offset (f site) = labels.offset site) :
    encodeType labels' (type.mapLabels f) = encodeType labels type := by
  cases type with
  | uninitialized site =>
    rw [VerificationType.mapLabels, encodeType, encodeType, known site rfl]
  | _ => rfl

theorem encodeFrame_mapLabels {frame : Frame} (delta : Nat)
    (known : ∀ l ∈ frame.sites, labels'.offset (f l) = labels.offset l) :
    encodeFrame labels' delta (frame.mapLabels f) = encodeFrame labels delta frame := by
  have each : ∀ type ∈ frame.locals ++ frame.stack,
      encodeType labels' (type.mapLabels f) = encodeType labels type := fun type member =>
    encodeType_mapLabels fun site same => known site (List.mem_filterMap.2 ⟨type, member, same⟩)
  unfold encodeFrame Frame.mapLabels
  rw [concat_map_congr fun type member => each type (List.mem_append_left _ member),
    concat_map_congr fun type member => each type (List.mem_append_right _ member),
    List.length_map, List.length_map]

theorem deltasFrom_map (g : Frame → Frame) (previous : Option Nat) (frames : List (Nat × Frame)) :
    deltasFrom previous (frames.map fun e => (e.1, g e.2))
      = (deltasFrom previous frames).map fun e => (e.1, g e.2) := by
  induction frames generalizing previous with
  | nil => rfl
  | cons e frames ih => rw [List.map_cons, deltasFrom, ih]; rfl

theorem mem_deltasFrom {previous : Option Nat} {frames : List (Nat × Frame)} {e : Nat × Frame}
    (h : e ∈ deltasFrom previous frames) : ∃ start, (start, e.2) ∈ frames := by
  induction frames generalizing previous with
  | nil => cases h
  | cons first frames ih =>
    rcases List.mem_cons.1 h with rfl | h
    · exact ⟨_, List.mem_cons_self⟩
    · obtain ⟨start, there⟩ := ih h
      exact ⟨start, List.mem_cons_of_mem _ there⟩

theorem encodeFrames_mapLabels {frames : List (Nat × Frame)} (major : UInt16)
    (known : ∀ e ∈ frames, ∀ l ∈ e.2.sites, labels'.offset (f l) = labels.offset l) :
    encodeFrames labels' major (frames.map fun e => (e.1, e.2.mapLabels f))
      = encodeFrames labels major frames := by
  unfold encodeFrames
  rw [List.isEmpty_map, List.length_map, withDeltas_eq, withDeltas_eq,
    deltasFrom_map (·.mapLabels f), concat_map_congr]
  intro e member
  obtain ⟨start, there⟩ := mem_deltasFrom member
  exact encodeFrame_mapLabels e.1 (known (start, e.2) there)

theorem encodeLines_mapLabels {insns insns' : List Instruction}
    (same : lines insns' = (lines insns).map fun row => (row.1, f row.2))
    (known : ∀ row ∈ lines insns, labels'.offset (f row.2) = labels.offset row.2) :
    encodeLines labels' insns' = encodeLines labels insns := by
  unfold encodeLines
  rw [same, Traverse.mapM_map_congr fun row member => ?_]
  dsimp only
  rw [known row member]

theorem encodeVariables_mapLabels {vs : List LocalVariable}
    (known : ∀ v ∈ vs, ∀ l ∈ v.references, labels'.offset (f l) = labels.offset l) :
    encodeVariables labels' (vs.map (·.mapLabels f)) = encodeVariables labels vs := by
  unfold encodeVariables
  rw [List.isEmpty_map, List.length_map,
    Traverse.mapM_map_congr fun v member => encodeVariable_mapLabels (known v member)]

/-- Ranges with other labels; those that cover no instructions are left out. -/
theorem encodeRanges_mapLabels {ranges : List ExceptionRange} {keep : ExceptionRange → Bool}
    (known : ∀ r ∈ ranges, ∀ l ∈ r.references, labels'.offset (f l) = labels.offset l)
    (dropped : ∀ r ∈ ranges, keep (r.mapLabels f) = false → encodeRange labels r = pure none) :
    encodeRanges labels' ((ranges.map (·.mapLabels f)).filter keep) = encodeRanges labels ranges := by
  have each : ∀ r ∈ ranges, encodeRange labels' (r.mapLabels f) = encodeRange labels r :=
    fun r member => encodeRange_mapLabels (known r member)
  have without : ∀ r ∈ ranges.map (·.mapLabels f), keep r = false →
      encodeRange labels' r = pure none := by
    intro r member none
    obtain ⟨r, inside, rfl⟩ := List.mem_map.1 member
    rw [each r inside, dropped r inside none]
  have rows := filterMap_mapM_filter without
  rw [Traverse.mapM_map_congr each] at rows
  have whole := congrArg (· >>= fun rows => do
    let count ← Builder.count "exception handlers" rows.length
    return count ++ rows.flatten) rows
  simp only [bind_map_left] at whole
  exact whole

end Entries

/-! ### Everything behind the code -/

/-- What is written behind the code: the ranges, and the other tables as attributes. -/
def encodeBehind (labels : LabelTable) (major : UInt16) (instructions : List Instruction)
    (handlers : List ExceptionRange) (localVariables : List LocalVariable)
    (frames : List (Nat × Frame)) : Builder Bytes := do
  let ranges ← encodeRanges labels handlers
  let lines ← encodeLines labels instructions
  let localVariables ← encodeVariables labels localVariables
  let frames ← encodeFrames labels major frames
  let attributes ← Attribute.encodeAll (lines ++ localVariables ++ frames)
  return ranges ++ attributes

/-- The limits and the code in front of what is behind it. -/
def wrap (code : Code) (body behind : Bytes) : Bytes :=
  Word.encode code.maxStack ++ Word.encode code.maxLocals
    ++ Word.encode (UInt32.ofNat body.length) ++ body ++ behind

theorem encode_eq (major : UInt16) (code : Code) : code.encode major = (do
    let items ← code.instructions.toList.mapM Instruction.toItem
    let assembly ← Builder.ofExcept (Assembly.ofItems items)
    let behind ← encodeBehind assembly.labels major code.instructions.toList code.handlers
      code.localVariables assembly.frames
    return code.wrap assembly.bytes behind) := by
  simp only [encode, encodeBehind, wrap, bind_assoc, pure_bind, List.append_assoc]

/-- **A body is written** when its instructions refer to constants, they are laid out, and what is
behind the code is written. -/
theorem encode_eq_ok_iff {major : UInt16} {code : Code} {bytes : Bytes} {t t' : ConstantTables} :
    code.encode major t = .ok bytes t' ↔ ∃ items s layout body behind,
      code.instructions.toList.mapM Instruction.toItem t = .ok items s
        ∧ Layout.settle items = .ok layout ∧ layout.code = .ok body
        ∧ encodeBehind layout.labels major code.instructions.toList code.handlers
          code.localVariables (Assembly.framesOf layout) s = .ok behind t'
        ∧ bytes = code.wrap body behind := by
  rw [encode_eq, bind_eq_ok_iff]
  constructor
  · rintro ⟨items, s, resolved, h⟩
    obtain ⟨assembly, s', assembled, h⟩ := bind_eq_ok_iff.1 h
    obtain ⟨behind, s'', written, h⟩ := bind_eq_ok_iff.1 h
    cases h
    obtain ⟨known, rfl⟩ := ofExcept_eq_ok_iff.1 assembled
    obtain ⟨layout, settled, laid⟩ := Traverse.bind_eq_ok_iff.1 known
    obtain ⟨body, emitted, same⟩ := Traverse.bind_eq_ok_iff.1 laid
    cases same
    exact ⟨items, _, layout, body, behind, resolved, settled, emitted, written, rfl⟩
  · rintro ⟨items, s, layout, body, behind, resolved, settled, emitted, written, rfl⟩
    refine ⟨items, s, resolved, bind_eq_ok_iff.2 ⟨⟨body, layout.labels, Assembly.framesOf layout⟩, s,
      ofExcept_eq_ok_iff.2 ⟨?_, rfl⟩, bind_eq_ok_iff.2 ⟨behind, t', written, rfl⟩⟩⟩
    exact Traverse.bind_eq_ok_iff.2 ⟨layout, settled, Traverse.bind_eq_ok_iff.2 ⟨body, emitted, rfl⟩⟩

end Code

/-! ### What a view says of the tables -/

/-- The lines of a view in the order of the instructions that they belong to. -/
def BodyView.lineMarks (view : BodyView) : List Instruction :=
  view.lines.zipIdx.flatMap fun entry => entry.1.map fun number => .line number ⟨entry.2⟩

theorem BodyView.lines_lineMarks (view : BodyView) : Code.lines view.lineMarks
    = view.lines.zipIdx.flatMap fun entry => entry.1.map fun number => (number, ⟨entry.2⟩) := by
  unfold Code.lines lineMarks
  rw [List.filterMap_flatMap]
  congr 1
  funext entry
  rw [List.filterMap_map, ← List.filterMap_eq_map]
  rfl

/-- The elements of a list that is made from numbers, with these. -/
theorem zipIdx_map_range {α : Type} (f : Nat → α) (n : Nat) :
    ((List.range n).map f).zipIdx = (List.range n).map fun k => (f k, k) := by
  refine List.ext_getElem (by simp) fun k _ _ => ?_
  simp

/-- What is written behind the code for a view, when it is known where instructions start. -/
def BodyView.encodeBehind (positions : LabelTable) (starts : List Nat) (major : UInt16)
    (view : BodyView) : Builder Bytes :=
  Code.encodeBehind positions major view.lineMarks view.handlers view.localVariables
    (Layout.framesAt starts view.frames)

namespace Code

/-- Lines come in the order of the instructions that they belong to, and all belong to one. -/
def LinesInOrder (code : Code) : Prop :=
  lines code.view.lineMarks = (lines code.instructions.toList).map fun row =>
    (row.1, place code.instructions.toList row.2)

namespace Laid

variable {code : Code} {layout : Layout} (laid : code.Laid layout) (placed : code.WellPlaced)

include laid placed in
/-- A label is where its position is. -/
theorem offset_positions {l : Label} (member : l ∈ code.references) :
    layout.positions.offset (place code.instructions.toList l) = layout.labels.offset l := by
  obtain ⟨k, position, le, -⟩ := laid.exists_position placed member
  have there : l ∈ Steps.labelsOf code.instructions.toList := by
    rw [← Steps.isSome_positionOf?, position]
    rfl
  have known := Layout.offset_eq laid.chained (l := l) (by rw [laid.same]; exact there)
  have inside : k ≤ (Layout.starts layout.placed).length := by
    rw [Layout.length_starts, laid.same]
    exact le
  rw [laid.same] at known
  rw [known]
  unfold place
  rw [position]
  exact Layout.offset_positions inside

include laid placed in
/-- A range that covers no instructions is not written. -/
theorem encodeRange_of_not_covers {r : ExceptionRange} (member : r ∈ code.handlers)
    (none : covers (r.mapLabels (place code.instructions.toList)) = false) :
    encodeRange layout.labels r = pure Option.none := by
  rw [← laid.covers_resolve placed member] at none
  have known : ∀ l ∈ r.references, layout.labels.offset l
      = .ok (layout.labels.resolve l).index := by
    intro l label
    obtain ⟨k, position, -, resolved⟩ := laid.exists_position placed (mem_references_range member
      label)
    rw [resolved]
    unfold LabelTable.offset
    rw [Layout.getElem?_labels laid.chained, laid.same, position]
    rfl
  have start := known r.start (by simp [ExceptionRange.references])
  have finish := known r.finish (by simp [ExceptionRange.references])
  have backwards : (layout.labels.resolve r.finish).index ≤ (layout.labels.resolve r.start).index :=
    Nat.not_lt.1 (of_decide_eq_false none)
  unfold encodeRange
  rw [start, finish]
  show (if _ then _ else _) = _
  rw [if_pos backwards]

include laid placed in
/-- **The tables of a body are those of its view**, as far as they are written at all. -/
theorem encodeBehind_eq (ordered : code.LinesInOrder) (major : UInt16) :
    encodeBehind layout.labels major code.instructions.toList code.handlers code.localVariables
        (Assembly.framesOf layout)
      = (code.view.written major).encodeBehind layout.positions (Layout.starts layout.placed)
        major := by
  have known := fun {l : Label} => laid.offset_positions placed (l := l)
  have ranges := encodeRanges_mapLabels (f := place code.instructions.toList)
    (fun r member l label => known (mem_references_range member label))
    fun r member => laid.encodeRange_of_not_covers placed member
  have lines := encodeLines_mapLabels ordered fun row member => known (mem_references_line member)
  have localVariables := encodeVariables_mapLabels (f := place code.instructions.toList)
    fun v member l label => known (mem_references_variable member label)
  have frames : encodeFrames layout.labels major (Assembly.framesOf layout)
      = encodeFrames layout.positions major (Layout.framesAt (Layout.starts layout.placed)
        (code.view.written major).frames) := by
    by_cases old : major < firstMajorWithFrames
    · unfold encodeFrames
      rw [if_pos (by simp [old]), if_pos (by simp [old])]
    · show _ = encodeFrames _ _ (Layout.framesAt _ (if _ then _ else _))
      rw [if_neg old, Layout.framesOf_eq laid.chained, laid.same]
      show _ = encodeFrames _ _
        (Layout.framesAt _ ((framesBefore none code.instructions.toList).map _))
      rw [Layout.framesAt_map, encodeFrames_mapLabels]
      intro e member l site
      have inside := (mem_framesBefore (Layout.mem_framesAt member).2).resolve_left
        (Option.some_ne_none e.2).symm
      exact known (mem_references_insn inside site)
  unfold BodyView.encodeBehind encodeBehind
  rw [← ranges, ← lines, ← localVariables, frames]
  rfl

end Laid

end Code

end ClassInstrument
