import ClassInstrument.Proofs.Code.Decoded

/-!
# Closed bodies

A body that was read refers to nothing outside of itself, whatever the bytes were and whatever was
left out while they were read.

* `Opcode.isShorthand` — the bytes that stand for a general opcode, which no body that was read has;
* `Form.Holds` — the numbers that a form has room for;
* `Code.Closed` — labels are placed once, are numbered without gaps, operands belong to their
  opcodes, frames do not pile up and variables do not end before they start;
* `Code.closed_of_decode` — **every body that is read is closed**.
-/

namespace ClassInstrument

open Decoder

/-! ### General opcodes -/

/-- The bytes that stand for a general opcode in a shorter or wider form. -/
def Opcode.isShorthand (op : Opcode) : Bool :=
  (Opcode.iload0 ≤ op && op ≤ Opcode.aload3) || (Opcode.istore0 ≤ op && op ≤ Opcode.astore3)
    || [Opcode.ldcW, Opcode.ldc2W, Opcode.gotoW, Opcode.jsrW, Opcode.wide].contains op

/-- The forms of such bytes. -/
def Form.isShorthand : Form → Bool
  | .shortVariable .. | .wideConstant | .wideBranch _ | .wide => true
  | _ => false

theorem Opcode.isShorthand_eq : ∀ op : Opcode,
    op.isShorthand = (Opcode.form? op).any Form.isShorthand :=
  forall_byte (by decide +kernel)

/-- An opcode that takes an operand stands for itself. -/
theorem Opcode.Takes.isShorthand {op : Opcode} {operand : Operand} (h : op.Takes operand) :
    op.isShorthand = false := by
  obtain ⟨form, known, takes⟩ := h
  rw [Opcode.isShorthand_eq, known]
  cases takes <;> rfl

/-! ### Numbers in operands -/

/-- The numbers in an operand are such that a form has room for them; a switch over a range has a
target for every key. -/
def Form.Holds : Form → Operand → Prop
  | .signedByte, .int value => fitsByte value.toInt = true
  | .signedShort, .int value => fitsShort value.toInt = true
  | .elementType, .int value => 0 ≤ value.toInt ∧ value.toInt < 256
  | .tableSwitch, .tableSwitch _ low high targets =>
    high.toInt - low.toInt + 1 = targets.length
  | _, _ => True

/-- The form of an opcode has room for the numbers in an operand. -/
def Opcode.Holds (op : Opcode) (operand : Operand) : Prop :=
  ∀ form, Opcode.form? op = some form → form.Holds operand

/-- Labels have nothing to do with numbers. -/
theorem Form.Holds.mapLabels {form : Form} {operand : Operand} (h : form.Holds operand)
    (f : Label → Label) : form.Holds (operand.mapLabels f) := by
  cases operand with
  | tableSwitch default low high targets =>
    cases form with
    | tableSwitch => exact h.trans (by rw [List.length_map])
    | _ => trivial
  | int value => exact h
  | _ => cases form <;> trivial

/-- The operands whose numbers depend on the form. -/
def Operand.isLimited : Operand → Bool
  | .int _ | .tableSwitch .. => true
  | _ => false

theorem Form.holds_of_unlimited {operand : Operand} (h : operand.isLimited = false) (form : Form) :
    form.Holds operand := by
  cases operand with
  | int value => cases h
  | tableSwitch default low high targets => cases h
  | _ => cases form <;> trivial

/-- The numbers in an executable instruction are those that its opcode has room for. -/
def Instruction.Exact (insn : Instruction) : Prop :=
  ∀ op operand, insn = .op op operand → op.Holds operand

theorem Instruction.Exact.mapLabels {insn : Instruction} (h : insn.Exact) (f : Label → Label) :
    (insn.mapLabels f).Exact := by
  intro op operand same
  cases insn with
  | op op' original =>
    cases same
    exact fun form known => (h op original rfl form known).mapLabels f
  | _ => cases same

namespace BytecodeContext

variable {ctx : BytecodeContext} {offset : Nat} {op : Opcode}

theorem gives_unlimited {operand : Operand} (h : operand.isLimited = false) :
    Gives (pure (.op op operand)) Instruction.Exact := by
  refine .pure fun op' operand' same form _ => ?_
  cases same
  exact form.holds_of_unlimited h

theorem gives_limited {form : Form} (known : Opcode.form? op = some form) {operand : Operand}
    (holds : form.Holds operand) : Gives (pure (.op op operand)) Instruction.Exact := by
  refine .pure fun op' operand' same form' known' => ?_
  cases same
  rw [known] at known'
  cases known'
  exact holds

/-- An element type is read from one byte. -/
theorem toInt_elementType : ∀ code : UInt8,
    0 ≤ code.toUInt32.toInt32.toInt ∧ code.toUInt32.toInt32.toInt < 256 :=
  forall_byte (by decide +kernel)

/-- A switch over a range has a target for every key. -/
theorem gives_tableOperand_holds (base : Nat) :
    Gives (ctx.tableOperand base) Form.tableSwitch.Holds := by
  refine (Gives.any _).bind fun _ _ => (Gives.any _).bind fun default _ => ?_
  refine (Gives.any _).bind fun low _ => (Gives.any _).bind fun high _ => ?_
  refine .ite (fun _ => .malformed) fun order => .ite (fun _ => .malformed) fun _ => ?_
  refine (Gives.length_times _ _).bind fun targets count => .pure ?_
  have some : low.toInt ≤ high.toInt := Int.not_lt.1 (mt Int32.lt_iff_toInt_lt.2 order)
  show high.toInt - low.toInt + 1 = targets.length
  omega

/-- **Every form gives numbers that it has room for.** -/
theorem gives_formed_exact {form : Form} (known : Opcode.form? op = some form) :
    Gives (ctx.formed offset op form) Instruction.Exact := by
  have any := fun {α : Type} (d : Decoder α) => Gives.any d
  have constant := fun index => (any (Decoder.ofExcept (ctx.pool.constant ctx.bootstrap index))).bind
    fun c _ => show Gives (pure (.op Opcode.ldc (.load c))) Instruction.Exact from
      gives_unlimited rfl
  cases form with
  | signedByte =>
    refine (any _).bind fun (value : Int8) _ => gives_limited known ?_
    show fitsByte value.toInt32.toInt = true
    have low := value.le_toInt
    have high := value.toInt_lt
    simp only [fitsByte, Int8.toInt_toInt32, Bool.and_eq_true, decide_eq_true_eq]
    omega
  | signedShort =>
    refine (any _).bind fun (value : Int16) _ => gives_limited known ?_
    show fitsShort value.toInt32.toInt = true
    have low := value.le_toInt
    have high := value.toInt_lt
    simp only [fitsShort, Int16.toInt_toInt32, Bool.and_eq_true, decide_eq_true_eq]
    omega
  | elementType =>
    exact (any _).bind fun code _ => gives_limited known (toInt_elementType code)
  | tableSwitch =>
    exact (gives_tableOperand_holds offset).bind fun operand holds => gives_limited known holds
  | lookupSwitch =>
    refine (gives_lookupOperand offset).bind fun operand shape => ?_
    obtain ⟨default, pairs, rfl⟩ := shape
    exact gives_unlimited rfl
  | plain => exact gives_unlimited rfl
  | narrowConstant => exact (any _).bind fun index _ => constant _
  | wideConstant => exact (any _).bind fun index _ => constant _
  | «variable» => exact (any _).bind fun index _ => gives_unlimited rfl
  | shortVariable general index => exact gives_unlimited rfl
  | increment => exact (any _).bind fun index _ => (any _).bind fun amount _ => gives_unlimited rfl
  | branch => exact (any _).bind fun target _ => gives_unlimited rfl
  | wideBranch general => exact (any _).bind fun target _ => gives_unlimited rfl
  | field => exact (any _).bind fun found _ => gives_unlimited rfl
  | method => exact (any _).bind fun found _ => gives_unlimited rfl
  | interfaceMethod => exact (any _).bind fun found _ => (any _).bind fun _ _ => gives_unlimited rfl
  | callSite =>
    exact (any _).bind fun index _ => (any _).bind fun call _ => (any _).bind fun _ _ =>
      gives_unlimited rfl
  | type => exact (any _).bind fun name _ => gives_unlimited rfl
  | multiArray => exact (any _).bind fun desc _ => (any _).bind fun dims _ => gives_unlimited rfl
  | wide =>
    refine (any _).bind fun op _ => .ite (fun _ => ?_) fun _ => .ite (fun _ => ?_) fun _ => .malformed
    · exact (any _).bind fun index _ => (any _).bind fun amount _ => gives_unlimited rfl
    · exact (any _).bind fun index _ => gives_unlimited rfl

theorem gives_operand_exact : Gives (ctx.operand offset op) Instruction.Exact := by
  unfold operand
  cases known : Opcode.form? op with
  | none => exact .malformed
  | some form => exact gives_formed_exact known

/-- What every instruction has that is read, all instructions of some code have. -/
theorem forall_instructions {P : Instruction → Prop}
    (each : ∀ offset op, Gives (ctx.operand offset op) P) {code : Bytes}
    {rows : List (Nat × Instruction)} (h : ctx.instructions code = .ok rows) :
    ∀ row ∈ rows, P row.2 := by
  suffices general : ∀ rounds front c rows, ctx.instructionsOnto rounds front c = .ok rows →
      (∀ row ∈ front, P row.2) → ∀ row ∈ rows, P row.2 from
    general _ _ _ _ h fun _ member => nomatch member
  intro rounds front c rows h known
  fun_induction ctx.instructionsOnto rounds front c with
  | case1 rounds front position =>
    cases h
    exact fun row member => known row (List.mem_reverse.1 member)
  | case2 => cases h
  | case3 rounds front offset op rest insn cursor found ih =>
    exact ih h (List.forall_mem_cons.2 ⟨each _ _ _ _ _ found, known⟩)
  | case4 => cases h

end BytecodeContext

/-! ### Labels without gaps -/

/-- Of some offsets with all that have a number among them, there are as many with a number as there
are numbers. -/
theorem Numbering.length_filterMap {N : Numbering} {offsets : List Nat} (apart : offsets.Nodup)
    (inside : ∀ o ∈ N, o ∈ offsets) :
    (offsets.filterMap fun o => N[o]?.map Label.mk).length = N.size := by
  have numbered : (offsets.filter fun o => N.contains o).Perm N.keys := by
    refine (List.perm_ext_iff_of_nodup (apart.filter _) Std.HashMap.nodup_keys).2 fun o => ?_
    rw [List.mem_filter, Std.HashMap.mem_keys, Std.HashMap.contains_iff_mem]
    exact ⟨And.right, fun known => ⟨inside o known, known⟩⟩
  rw [List.length_filterMap_eq_countP, ← Std.HashMap.length_keys, ← numbered.length_eq,
    List.countP_eq_length_filter]
  congr 2
  funext o
  rw [Option.isSome_map, Std.HashMap.isSome_getElem?_eq_contains]

/-! ### One frame at most -/

/-- The frame that stands here. -/
def Instruction.frame? : Instruction → Option Frame
  | .frame types => some types
  | _ => none

/-- The first step of a body that begins with the marks of an instruction. -/
theorem Steps.steps_ofList_append {marks : List Instruction}
    (pseudo : ∀ mark ∈ marks, mark.isPseudo = true) (op : Opcode) (operand : Operand)
    (rest : List Instruction) : (ofList (marks ++ .op op operand :: rest)).steps
      = ⟨marks, op, operand⟩ :: (ofList rest).steps := by
  obtain ⟨tidy, tail⟩ := tidy_ofList rest
  have whole : marks ++ .op op operand :: rest
      = toList ⟨⟨marks, op, operand⟩ :: (ofList rest).steps, (ofList rest).tail⟩ := by
    rw [toList_cons]
    show _ = marks ++ .op op operand :: (ofList rest).toList
    rw [toList_ofList]
  have first : Tidy ⟨⟨marks, op, operand⟩ :: (ofList rest).steps, (ofList rest).tail⟩ :=
    ⟨List.forall_mem_cons.2 ⟨pseudo, tidy⟩, tail⟩
  rw [whole, ofList_toList first]

theorem Steps.steps_ofList_marks {marks : List Instruction}
    (pseudo : ∀ mark ∈ marks, mark.isPseudo = true) : (ofList marks).steps = [] := by
  have nothing : Tidy ⟨[], marks⟩ := ⟨fun _ h => absurd h List.not_mem_nil, pseudo⟩
  rw [show marks = toList ⟨[], marks⟩ from rfl, ofList_toList nothing]

namespace Marks

variable (N : Numbering) (lineMap : Std.HashMap Nat (List UInt16))
  (frameMap : Std.HashMap Nat Frame) (finish : Nat)

theorem length_frames_marksAt (offset : Nat) :
    ((marksAt N lineMap frameMap offset).filterMap Instruction.frame?).length ≤ 1 := by
  unfold marksAt
  cases N[offset]? with
  | none => exact Nat.zero_le 1
  | some number =>
    have lines : ∀ rows : List UInt16,
        (rows.map (Instruction.line · ⟨number⟩)).filterMap Instruction.frame? = [] := by
      intro rows
      rw [List.filterMap_eq_nil_iff]
      intro mark member
      obtain ⟨row, -, rfl⟩ := List.mem_map.1 member
      rfl
    dsimp only
    rw [List.filterMap_append, List.filterMap_cons_none rfl, lines]
    cases frameMap[offset]? with
    | none => exact Nat.zero_le 1
    | some frame => exact Nat.le_refl 1

/-- **One frame at most stands in front of an instruction.** -/
theorem length_frames_body {code : List (Nat × Instruction)}
    (executable : ∀ entry ∈ code, entry.2.isPseudo = false) :
    ∀ step ∈ (Steps.ofList (body N lineMap frameMap finish code)).steps,
      (step.marks.filterMap Instruction.frame?).length ≤ 1 := by
  induction code with
  | nil =>
    rw [Steps.steps_ofList_marks]
    · exact fun step member => nomatch member
    · intro mark member
      obtain ⟨number, -, rfl⟩ := Option.map_eq_some_iff.1 (Option.mem_toList.1 member)
      rfl
  | cons entry code ih =>
    obtain ⟨offset, insn⟩ := entry
    have behind := ih fun e he => executable e (List.mem_cons_of_mem _ he)
    have first := executable _ List.mem_cons_self
    cases insn with
    | op op operand =>
      rw [body_cons]
      show ∀ step ∈ (Steps.ofList (_ ++ .op op (operand.mapLabels N.label) :: _)).steps, _
      rw [Steps.steps_ofList_append (marksAt_pseudo N lineMap frameMap offset)]
      exact List.forall_mem_cons.2 ⟨length_frames_marksAt N lineMap frameMap offset, behind⟩
    | _ => cases first

end Marks

/-! ### Closed bodies -/

/-- A body that refers to nothing outside of itself and says nothing that cannot be written. -/
structure Code.Closed (code : Code) : Prop where
  /-- Every label that something refers to is placed exactly once. -/
  placed : code.WellPlaced
  /-- No label is placed twice, whether something refers to it or not. -/
  distinct : (Steps.labelsOf code.instructions.toList).Nodup
  /-- There are as many labels as are placed. -/
  count : code.instructions.labelCount = (Steps.labelsOf code.instructions.toList).length
  below : ∀ l ∈ Steps.labelsOf code.instructions.toList, l.index < code.instructions.labelCount
  /-- Opcodes are general ones, and have an operand of their own kind. -/
  general : ∀ op operand, .op op operand ∈ code.instructions.toList →
    op.isShorthand = false ∧ op.Takes operand
  /-- Numbers have room in the form of their opcode. -/
  exact : ∀ insn ∈ code.instructions.toList, insn.Exact
  /-- Of frames one at most stands in front of an instruction. -/
  oneFrame : ∀ step ∈ (Steps.ofList code.instructions.toList).steps,
    (step.marks.filterMap Instruction.frame?).length ≤ 1
  /-- No variable ends before it starts. -/
  forwards : ∀ v ∈ code.localVariables, (Code.place code.instructions.toList v.start).index
    ≤ (Code.place code.instructions.toList v.finish).index

namespace Marks.Assembled

variable {header : MethodHeader} {length : Nat} {rows : List (Nat × Instruction)}
  {ranges : List ExceptionRange} {m : Marks} (all : m.Assembled header length rows ranges)

include all in
/-- Offsets ascend with the numbers of instructions. -/
theorem ascend_places : (places length rows).Pairwise (· < ·) := by
  refine List.pairwise_append.2 ⟨List.pairwise_map.2 all.read.ascend, List.pairwise_singleton _ _,
    fun o member p last => ?_⟩
  obtain ⟨row, there, rfl⟩ := List.mem_map.1 member
  rw [List.mem_singleton.1 last]
  exact (all.read.inside row there).2

include all in
/-- The labels of two offsets stand in the order of the offsets. -/
theorem place_le {a b : Label} (ha : a.index ∈ m.mentioned) (hb : b.index ∈ m.mentioned)
    (le : a.index ≤ b.index) :
    (Code.place (insns m length rows) ((numbers m).label a)).index
      ≤ (Code.place (insns m length rows) ((numbers m).label b)).index := by
  obtain ⟨-, j, hj, atJ⟩ := all.position ha
  obtain ⟨-, k, hk, atK⟩ := all.position hb
  rw [atJ, atK]
  obtain ⟨insideJ, hj⟩ := List.getElem?_eq_some_iff.1 hj
  obtain ⟨insideK, hk⟩ := List.getElem?_eq_some_iff.1 hk
  by_contra less
  have := List.pairwise_iff_getElem.1 all.ascend_places k j insideK insideJ (Nat.not_le.1 less)
  omega

include all in
/-- The labels of a body are those of the offsets that have a number, in the order of the code. -/
theorem labelsOf_insns : Steps.labelsOf (insns m length rows)
    = (places length rows).filterMap fun o => (numbers m)[o]?.map Label.mk :=
  labelsOf_body _ _ _ _ all.executable

include all in
theorem nodup_labels : (Steps.labelsOf (insns m length rows)).Nodup := by
  rw [all.labelsOf_insns]
  refine all.apart.filterMap fun o p l ho hp => ?_
  obtain ⟨n, known, rfl⟩ := Option.map_eq_some_iff.1 ho
  obtain ⟨q, known', same⟩ := Option.map_eq_some_iff.1 hp
  cases same
  exact (Numbering.distinct_ofMentions m.mentioned.reverse).injective o p _ known known'

include all in
theorem length_labels : (Steps.labelsOf (insns m length rows)).length = (numbers m).size := by
  rw [all.labelsOf_insns]
  exact Numbering.length_filterMap all.apart fun o member =>
    all.inside o (List.mem_reverse.1 (Numbering.mem_ofMentions.1 member))

include all in
theorem lt_of_mem_labels {l : Label} (h : l ∈ Steps.labelsOf (insns m length rows)) :
    l.index < (numbers m).size := by
  rw [all.labelsOf_insns] at h
  obtain ⟨o, -, same⟩ := List.mem_filterMap.1 h
  obtain ⟨n, known, rfl⟩ := Option.map_eq_some_iff.1 same
  exact (Numbering.distinct_ofMentions m.mentioned.reverse).below o n known

include all in
/-- **What was read of a body makes a closed one.** -/
theorem closed (known : ∀ row ∈ rows, row.2.Exact) {code : Code}
    (instructions : code.instructions.toList = insns m length rows)
    (labelCount : code.instructions.labelCount = (numbers m).size)
    (handlers : code.handlers = ranges.map (·.mapLabels (numbers m).label))
    (localVariables : code.localVariables
      = m.variablesWithSignatures.map (·.mapLabels (numbers m).label)) : code.Closed := by
  have decoded := all.decoded instructions handlers localVariables
  refine
    { placed := decoded.placed
      distinct := instructions ▸ all.nodup_labels
      count := labelCount.trans (instructions ▸ all.length_labels.symm)
      below := fun l member => labelCount ▸ all.lt_of_mem_labels (instructions ▸ member)
      general := fun op operand member => ?_
      exact := fun insn member => ?_
      oneFrame := ?_
      forwards := fun v member => ?_ }
  · obtain ⟨_, _, same, takes, -⟩ := decoded.read op operand member
    cases same
    exact ⟨takes.isShorthand, takes⟩
  · rw [instructions] at member
    rcases mem_insns member with ⟨l, rfl⟩ | ⟨row, there, rfl⟩ | ⟨number, o, n, rfl, -⟩ |
      ⟨e, -, rfl⟩
    · exact fun _ _ same => nomatch same
    · exact (known row there).mapLabels _
    · exact fun _ _ same => nomatch same
    · exact fun _ _ same => nomatch same
  · rw [instructions]
    exact length_frames_body _ _ _ _ all.executable
  · rw [localVariables] at member
    rw [instructions]
    obtain ⟨v, original, rfl⟩ := List.mem_map.1 member
    obtain ⟨e, inside, made⟩ := all.variables_spec.2 v original
    refine all.place_le (all.mentioned_variable original List.mem_cons_self)
      (all.mentioned_variable original (List.mem_cons_of_mem _ List.mem_cons_self)) ?_
    rw [made]
    exact all.sound.forwards e inside

end Marks.Assembled

/-- **Every body that is read is closed**, whatever is left out while it is read. -/
theorem Code.closed_of_decode {pool : Pool} {bootstrap : BootstrapTable} {header : MethodHeader}
    {options : ReadOptions} {bytes : Bytes} {code : Code}
    (h : decode pool bootstrap header options bytes = .ok code) : code.Closed := by
  have given : Gives (decoder pool bootstrap header options) Closed := by
    refine (Gives.any _).bind fun maxStack _ => (Gives.any _).bind fun maxLocals _ => ?_
    refine (Gives.any _).bind fun length _ => .ite (fun _ => .malformed) fun some => ?_
    refine (Gives.length_take _).bind fun bytes whole => ?_
    refine (Gives.ofExcept fun rows found => And.intro (BytecodeContext.rows_instructions found)
      (BytecodeContext.forall_instructions (fun _ _ => BytecodeContext.gives_operand_exact)
        found)).bind fun rows ⟨⟨read, nonempty⟩, known⟩ => ?_
    refine (Gives.any _).bind fun ranges _ => (Gives.any _).bind fun count _ => ?_
    refine (Gives.iterate (fun m sound => gives_decodeAttribute options sound) _
      (Marks.sound_start _)).bind fun marks sound => .ofExcept fun code made => ?_
    rw [whole] at read
    have present : bytes ≠ [] := by
      rintro rfl
      simp only [Bool.or_eq_true, beq_iff_eq, not_or] at some
      exact some.1 (UInt32.toNat_inj.1 whole.symm)
    obtain ⟨all, instructions, labelCount, handlers, localVariables⟩ :=
      assembled_of_assemble read (nonempty present) sound made
    exact all.closed known instructions labelCount handlers localVariables
  exact given.onBytes h

end ClassInstrument
