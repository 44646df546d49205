import ClassInstrument.Proofs.ClassFile.Written
import ClassInstrument.Proofs.Pool.Repeated

/-!
# Writing a class again

Whatever a class needs of its constants is there once it was written.  Written again with the tables
that it ended with, or with later ones that have the same bootstrap methods, it comes out as the
same bytes and its tables stay as they are.

* `ElementValue.repeats_encode`, `Annotation.repeats_encodeAll` — annotations, as long as their
  constants fit their tags;
* `Code.repeats_encode` — bodies;
* `ClassFile.encodeBody_again` — **a class is written as the same bytes again**.
-/

namespace ClassInstrument

open Builder

/-! ### Annotations -/

namespace ElementValue

/-- A constant that fits its tag needs no bootstrap methods. -/
theorem repeats_addConst {t : UInt8} {value : Constant} (fits : tagFits t value = true) :
    Repeats (addConst t value) := by
  have number : ∀ entry : Entry, entry ≠ .unusable → Repeats (withOwnBootstrap (add entry)) := by
    intro entry usable
    rw [withOwnBootstrap_add]
    exact repeats_add usable
  cases value with
  | int v => exact number (.integer v) Entry.noConfusion
  | float v => exact number (.float v) Entry.noConfusion
  | long v => exact number (.long v) Entry.noConfusion
  | double v => exact number (.double v) Entry.noConfusion
  | string text =>
    exact Repeats.ite (fun _ => (adds_addUtf8 text).repeats) fun bad => absurd fits bad
  | _ => cases fits

mutual

theorem repeats_encode (v : ElementValue) (tagged : v.WellTagged) : Repeats (encode v) := by
  cases v with
  | const tag value => exact (repeats_addConst tagged).bind fun i => Repeats.pure _
  | enum desc name =>
    exact (adds_addUtf8 desc).repeats.bind fun _ =>
      (adds_addUtf8 name).repeats.bind fun _ => Repeats.pure _
  | classRef desc => exact (adds_addUtf8 desc).repeats.bind fun _ => Repeats.pure _
  | nested desc values =>
    exact (adds_addUtf8 desc).repeats.bind fun _ => (Repeats.count _ _).bind fun _ =>
      (repeats_encodeNamed [] values tagged).bind fun _ => Repeats.pure _
  | array values =>
    exact (Repeats.count _ _).bind fun _ =>
      (repeats_encodeItems [] values tagged).bind fun _ => Repeats.pure _

theorem repeats_encodeItems (written : List Bytes) (values : List ElementValue)
    (tagged : WellTaggedAll values) : Repeats (encodeItems written values) := by
  cases values with
  | nil => exact Repeats.pure _
  | cons value values =>
    exact (repeats_encode value tagged.1).bind fun chunk =>
      repeats_encodeItems (chunk :: written) values tagged.2

theorem repeats_encodeNamed (written : List Bytes) (values : List (String × ElementValue))
    (tagged : WellTaggedNamed values) : Repeats (encodeNamed written values) := by
  match values with
  | [] => exact Repeats.pure _
  | (name, value) :: values =>
    exact (adds_addUtf8 name).repeats.bind fun n =>
      (repeats_encode value tagged.1).bind fun chunk =>
        repeats_encodeNamed ((index n ++ chunk) :: written) values tagged.2

end

end ElementValue

theorem Annotation.repeats_encodeAll {annotations : List Annotation}
    (readable : ∀ a ∈ annotations, a.Readable) : Repeats (encodeAll annotations) := by
  refine (Repeats.count _ _).bind fun count => ?_
  refine (Repeats.concat fun a member => ?_).bind fun body => Repeats.pure _
  refine (adds_addUtf8 a.desc).repeats.bind fun d => (Repeats.count _ _).bind fun count => ?_
  exact (ElementValue.repeats_encodeNamed [] a.values (readable a member).tagged).bind fun body =>
    Repeats.pure _

/-! ### Attributes and bodies -/

theorem Attribute.repeats_encodeAll (attributes : List Attribute) :
    Repeats (encodeAll attributes) := by
  refine (Repeats.count _ _).bind fun count => ?_
  refine (Repeats.concat fun a _ => ?_).bind fun body => Repeats.pure _
  exact (adds_addUtf8 a.name).repeats.bind fun name =>
    Repeats.ite (fun _ => Repeats.pure _) fun _ => Repeats.throw _

namespace Code

theorem repeats_encodeRange (labels : LabelTable) (r : ExceptionRange) :
    Repeats (encodeRange labels r) := by
  refine (Repeats.ofExcept _).bind fun start => (Repeats.ofExcept _).bind fun finish => ?_
  refine Repeats.ite (fun _ => Repeats.pure _) fun _ => (Repeats.ofExcept _).bind fun handler => ?_
  exact (adds_addOptionalClass r.catchType).repeats.bind fun catchType => Repeats.pure _

theorem repeats_encodeVariable (labels : LabelTable) (v : LocalVariable) :
    Repeats (encodeVariable labels v) := by
  refine (Repeats.ofExcept _).bind fun start => (Repeats.ofExcept _).bind fun finish => ?_
  refine Repeats.ite (fun _ => Repeats.throw _) fun _ => ?_
  refine (adds_addUtf8 v.name).repeats.bind fun name => ?_
  refine (adds_addUtf8 v.desc).repeats.bind fun desc => ?_
  cases v.signature with
  | none => exact Repeats.pure _
  | some text => exact (adds_addUtf8 text).repeats.bind fun signature => Repeats.pure _

theorem repeats_encodeType (labels : LabelTable) (type : VerificationType) :
    Repeats (encodeType labels type) := by
  cases type with
  | object name => exact (adds_addClass name).repeats.bind fun index => Repeats.pure _
  | uninitialized site => exact (Repeats.ofExcept _).bind fun offset => Repeats.pure _
  | _ => exact Repeats.pure _

theorem repeats_encodeFrame (labels : LabelTable) (delta : Nat) (frame : Frame) :
    Repeats (encodeFrame labels delta frame) := by
  have types : ∀ l, Repeats (concat (encodeType labels) l) := fun l =>
    Repeats.concat fun type _ => repeats_encodeType labels type
  refine (Repeats.count _ _).bind fun localCount => (types frame.locals).bind fun locals => ?_
  refine (Repeats.count _ _).bind fun stackCount => (types frame.stack).bind fun stack => ?_
  exact Repeats.pure _

/-- **A body is written as the same bytes again.** -/
theorem repeats_encode (major : UInt16) (code : Code) : Repeats (code.encode major) := by
  refine (Repeats.mapM fun insn _ => (Instruction.adds_toItem insn).repeats).bind fun items => ?_
  refine (Repeats.ofExcept _).bind fun assembly => ?_
  have ranges : Repeats (encodeRanges assembly.labels code.handlers) :=
    (Repeats.mapM fun r _ => repeats_encodeRange _ r).bind fun rows =>
      (Repeats.count _ _).bind fun count => Repeats.pure _
  have lines : Repeats (encodeLines assembly.labels code.instructions.toList) :=
    (Repeats.ofExcept _).bind fun rows => Repeats.ite (fun _ => Repeats.pure _) fun _ =>
      (Repeats.count _ _).bind fun count => Repeats.pure _
  have localVariables : Repeats (encodeVariables assembly.labels code.localVariables) := by
    refine Repeats.ite (fun _ => Repeats.pure _) fun _ => (Repeats.count _ _).bind fun count => ?_
    refine (Repeats.mapM fun v _ => repeats_encodeVariable _ v).bind fun rows => ?_
    exact Repeats.ite (fun _ => Repeats.pure _) fun _ =>
      (Repeats.count _ _).bind fun count => Repeats.pure _
  have frames : Repeats (encodeFrames assembly.labels major assembly.frames) := by
    refine Repeats.ite (fun _ => Repeats.pure _) fun _ => (Repeats.count _ _).bind fun count => ?_
    exact (Repeats.concat fun entry _ => repeats_encodeFrame _ entry.1 entry.2).bind fun body =>
      Repeats.pure _
  refine ranges.bind fun ranges => lines.bind fun lines => localVariables.bind fun vs => ?_
  refine frames.bind fun frames => ?_
  exact (Attribute.repeats_encodeAll _).bind fun attributes => Repeats.pure _

end Code

/-! ### Classes -/

namespace ClassFile

theorem repeats_annotationAttributes {annotations : Annotations}
    (readable : ∀ a ∈ annotations.toList, a.Readable) :
    Repeats (annotationAttributes annotations) := by
  have list : ∀ name (l : List Annotation), (∀ a ∈ l, a.Readable) →
      Repeats (annotationList name l) := fun name l each =>
    Repeats.ite (fun _ => Repeats.pure _) fun _ =>
      ( Annotation.repeats_encodeAll each).bind fun body => Repeats.pure _
  rw [annotationAttributes_eq]
  refine (list _ _ fun a member => readable a (List.mem_append_left _ member)).bind fun visible => ?_
  refine (list _ _ fun a member => readable a (List.mem_append_right _ member)).bind
    fun invisible => Repeats.pure _

theorem repeats_encodeHead (access : Access) (name desc : String) :
    Repeats (encodeHead access name desc) :=
  (adds_addUtf8 name).repeats.bind fun _ => (adds_addUtf8 desc).repeats.bind fun _ => Repeats.pure _

theorem repeats_encodeField (f : Field) : Repeats (encodeField f) :=
  (repeats_encodeHead f.access f.name f.desc).bind fun _ =>
    (Attribute.repeats_encodeAll f.attributes).bind fun _ => Repeats.pure _

variable (c : ClassFile) (hierarchy : Hierarchy) (options : EncodeOptions)

theorem repeats_encodeMethod {m : Method} (readable : ∀ a ∈ m.annotations.toList, a.Readable) :
    Repeats (c.encodeMethod hierarchy options m) := by
  have code : Repeats (c.codeAttributes hierarchy options m) := by
    unfold codeAttributes
    cases m.code with
    | none => exact Repeats.pure _
    | some code =>
      exact (Repeats.ofExcept _).bind fun prepared =>
        (Code.repeats_encode c.major prepared).bind fun body => Repeats.pure _
  rw [encodeMethod_eq]
  refine (repeats_encodeHead m.access m.name m.desc).bind fun head => code.bind fun code => ?_
  refine (repeats_annotationAttributes readable).bind fun annotations => ?_
  exact (Attribute.repeats_encodeAll _).bind fun attributes => Repeats.pure _

variable {c}

theorem repeats_bodyFront (readable : ∀ a ∈ c.annotations.toList, a.Readable)
    (methods : ∀ m ∈ c.methods, ∀ a ∈ m.annotations.toList, a.Readable) :
    Repeats (c.bodyFront hierarchy options) := by
  refine (adds_addClass c.name).repeats.bind fun name => ?_
  refine (adds_addOptionalClass c.superName).repeats.bind fun superName => ?_
  refine (Repeats.count _ _).bind fun interfaceCount => ?_
  refine (Repeats.concat fun i _ => (adds_addClass i).repeats.map _).bind fun interfaces => ?_
  refine (Repeats.count _ _).bind fun fieldCount => ?_
  refine (Repeats.concat fun f _ => repeats_encodeField f).bind fun fields => ?_
  refine (Repeats.count _ _).bind fun methodCount => ?_
  refine (Repeats.concat fun m member =>
    c.repeats_encodeMethod hierarchy options (methods m member)).bind fun methods => ?_
  exact (repeats_annotationAttributes readable).bind fun annotations => Repeats.pure _

/-- The attribute for bootstrap methods says nothing but the methods. -/
theorem bootstrapAttribute_of_methods {t later : ConstantTables} {attributes : List Attribute}
    (h : bootstrapAttribute t = .ok attributes t)
    (same : later.bootstrap.methods = t.bootstrap.methods) :
    bootstrapAttribute later = .ok attributes later := by
  have encoded : later.bootstrap.encode = t.bootstrap.encode := by
    unfold BootstrapTable.encode BootstrapTable.size
    rw [same]
  obtain ⟨tables, s, hget, h⟩ := bind_eq_ok_iff.1 h
  cases hget
  refine (bind_of_ok (m := get) rfl).trans ?_
  have none : later.bootstrap.isEmpty = t.bootstrap.isEmpty := by
    unfold BootstrapTable.isEmpty
    rw [same]
  rw [none, encoded]
  by_cases empty : t.bootstrap.isEmpty = true
  · rw [if_pos empty] at h ⊢
    cases h
    rfl
  · rw [if_neg empty] at h ⊢
    obtain ⟨body, s, hbody, h⟩ := bind_eq_ok_iff.1 h
    cases h
    cases encoded : t.bootstrap.encode with
    | error e =>
      rw [encoded] at hbody
      cases hbody
    | ok bytes =>
      rw [encoded] at hbody
      cases hbody
      rfl

/-- **A class is written as the same bytes again**, with all later tables that have no more
bootstrap methods. -/
theorem encodeBody_again (readable : ∀ a ∈ c.annotations.toList, a.Readable)
    (methods : ∀ m ∈ c.methods, ∀ a ∈ m.annotations.toList, a.Readable) {t t' : ConstantTables}
    {bytes : Bytes} (wf : t.WellFormed) (h : c.encodeBody hierarchy options t = .ok bytes t')
    {later : ConstantTables} (wf' : later.WellFormed) (grown : t' ≤ later)
    (same : later.bootstrap.methods = t'.bootstrap.methods) :
    c.encodeBody hierarchy options later = .ok bytes later := by
  rw [encodeBody_eq] at h ⊢
  obtain ⟨front, t₁, hfront, h⟩ := bind_eq_ok_iff.1 h
  obtain ⟨bootstrap, t₂, hbootstrap, h⟩ := bind_eq_ok_iff.1 h
  obtain ⟨attributes, t₃, hattributes, h⟩ := bind_eq_ok_iff.1 h
  cases h
  obtain ⟨wf₁, -, again⟩ := repeats_bodyFront hierarchy options readable methods t front t₁ wf hfront
  obtain ⟨rfl, -⟩ := bootstrapAttribute_eq_ok hbootstrap
  obtain ⟨-, grown', rest⟩ := Attribute.repeats_encodeAll _ _ attributes t' wf₁ hattributes
  rw [Attribute.keepsBootstrap_encodeAll _ _ attributes t' hattributes] at same
  refine (bind_of_ok (again later (grown'.trans grown) wf')).trans ?_
  refine (bind_of_ok (bootstrapAttribute_of_methods hbootstrap same)).trans ?_
  exact (bind_of_ok (rest later grown wf')).trans rfl

end ClassFile

end ClassInstrument
