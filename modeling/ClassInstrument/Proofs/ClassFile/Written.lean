import ClassInstrument.ClassFile.Encode
import ClassInstrument.Proofs.Annotation.RoundTrip
import ClassInstrument.Proofs.ClassFile.Skeleton
import ClassInstrument.Proofs.Code.Attribute

/-!
# Classes as they are written

What is known of the bytes of a class in all later tables: they are taken apart again into the
names, members and attributes that were written.  Attributes that are kept as bytes come last
among those of a member, and between annotations and bootstrap methods among those of the class.

* `ClassFile.AnnotationsWritten`, `ClassFile.CodeWritten` — the attributes that are written anew;
* `ClassFile.MethodWritten` — a method as it is taken apart again;
* `ClassFile.Wrote` — a class as it is taken apart again;
* `ClassFile.encodeBody_spec` — **every class that is written is taken apart into its parts**, and
  its tables only grew.
-/

namespace ClassInstrument

open Builder Decoder

namespace ClassFile

/-! ### Annotations -/

/-- The attribute for a list of annotations, if there are any. -/
def annotationList (name : String) (annotations : List Annotation) : Builder (List Attribute) :=
  if annotations.isEmpty then pure []
  else do
    let body ← Annotation.encodeAll annotations
    return [⟨name, body⟩]

theorem annotationAttributes_eq (a : Annotations) :
    annotationAttributes a = (do
      let visible ← annotationList Annotations.visibleName a.visible
      let invisible ← annotationList Annotations.invisibleName a.invisible
      return visible ++ invisible) := by
  unfold annotationAttributes annotationList
  split <;> split <;> simp only [bind_assoc, pure_bind]

/-- A list of annotations has an attribute if it is not empty, and is read back from it. -/
def AnnotationsWritten (t : ConstantTables) (name : String) (annotations : List Annotation)
    (attributes : List Attribute) : Prop :=
  annotations = [] ∧ attributes = [] ∨ ∃ body, attributes = [⟨name, body⟩]
    ∧ ((∀ a ∈ annotations, a.Readable) → Annotation.decodeAll t.pool body = .ok annotations)

theorem yields_annotationList (name : String) (annotations : List Annotation) :
    Yields (annotationList name annotations) fun attributes t =>
      AnnotationsWritten t name annotations attributes := by
  refine Yields.ite (fun none => ?_) fun _ => ?_
  · exact Yields.pure fun t => .inl ⟨List.isEmpty_iff.1 none, rfl⟩
  · refine ( Annotation.yields_encodeAll annotations).bind fun body => Yields.pure fun t read => ?_
    exact .inr ⟨body, rfl, read⟩

/-! ### Members -/

theorem reads_decodeText {pool : Pool} {i : UInt16} {text : String} (h : pool.utf8 i = .ok text) :
    Reads (decodeText pool) (Word.encode i) text :=
  (Reads.word i).bind_pure (Reads.ofExcept h)

/-- The head of a member, whatever attributes follow it. -/
theorem yields_encodeHead (access : Access) (name desc : String) :
    Yields (encodeHead access name desc) fun bytes t => ∀ attributes rest,
      Reads (Header.decodeAttributes t.pool) rest attributes →
        Reads (decodeMember t.pool) (bytes ++ rest) ⟨access, name, desc, attributes⟩ := by
  refine (yields_addUtf8 name).bind fun n => (yields_addUtf8 desc).bind fun d => ?_
  refine Yields.pure fun t typed named attributes rest read => ?_
  simp only [List.append_assoc]
  refine (Reads.word access).bind ((reads_decodeText named).bind ?_)
  exact (reads_decodeText typed).bind (read.bind_pure (Reads.pure _))

/-- **A field is read back** with its attributes. -/
theorem writes_encodeField (f : Field) :
    Writes (encodeField f) (fun t => decodeMember t.pool) f := by
  refine (yields_encodeHead f.access f.name f.desc).bind fun head => ?_
  refine (Attribute.writes_encodeAll f.attributes).bind fun attributes => ?_
  exact Yields.pure fun t read member => member _ _ read

variable (c : ClassFile) (hierarchy : Hierarchy) (options : EncodeOptions)

/-- The attribute for the body of a method, if there is one. -/
def codeAttributes (m : Method) : Builder (List Attribute) :=
  match m.code with
  | none => pure []
  | some code => do
    let code ← Builder.ofExcept (prepare hierarchy options c.major (c.header m) code)
    let body ← code.encode c.major
    return [⟨Code.attributeName, body⟩]

theorem encodeMethod_eq (m : Method) :
    c.encodeMethod hierarchy options m = (do
      let head ← encodeHead m.access m.name m.desc
      let code ← c.codeAttributes hierarchy options m
      let annotations ← annotationAttributes m.annotations
      let attributes ← Attribute.encodeAll (code ++ annotations ++ m.attributes)
      return head ++ attributes) := by
  unfold encodeMethod codeAttributes
  cases m.code <;> simp only [bind_assoc, pure_bind]

/-- A body has an attribute with the parts of what it is prepared to. -/
def CodeWritten (t : ConstantTables) (m : Method) (attributes : List Attribute) : Prop :=
  m.code = none ∧ attributes = [] ∨ ∃ code prepared body, m.code = some code
    ∧ prepare hierarchy options c.major (c.header m) code = .ok prepared
    ∧ attributes = [⟨Code.attributeName, body⟩]
    ∧ ∃ items layout emitted behind,
      Code.Written c.major prepared body t items layout emitted behind

theorem yields_codeAttributes (m : Method) :
    Yields (c.codeAttributes hierarchy options m) fun attributes t =>
      c.CodeWritten hierarchy options t m attributes := by
  unfold codeAttributes
  cases body : m.code with
  | none => exact Yields.pure fun t => .inl ⟨body, rfl⟩
  | some code =>
    refine (Yields.ofExcept _).bind fun prepared => ?_
    refine (Code.yields_encode c.major prepared).bind fun bytes => ?_
    exact Yields.pure fun t written prep =>
      .inr ⟨code, prepared, bytes, body, prep, rfl, written⟩

/-- A method as it is taken apart again. -/
structure MethodWritten (t : ConstantTables) (m : Method) (member : Field) : Prop where
  access : member.access = m.access
  name : member.name = m.name
  desc : member.desc = m.desc
  attributes : ∃ code visible invisible,
    member.attributes = code ++ (visible ++ invisible) ++ m.attributes
      ∧ c.CodeWritten hierarchy options t m code
      ∧ AnnotationsWritten t Annotations.visibleName m.annotations.visible visible
      ∧ AnnotationsWritten t Annotations.invisibleName m.annotations.invisible invisible

theorem yields_encodeMethod (m : Method) :
    Yields (c.encodeMethod hierarchy options m) fun bytes t => ∃ member,
      Reads (decodeMember t.pool) bytes member ∧ c.MethodWritten hierarchy options t m member := by
  rw [encodeMethod_eq, annotationAttributes_eq]
  simp only [bind_assoc, pure_bind]
  refine (yields_encodeHead m.access m.name m.desc).bind fun head => ?_
  refine (c.yields_codeAttributes hierarchy options m).bind fun code => ?_
  refine (yields_annotationList _ _).bind fun visible => ?_
  refine (yields_annotationList _ _).bind fun invisible => ?_
  refine (Attribute.writes_encodeAll _).bind fun attributes => ?_
  refine Yields.pure fun t read hidden shown body member => ?_
  exact ⟨_, member _ _ read, rfl, rfl, rfl, code, visible, invisible, rfl, body, shown, hidden⟩

/-! ### The whole class -/

theorem writes_interface (name : String) :
    Writes (Word.encode <$> addClass name) (fun t => decodeClassName t.pool) name :=
  Yields.map ((yields_addClass name).mono fun i _ found =>
    (Reads.word i).bind_pure (Reads.ofExcept found.2.1))

/-- The bytes of a class up to its attributes, with the attributes for annotations. -/
def bodyFront : Builder (Bytes × List Attribute) := do
  let name ← addClass c.name
  let superName ← addOptionalClass c.superName
  let interfaceCount ← Builder.count "interfaces" c.interfaces.length
  let interfaces ← concat (fun name => Word.encode <$> addClass name) c.interfaces
  let fieldCount ← Builder.count "fields" c.fields.length
  let fields ← concat encodeField c.fields
  let methodCount ← Builder.count "methods" c.methods.length
  let methods ← concat (c.encodeMethod hierarchy options) c.methods
  let annotations ← annotationAttributes c.annotations
  return (Word.encode c.access ++ Word.encode name ++ Word.encode superName
    ++ interfaceCount ++ interfaces ++ fieldCount ++ fields ++ methodCount ++ methods, annotations)

theorem encodeBody_eq :
    c.encodeBody hierarchy options = (do
      let front ← c.bodyFront hierarchy options
      let bootstrap ← bootstrapAttribute
      let attributes ← Attribute.encodeAll (front.2 ++ c.attributes ++ bootstrap)
      return front.1 ++ attributes) := by
  simp only [encodeBody, bodyFront, bind_assoc, pure_bind]

/-- A class as it is taken apart again, with the attributes for annotations and bootstrap methods
around those that were kept. -/
structure Wrote (t : ConstantTables) (s : ClassSkeleton) (bootstrap : List Attribute) : Prop where
  access : s.access = c.access
  name : s.name = c.name
  superName : s.superName = c.superName
  interfaces : s.interfaces = c.interfaces
  fields : s.fields = c.fields
  members : List.Forall₂ (c.MethodWritten hierarchy options t) c.methods s.members
  attributes : ∃ visible invisible,
    s.attributes = (visible ++ invisible) ++ c.attributes ++ bootstrap
      ∧ AnnotationsWritten t Annotations.visibleName c.annotations.visible visible
      ∧ AnnotationsWritten t Annotations.invisibleName c.annotations.invisible invisible

/-- A class is taken apart into its parts, whatever attributes follow the front. -/
theorem yields_bodyFront :
    Yields (c.bodyFront hierarchy options) fun front t => ∀ bootstrap rest,
      Reads (Header.decodeAttributes t.pool) rest (front.2 ++ c.attributes ++ bootstrap) →
        ∃ s, Reads (ClassSkeleton.decoder t.pool) (front.1 ++ rest) s
          ∧ c.Wrote hierarchy options t s bootstrap := by
  unfold bodyFront
  rw [annotationAttributes_eq]
  simp only [bind_assoc, pure_bind]
  refine (yields_addClass c.name).bind fun name => ?_
  refine (yields_addOptionalClass c.superName).bind fun superName => ?_
  refine (Yields.count _ _).bind fun interfaceCount => ?_
  refine (Yields.concat fun i _ => writes_interface i).bind fun interfaces => ?_
  refine (Yields.count _ _).bind fun fieldCount => ?_
  refine (Yields.concat fun f _ => writes_encodeField f).bind fun fields => ?_
  refine (Yields.count _ _).bind fun methodCount => ?_
  refine (Yields.concat fun m _ => c.yields_encodeMethod hierarchy options m).bind fun methods => ?_
  refine (yields_annotationList _ _).bind fun visible => ?_
  refine (yields_annotationList _ _).bind fun invisible => Yields.pure ?_
  rintro t hidden shown ⟨methodChunks, rfl, eachMethod⟩ ⟨fewMethods, rfl⟩
    ⟨fieldChunks, rfl, eachField⟩ ⟨fewFields, rfl⟩ ⟨interfaceChunks, rfl, eachInterface⟩
    ⟨fewInterfaces, rfl⟩ above named bootstrap rest read
  obtain ⟨members, written, readMembers⟩ := Traverse.forall₂_exists
    (eachMethod.imp fun _ _ ⟨member, reads, parts⟩ => ⟨member, parts, reads⟩)
  dsimp only at read
  generalize joined : visible ++ invisible ++ c.attributes ++ bootstrap = all at read
  refine ⟨⟨c.access, c.name, c.superName, c.interfaces, c.fields, members, all⟩, ?_,
    rfl, rfl, rfl, rfl, rfl, written, visible, invisible, joined.symm, shown, hidden⟩
  have few : members.length < 65536 := by
    rw [← written.length_eq]
    exact fewMethods
  simp only [List.append_assoc]
  refine (Reads.word c.access).bind ?_
  refine ((Reads.word name).bind_pure (Reads.ofExcept named.2.1)).bind ?_
  refine (Reads.word superName).bind ((Reads.ofExcept above).pure_bind ?_)
  rw [← List.append_assoc, written.length_eq]
  refine (Reads.table eachInterface.flip fewInterfaces).bind ?_
  rw [← List.append_assoc]
  refine (Reads.table eachField.flip fewFields).bind ?_
  rw [← List.append_assoc]
  refine (Reads.table readMembers few).bind ?_
  exact read.bind_pure (Reads.pure _)

/-! ### Bootstrap methods -/

/-- The tables have an attribute for bootstrap methods if there are any. -/
def BootstrapWritten (table : BootstrapTable) (attributes : List Attribute) : Prop :=
  table.isEmpty = true ∧ attributes = [] ∨ ∃ body, table.encode = .ok body
    ∧ attributes = [⟨BootstrapTable.attributeName, body⟩]

theorem bootstrapAttribute_eq_ok {t t' : ConstantTables} {attributes : List Attribute}
    (h : bootstrapAttribute t = .ok attributes t') :
    t' = t ∧ BootstrapWritten t.bootstrap attributes := by
  obtain ⟨tables, s, hget, h⟩ := bind_eq_ok_iff.1 h
  cases hget
  by_cases none : t.bootstrap.isEmpty = true
  · rw [if_pos none] at h
    cases h
    exact ⟨rfl, .inl ⟨none, rfl⟩⟩
  · rw [if_neg none] at h
    obtain ⟨body, s, hbody, h⟩ := bind_eq_ok_iff.1 h
    cases h
    cases encoded : t.bootstrap.encode with
    | error e =>
      rw [encoded] at hbody
      cases hbody
    | ok bytes =>
      rw [encoded] at hbody
      cases hbody
      exact ⟨rfl, .inr ⟨body, encoded, rfl⟩⟩

/-- **Every class that is written is taken apart into its parts** in all later tables, and the
bootstrap methods that are written are all there are. -/
theorem encodeBody_spec {t t' : ConstantTables} {bytes : Bytes} (wf : t.WellFormed)
    (h : c.encodeBody hierarchy options t = .ok bytes t') :
    t'.WellFormed ∧ t ≤ t' ∧ ∃ bootstrap, BootstrapWritten t'.bootstrap bootstrap
      ∧ ∀ later, t' ≤ later → ∃ s, Reads (ClassSkeleton.decoder later.pool) bytes s
        ∧ c.Wrote hierarchy options later s bootstrap := by
  rw [encodeBody_eq] at h
  obtain ⟨front, t₁, hfront, h⟩ := bind_eq_ok_iff.1 h
  obtain ⟨bootstrap, t₂, hbootstrap, h⟩ := bind_eq_ok_iff.1 h
  obtain ⟨attributes, t₃, hattributes, h⟩ := bind_eq_ok_iff.1 h
  cases h
  obtain ⟨wf₁, grown₁, skeleton⟩ := c.yields_bodyFront hierarchy options t front t₁ wf hfront
  obtain ⟨rfl, written⟩ := bootstrapAttribute_eq_ok hbootstrap
  obtain ⟨wf', grown', read⟩ := Attribute.writes_encodeAll _ _ attributes t' wf₁ hattributes
  refine ⟨wf', grown₁.trans grown', bootstrap, ?_, fun later hl => ?_⟩
  · rw [Attribute.keepsBootstrap_encodeAll _ _ attributes t' hattributes]
    exact written
  · exact skeleton later (grown'.trans hl) bootstrap attributes (read later hl)

end ClassFile

end ClassInstrument
