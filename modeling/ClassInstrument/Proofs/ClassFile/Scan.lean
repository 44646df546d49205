import ClassInstrument.Proofs.Annotation.Decoded
import ClassInstrument.Proofs.ClassFile.Skeleton

/-!
# What is seen without decoding a class

The header of a class file leaves out everything that is not the answer to a question.  On the bytes
of a class it sees the attributes that the whole class is decoded from, so that both agree about
annotations.

* `ClassSkeleton.follows_decoder` — leaving out members ends where reading them does;
* `Annotations.ofAttribute` — what attributes say about annotations;
* `Header.annotationTypes_listed`, `Header.annotationTypes_eq` — **the header sees the annotations**
  that the class is decoded with;
* `Header.className_of_decoder` — and its name;
* `Annotations.ofMembers_of_interpret` — what the methods of a class say about annotations.
-/

namespace ClassInstrument

open Decoder

/-! ### Leaving out members -/

namespace Header

theorem follows_skipAttribute (pool : Pool) :
    Follows (decodeAttribute pool) skipAttribute fun _ => () := by
  refine Follows.bind (Follows.word (α := UInt16)) fun index => Follows.ofExcept_bind fun name _ => ?_
  refine Follows.bind (Follows.refl _) fun length => ?_
  intro c value c' run
  obtain ⟨body, between, taken, run⟩ := Decoder.bind_eq_ok_iff.1 run
  cases run
  exact Follows.take length.toNat c body c' taken

/-- The index of a text or a name. -/
theorem follows_index {α : Type} (lookup : UInt16 → Except Failure α) :
    Follows (do
      let index ← Decoder.word
      Decoder.ofExcept (lookup index)) (skip 2) fun _ => () := by
  intro c value c' run
  obtain ⟨index, between, here, run⟩ := Decoder.bind_eq_ok_iff.1 run
  have skipped := Follows.word (α := UInt16) c index between here
  cases found : lookup index with
  | error e =>
    rw [found] at run
    cases run
  | ok name =>
    rw [found] at run
    cases run
    exact skipped

theorem follows_skipMember (pool : Pool) :
    Follows (ClassFile.decodeMember pool) skipMember fun _ => () := by
  refine Follows.skip_bind 2 4 (Follows.word (α := UInt16)) fun access => ?_
  refine Follows.skip_bind 2 2 (follows_index pool.utf8) fun name => ?_
  refine Follows.bind (follows_index pool.utf8) fun desc => ?_
  exact Follows.bind (follows_skipAttribute pool).table fun attributes =>
    Follows.pure _ fun _ => ()

end Header

namespace ClassSkeleton

/-- Leaving out everything in front of the attributes of a class ends where reading it does. -/
theorem follows_decoder (pool : Pool) :
    Follows (decoder pool) (Header.attributesDecoder pool) ClassSkeleton.attributes := by
  refine Follows.skip_bind 2 4 (Follows.word (α := UInt16)) fun access => ?_
  refine Follows.skip_bind 2 2 (Header.follows_index pool.className)
    fun name => ?_
  refine Follows.bind (Follows.word (α := UInt16)) fun superIndex =>
    Follows.ofExcept_bind fun superName _ => ?_
  refine Follows.table_bind (Header.follows_index pool.className) fun interfaces => ?_
  refine Follows.bind (Header.follows_skipMember pool).table fun fields => ?_
  refine Follows.bind (Header.follows_skipMember pool).table fun members => ?_
  intro c s c' run
  obtain ⟨attributes, between, read, run⟩ := Decoder.bind_eq_ok_iff.1 run
  cases run
  exact read

end ClassSkeleton

/-! ### Annotations among attributes -/

namespace Attribute

variable {a : Attribute} (options : ReadOptions)

theorem roleInClass_visible (h : a.name = Annotations.visibleName) :
    a.roleInClass options = .annotations true := by
  unfold roleInClass
  rw [h, if_neg (by decide), if_pos (beq_self_eq_true _)]

theorem roleInClass_invisible (h : a.name = Annotations.invisibleName) :
    a.roleInClass options = .annotations false := by
  unfold roleInClass
  rw [h, if_neg (by decide), if_neg (by decide), if_pos (beq_self_eq_true _)]

theorem roleInClass_other (visible : a.name ≠ Annotations.visibleName)
    (invisible : a.name ≠ Annotations.invisibleName) (which : Bool) :
    a.roleInClass options ≠ .annotations which := by
  unfold roleInClass
  rw [beq_eq_false_iff_ne.2 visible, beq_eq_false_iff_ne.2 invisible]
  split
  · exact AttributeRole.noConfusion
  rw [if_neg Bool.false_ne_true, if_neg Bool.false_ne_true]
  split <;> exact AttributeRole.noConfusion

theorem roleInMethod_visible (h : a.name = Annotations.visibleName) :
    a.roleInMethod options = .annotations true := by
  have other : (a.name == Code.attributeName) = false := by
    rw [h]
    decide
  unfold roleInMethod
  rw [other, Bool.false_and, if_neg Bool.false_ne_true, h, if_pos (beq_self_eq_true _)]

theorem roleInMethod_invisible (h : a.name = Annotations.invisibleName) :
    a.roleInMethod options = .annotations false := by
  have other : (a.name == Code.attributeName) = false := by
    rw [h]
    decide
  unfold roleInMethod
  rw [other, Bool.false_and, if_neg Bool.false_ne_true, h, if_neg (by decide),
    if_pos (beq_self_eq_true _)]

theorem roleInMethod_other (visible : a.name ≠ Annotations.visibleName)
    (invisible : a.name ≠ Annotations.invisibleName) (which : Bool) :
    a.roleInMethod options ≠ .annotations which := by
  unfold roleInMethod
  rw [beq_eq_false_iff_ne.2 visible, beq_eq_false_iff_ne.2 invisible]
  split
  · exact AttributeRole.noConfusion
  rw [if_neg Bool.false_ne_true, if_neg Bool.false_ne_true]
  split <;> exact AttributeRole.noConfusion

end Attribute

namespace Annotations

/-- Take over what an attribute says about annotations; all others are passed over. -/
def ofAttribute (pool : Pool) (s : Annotations) (a : Attribute) : Except Failure Annotations :=
  if a.name = visibleName then ( Annotation.decodeAll pool a.body).map (s.add true)
  else if a.name = invisibleName then ( Annotation.decodeAll pool a.body).map (s.add false)
  else .ok s

variable {pool : Pool} {options : ReadOptions}

/-- What a class takes over from an attribute. -/
theorem ofAttribute_of_classAttribute {s r : ClassFile.ClassAttributes} {a : Attribute}
    (h : ClassFile.classAttribute pool options s a = .ok r) :
    ofAttribute pool s.annotations a = .ok r.annotations := by
  unfold ClassFile.classAttribute at h
  unfold ofAttribute
  split_ifs with visible invisible
  · rw [a.roleInClass_visible options visible] at h
    obtain ⟨annotations, decoded, h⟩ := Traverse.bind_eq_ok_iff.1 h
    cases h
    rw [decoded]
    rfl
  · rw [a.roleInClass_invisible options invisible] at h
    obtain ⟨annotations, decoded, h⟩ := Traverse.bind_eq_ok_iff.1 h
    cases h
    rw [decoded]
    rfl
  · split at h
    · obtain ⟨table, -, h⟩ := Traverse.bind_eq_ok_iff.1 h
      cases h
      rfl
    · next which role => exact absurd role (a.roleInClass_other options visible invisible which)
    · cases h
      rfl

/-- What a method takes over from an attribute. -/
theorem ofAttribute_of_methodAttribute {bootstrap : BootstrapTable} {owner : String}
    {m r : Method} {a : Attribute}
    (h : ClassFile.methodAttribute pool bootstrap options owner m a = .ok r) :
    ofAttribute pool m.annotations a = .ok r.annotations := by
  unfold ClassFile.methodAttribute at h
  unfold ofAttribute
  split_ifs with visible invisible
  · rw [a.roleInMethod_visible options visible] at h
    obtain ⟨annotations, decoded, h⟩ := Traverse.bind_eq_ok_iff.1 h
    cases h
    rw [decoded]
    rfl
  · rw [a.roleInMethod_invisible options invisible] at h
    obtain ⟨annotations, decoded, h⟩ := Traverse.bind_eq_ok_iff.1 h
    cases h
    rw [decoded]
    rfl
  · split at h
    · obtain ⟨code, -, h⟩ := Traverse.bind_eq_ok_iff.1 h
      cases h
      rfl
    · next which role => exact absurd role (a.roleInMethod_other options visible invisible which)
    · cases h
      rfl

/-- What a class that was decoded says about annotations. -/
theorem ofAttributes_of_interpret {minor major : UInt16} {s : ClassSkeleton} {c : ClassFile}
    (h : s.interpret options minor major pool = .ok c) :
    s.attributes.foldlM (ofAttribute pool) .empty = .ok c.annotations := by
  obtain ⟨read, fold, h⟩ := Traverse.bind_eq_ok_iff.1 h
  obtain ⟨methods, -, h⟩ := Traverse.bind_eq_ok_iff.1 h
  cases h
  exact Traverse.foldlM_map ClassFile.ClassAttributes.annotations
    (fun _ _ _ => ofAttribute_of_classAttribute) fold

/-- What a method that was decoded says about annotations. -/
theorem ofAttributes_of_decodeMethod {bootstrap : BootstrapTable} {owner : String} {member : Field}
    {m : Method} (h : ClassFile.decodeMethod pool bootstrap options owner member = .ok m) :
    member.attributes.foldlM (ofAttribute pool) .empty = .ok m.annotations :=
  Traverse.foldlM_map Method.annotations (fun _ _ _ => ofAttribute_of_methodAttribute) h

/-! ### Types -/

/-- The annotations in a list that tells of each whether it is visible. -/
def ofListed (listed : List (Bool × Annotation)) : Annotations :=
  ⟨(listed.filter (·.1)).map (·.2), (listed.filter (!·.1)).map (·.2)⟩

theorem add_ofListed (listed : List (Bool × Annotation)) (visible : Bool)
    (annotations : List Annotation) :
    (ofListed listed).add visible annotations
      = ofListed (listed ++ annotations.map fun a => (visible, a)) := by
  cases visible <;> simp [ofListed, add, List.filter_map, Function.comp_def]

/-- The annotations are those listed, each as often as it is. -/
theorem perm_ofListed (listed : List (Bool × Annotation)) :
    (ofListed listed).toList.Perm (listed.map (·.2)) := by
  have parted := (List.filter_append_perm (·.1) listed).map (·.2)
  rw [List.map_append] at parted
  exact parted

theorem has_ofListed (listed : List (Bool × Annotation)) (desc : String) :
    (ofListed listed).has desc = (listed.map (·.2.desc)).contains desc := by
  rw [Bool.eq_iff_iff, has, List.any_eq_true]
  simp only [(perm_ofListed listed).mem_iff, List.contains_iff_mem, List.mem_map, beq_iff_eq]
  constructor
  · rintro ⟨a, ⟨entry, inside, rfl⟩, same⟩
    exact ⟨entry, inside, same⟩
  · rintro ⟨entry, inside, same⟩
    exact ⟨entry.2, ⟨entry, inside, rfl⟩, same⟩

/-- The types that are listed for attributes are those of the annotations that they hold, in
order. -/
theorem listed_of_ofAttributes {attributes : List Attribute} {front : List (Bool × Annotation)}
    {r : Annotations} (h : attributes.foldlM (ofAttribute pool) (ofListed front) = .ok r) :
    ∃ types listed, (attributes.filter Header.holdsAnnotations).mapM
        (fun a => Annotation.types pool a.body) = .ok types
      ∧ types.flatten = listed.map (·.2.desc) ∧ r = ofListed (front ++ listed) := by
  induction attributes generalizing front with
  | nil =>
    cases h
    exact ⟨[], [], rfl, rfl, by rw [List.append_nil]⟩
  | cons a attributes ih =>
    rw [List.foldlM_cons] at h
    obtain ⟨s, step, h⟩ := Traverse.bind_eq_ok_iff.1 h
    have holds : ∀ visible annotations, Annotation.decodeAll pool a.body = .ok annotations →
        (ofListed front).add visible annotations = s → Header.holdsAnnotations a = true →
        ∃ types listed, ((a :: attributes).filter Header.holdsAnnotations).mapM
            (fun a => Annotation.types pool a.body) = .ok types
          ∧ types.flatten = listed.map (·.2.desc) ∧ r = ofListed (front ++ listed) := by
      rintro visible annotations decoded rfl here
      rw [add_ofListed] at h
      obtain ⟨types, listed, all, same, rfl⟩ := ih h
      have first : Annotation.types pool a.body = .ok (annotations.map Annotation.desc) := by
        rw [ Annotation.types, decoded]
        rfl
      refine ⟨annotations.map Annotation.desc :: types,
        annotations.map (fun a => (visible, a)) ++ listed, ?_, ?_, by rw [List.append_assoc]⟩
      · rw [List.filter_cons_of_pos here, Traverse.mapM_eq_ok_iff]
        exact .cons first (Traverse.mapM_eq_ok_iff.1 all)
      · rw [List.flatten_cons, same, List.map_append, List.map_map]
        rfl
    unfold ofAttribute at step
    split_ifs at step with visible invisible
    · obtain ⟨annotations, decoded, added⟩ := Traverse.map_eq_ok_iff.1 step
      exact holds true annotations decoded added (by simp [Header.holdsAnnotations, visible])
    · obtain ⟨annotations, decoded, added⟩ := Traverse.map_eq_ok_iff.1 step
      exact holds false annotations decoded added (by simp [Header.holdsAnnotations, invisible])
    · cases step
      rw [List.filter_cons_of_neg (by simp [Header.holdsAnnotations, visible, invisible])]
      exact ih h

end Annotations

namespace Header

variable {h : Header} {s : ClassSkeleton}

/-- **The header sees the annotations** that are made of the attributes of a class, visible and
invisible ones as they come. -/
theorem annotationTypes_listed {annotations : Annotations}
    (parts : (ClassSkeleton.decoder h.pool).onBytes h.body = .ok s)
    (all : s.attributes.foldlM (Annotations.ofAttribute h.pool) (.ofListed []) = .ok annotations) :
    ∃ listed, h.annotationTypes = .ok (listed.map (·.2.desc))
      ∧ annotations = Annotations.ofListed listed := by
  obtain ⟨types, listed, each, same, rfl⟩ := Annotations.listed_of_ofAttributes all
  refine ⟨listed, ?_, rfl⟩
  unfold annotationTypes
  rw [(ClassSkeleton.follows_decoder h.pool).onBytes parts, ← same]
  exact Traverse.bind_eq_ok_iff.2 ⟨s.attributes, rfl,
    Traverse.bind_eq_ok_iff.2 ⟨types, each, rfl⟩⟩

/-- Which types there are. -/
theorem annotationTypes_eq {annotations : Annotations}
    (parts : (ClassSkeleton.decoder h.pool).onBytes h.body = .ok s)
    (all : s.attributes.foldlM (Annotations.ofAttribute h.pool) .empty = .ok annotations) :
    ∃ types, h.annotationTypes = .ok types ∧ ∀ desc, types.contains desc = annotations.has desc := by
  obtain ⟨listed, scanned, rfl⟩ := annotationTypes_listed parts all
  exact ⟨_, scanned, fun desc => (Annotations.has_ofListed listed desc).symm⟩

/-- The header finds the name of the class where reading the class finds it. -/
theorem className_of_decoder (parts : (ClassSkeleton.decoder h.pool).onBytes h.body = .ok s) :
    h.className = .ok s.name := by
  unfold onBytes at parts
  split at parts
  · next found rest run =>
    cases parts
    obtain ⟨access, c, here, run⟩ := Decoder.bind_eq_ok_iff.1 run
    obtain ⟨name, c', named, run⟩ := Decoder.bind_eq_ok_iff.1 run
    have skipped : skip 2 (Cursor.start h.body) = .ok ((), c) :=
      Follows.word (α := UInt16) _ access c here
    have same : s.name = name := by
      refine Gives.bind (R := fun s => s.name = name) (Gives.any _) (fun superIndex _ => ?_) _ _ _ run
      refine (Gives.any _).bind fun superName _ => (Gives.any _).bind fun interfaces _ => ?_
      refine (Gives.any _).bind fun fields _ => (Gives.any _).bind fun members _ => ?_
      exact (Gives.any _).bind fun attributes _ => Gives.pure rfl
    rw [same]
    unfold className onBytes
    rw [bind_of_ok skipped]
    change ClassFile.decodeClassName h.pool c = _ at named
    unfold ClassFile.decodeClassName at named
    rw [named]
  · cases parts

end Header

/-! ### Methods -/

/-- Whatever is left out while decoding, the methods of a class are decoded with the annotations
that their attributes hold. -/
theorem Annotations.ofMembers_of_interpret {pool : Pool} {s : ClassSkeleton}
    {options : ReadOptions} {minor major : UInt16} {c : ClassFile}
    (h : s.interpret options minor major pool = .ok c) :
    s.members.mapM (fun member => member.attributes.foldlM (ofAttribute pool) .empty)
      = .ok (c.methods.map Method.annotations) := by
  obtain ⟨read, -, h⟩ := Traverse.bind_eq_ok_iff.1 h
  obtain ⟨methods, each, h⟩ := Traverse.bind_eq_ok_iff.1 h
  cases h
  rw [Traverse.mapM_eq_ok_iff, List.forall₂_map_right_iff]
  exact (Traverse.mapM_eq_ok_iff.1 each).imp fun _ _ => ofAttributes_of_decodeMethod

end ClassInstrument
