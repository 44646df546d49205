import ClassInstrument.Proofs.ClassFile.Scan
import ClassInstrument.Proofs.ClassFile.Stability

/-!
# Classes whose annotations survive

A class is clean if its version is supported, its annotations can be read again, and the attributes
that were kept as bytes are not taken for others.  Every class that was decoded is clean, and what a
clean class says about annotations is seen again in the bytes that it is written to, whatever is
computed anew in its bodies.

* `ClassFile.Clean` — what is asked of a class;
* `ClassFile.clean_of_decode` — every class that was decoded;
* `Encoded.annotations` — **the annotations of a clean class are read back**.
-/

namespace ClassInstrument

open Decoder

/-- The constants that a class starts with: none, or those of a class file. -/
def ConstantTables.Original (t : ConstantTables) : Prop :=
  t = ⟨.empty, .empty⟩ ∨ ∃ options bytes c, ClassFile.decode options bytes = .ok c
    ∧ t = c.constants

theorem ConstantTables.Original.wellFormed {t : ConstantTables} (h : t.Original) :
    t.WellFormed := by
  rcases h with rfl | ⟨options, bytes, c, read, rfl⟩
  · exact ⟨Pool.WellFormed.empty, BootstrapTable.WellFormed.empty⟩
  · exact (ClassFile.wellFormed_of_decode read).1

namespace ClassFile

/-- A version that is supported, annotations that can be read again, and kept attributes that are
not taken for others. -/
structure Clean (c : ClassFile) : Prop where
  constants : c.constants.Original
  old : Header.oldestMajor ≤ c.major
  new : c.major ≤ Header.newestMajor
  annotations : ∀ a ∈ c.annotations.toList, a.Readable
  attributes : ∀ a ∈ c.attributes, a.roleInClass .all = .kept
  methodAnnotations : ∀ m ∈ c.methods, ∀ a ∈ m.annotations.toList, a.Readable
  methodAttributes : ∀ m ∈ c.methods, ∀ a ∈ m.attributes, a.roleInMethod .all = .kept

/-! ### Classes that were decoded -/

theorem supported_of_header {bytes : Bytes} {h : Header} (read : Header.decode bytes = .ok h) :
    Header.oldestMajor ≤ h.major ∧ h.major ≤ Header.newestMajor := by
  refine Gives.onBytes (d := Header.decoder) (P := fun h =>
    Header.oldestMajor ≤ h.major ∧ h.major ≤ Header.newestMajor) ?_ read
  refine (Gives.any _).bind fun found _ => Gives.ite (fun _ => .malformed) fun _ => ?_
  refine (Gives.any _).bind fun minor _ => (Gives.any _).bind fun major _ => ?_
  refine Gives.ite (fun _ _ _ _ run => nomatch run) fun supported => ?_
  refine (Gives.any _).bind fun pool _ => ?_
  intro c h c' run
  cases run
  simpa [UInt16.not_lt] using supported

end ClassFile

theorem Annotations.mem_add {s : Annotations} {visible : Bool} {annotations : List Annotation}
    {a : Annotation} : a ∈ (s.add visible annotations).toList ↔ a ∈ s.toList ∨ a ∈ annotations := by
  cases visible <;> simp only [add, toList, List.mem_append, if_true, Bool.false_eq_true, if_false]
  · rw [or_assoc]
  · rw [or_right_comm]

/-- What attributes say about annotations can be read again. -/
theorem Annotations.readable_of_ofAttributes {pool : Pool} {attributes : List Attribute}
    {r : Annotations} (h : attributes.foldlM (ofAttribute pool) .empty = .ok r) :
    ∀ a ∈ r.toList, a.Readable := by
  refine Traverse.foldlM_of_step (P := fun s : Annotations => ∀ a ∈ s.toList, a.Readable)
    (by simp [empty, toList]) ?_ h
  intro s a _ s' before step
  have added : ∀ visible annotations, (∀ a ∈ annotations, a.Readable) →
      ∀ a ∈ (s.add visible annotations).toList, a.Readable := fun visible annotations readable a h =>
    (mem_add.1 h).elim (before a) (readable a)
  unfold ofAttribute at step
  split_ifs at step
  · obtain ⟨annotations, decoded, rfl⟩ := Traverse.map_eq_ok_iff.1 step
    exact added true annotations ( Annotation.readable_of_decodeAll decoded)
  · obtain ⟨annotations, decoded, rfl⟩ := Traverse.map_eq_ok_iff.1 step
    exact added false annotations ( Annotation.readable_of_decodeAll decoded)
  · cases step
    exact before

namespace ClassFile

/-- Decoding a method keeps the attributes that are kept. -/
theorem attributes_of_decodeMethod {pool : Pool} {bootstrap : BootstrapTable}
    {options : ReadOptions} {owner : String} {member : Field} {m : Method}
    (h : decodeMethod pool bootstrap options owner member = .ok m) :
    m.attributes = member.attributes.filter fun a => a.roleInMethod options == .kept := by
  refine Traverse.foldlM_of_step (P := fun m : Method => m.attributes
    = member.attributes.filter fun a => a.roleInMethod options == .kept) rfl ?_ h
  intro m a _ m' before step
  unfold methodAttribute at step
  split at step
  · obtain ⟨code, -, step⟩ := Traverse.bind_eq_ok_iff.1 step
    cases step
    exact before
  · obtain ⟨annotations, -, step⟩ := Traverse.bind_eq_ok_iff.1 step
    cases step
    exact before
  · cases step
    exact before

/-- **Every class that was decoded is clean.** -/
theorem clean_of_decode {bytes : Bytes} {c : ClassFile} (h : decode .all bytes = .ok c) :
    c.Clean := by
  obtain ⟨header, s, decoded, -, made⟩ := ClassSkeleton.exists_of_decode h
  have annotations := Annotations.ofAttributes_of_interpret made
  have members := Annotations.ofMembers_of_interpret made
  obtain ⟨read, -, made⟩ := Traverse.bind_eq_ok_iff.1 made
  obtain ⟨methods, each, made⟩ := Traverse.bind_eq_ok_iff.1 made
  cases made
  obtain ⟨old, new⟩ := supported_of_header decoded
  have own : ∀ m ∈ methods, ∃ member, decodeMethod header.pool read.bootstrap .all s.name member
      = .ok m := fun m inside =>
    have ⟨member, _, decoded⟩ := Traverse.exists_of_mem_right (Traverse.mapM_eq_ok_iff.1 each) inside
    ⟨member, decoded⟩
  refine ⟨.inr ⟨_, _, _, h, rfl⟩, old, new, Annotations.readable_of_ofAttributes annotations,
    fun a member => ?_, fun m inside => ?_, fun m inside a member => ?_⟩
  · exact eq_of_beq (List.mem_filter.1 member).2
  · obtain ⟨member, decoded⟩ := own m inside
    exact Annotations.readable_of_ofAttributes (Annotations.ofAttributes_of_decodeMethod decoded)
  · obtain ⟨part, decoded⟩ := own m inside
    rw [attributes_of_decodeMethod decoded] at member
    exact eq_of_beq (List.mem_filter.1 member).2

end ClassFile

/-! ### Annotations that are written -/

namespace Annotations

variable {t : ConstantTables}

theorem add_nil (s : Annotations) (visible : Bool) : s.add visible [] = s := by
  cases visible <;> simp [add]

/-- The attribute for a list of annotations adds these annotations. -/
theorem foldlM_written {name : String} (visible : Bool)
    (known : name = if visible then visibleName else invisibleName) {annotations : List Annotation}
    {attributes : List Attribute}
    (written : ClassFile.AnnotationsWritten t name annotations attributes)
    (readable : ∀ a ∈ annotations, a.Readable) (s : Annotations) :
    attributes.foldlM (ofAttribute t.pool) s = .ok (s.add visible annotations) := by
  rcases written with ⟨rfl, rfl⟩ | ⟨body, rfl, decoded⟩
  · rw [add_nil]
    rfl
  · have step : ofAttribute t.pool s ⟨name, body⟩ = .ok (s.add visible annotations) := by
      unfold ofAttribute
      rw [known, decoded readable]
      cases visible with
      | true => rfl
      | false => rfl
    rw [List.foldlM_cons, step]
    rfl

/-- Other attributes add nothing. -/
theorem foldlM_others {attributes : List Attribute}
    (others : ∀ a ∈ attributes, a.name ≠ visibleName ∧ a.name ≠ invisibleName) (s : Annotations) :
    attributes.foldlM (ofAttribute t.pool) s = .ok s :=
  Traverse.foldlM_of_unchanged fun a member => by
    rw [ofAttribute, if_neg (others a member).1, if_neg (others a member).2]

/-- Both lists of annotations between other attributes. -/
theorem ofAttributes_written {front visible invisible behind : List Attribute} {a : Annotations}
    (shown : ClassFile.AnnotationsWritten t visibleName a.visible visible)
    (hidden : ClassFile.AnnotationsWritten t invisibleName a.invisible invisible)
    (readable : ∀ x ∈ a.toList, x.Readable)
    (before : ∀ x ∈ front, x.name ≠ visibleName ∧ x.name ≠ invisibleName)
    (after : ∀ x ∈ behind, x.name ≠ visibleName ∧ x.name ≠ invisibleName) :
    (front ++ (visible ++ invisible) ++ behind).foldlM (ofAttribute t.pool) .empty = .ok a := by
  have first := foldlM_written (t := t) true rfl shown
    (fun x hx => readable x (List.mem_append_left _ hx)) .empty
  have second := foldlM_written (t := t) false rfl hidden
    (fun x hx => readable x (List.mem_append_right _ hx)) (add .empty true a.visible)
  rw [List.append_assoc, List.append_assoc, Traverse.foldlM_append_of_ok (foldlM_others before _),
    Traverse.foldlM_append_of_ok first, Traverse.foldlM_append_of_ok second,
    foldlM_others after]
  rfl

end Annotations

namespace ClassFile

theorem names_of_kept_in_class {a : Attribute} (kept : a.roleInClass .all = .kept) :
    a.name ≠ Annotations.visibleName ∧ a.name ≠ Annotations.invisibleName := by
  constructor <;> intro same
  · rw [a.roleInClass_visible .all same] at kept
    cases kept
  · rw [a.roleInClass_invisible .all same] at kept
    cases kept

theorem names_of_kept_in_method {options : ReadOptions} {a : Attribute}
    (kept : a.roleInMethod options = .kept) :
    a.name ≠ Annotations.visibleName ∧ a.name ≠ Annotations.invisibleName := by
  constructor <;> intro same
  · rw [a.roleInMethod_visible options same] at kept
    cases kept
  · rw [a.roleInMethod_invisible options same] at kept
    cases kept

variable {c : ClassFile} {hierarchy : Hierarchy} {options : EncodeOptions}

/-- The annotations of a method are read back from its attributes. -/
theorem MethodWritten.annotations {t : ConstantTables} {m : Method} {part : Field}
    (written : c.MethodWritten hierarchy options t m part)
    (readable : ∀ a ∈ m.annotations.toList, a.Readable) {readOptions : ReadOptions}
    (kept : ∀ a ∈ m.attributes, a.roleInMethod readOptions = .kept) :
    part.attributes.foldlM (Annotations.ofAttribute t.pool) .empty = .ok m.annotations := by
  obtain ⟨code, visible, invisible, all, body, shown, hidden⟩ := written.attributes
  rw [all]
  refine Annotations.ofAttributes_written shown hidden readable (fun a member => ?_)
    fun a member => names_of_kept_in_method (kept a member)
  rcases body with ⟨-, rfl⟩ | ⟨_, _, body, -, -, rfl, -⟩
  · cases member
  · cases List.mem_singleton.1 member
    show Code.attributeName ≠ _ ∧ Code.attributeName ≠ _
    decide

/-- **The annotations of a clean class are read back**, its own and those of its methods. -/
theorem Encoded.annotations {bytes : Bytes} {tables : ConstantTables} {header : Header}
    {s : ClassSkeleton} {bootstrap : List Attribute}
    (h : c.Encoded hierarchy options bytes tables header s bootstrap) (clean : c.Clean) :
    s.attributes.foldlM (Annotations.ofAttribute header.pool) .empty = .ok c.annotations
      ∧ s.members.mapM (fun member => member.attributes.foldlM
          (Annotations.ofAttribute header.pool) .empty) = .ok (c.methods.map Method.annotations) := by
  have wrote := h.wrote tables.bootstrap rfl
  constructor
  · obtain ⟨visible, invisible, all, shown, hidden⟩ := wrote.attributes
    rw [all, List.append_assoc _ c.attributes, ← List.nil_append (visible ++ invisible)]
    refine Annotations.ofAttributes_written (t := ⟨header.pool, tables.bootstrap⟩) shown hidden
      clean.annotations (fun _ h => nomatch h) fun a member => ?_
    rcases List.mem_append.1 member with kept | table
    · exact names_of_kept_in_class (clean.attributes a kept)
    · rcases h.methods with ⟨-, rfl⟩ | ⟨body, -, rfl⟩
      · cases table
      · cases List.mem_singleton.1 table
        show BootstrapTable.attributeName ≠ _ ∧ BootstrapTable.attributeName ≠ _
        decide
  · rw [Traverse.mapM_eq_ok_iff, List.forall₂_map_right_iff]
    have each := (List.forall₂_and_left _ _).2
      ⟨fun m (member : m ∈ c.methods) => member, wrote.members⟩
    exact (each.imp fun m part ⟨inside, written⟩ =>
      written.annotations (clean.methodAnnotations m inside) (clean.methodAttributes m inside)).flip

end ClassFile

end ClassInstrument
