import ClassInstrument.Proofs.ClassFile.RoundTrip
import ClassInstrument.Proofs.Code.Later

/-!
# Bodies that are carried undecoded

A class can be edited without decoding its bodies: they stay bytes, full of indices into the tables
of the class file they come from.  The class is written with tables that only grew, so the bytes say
in the new class file what they said in the old one.

* `Code.ofAttribute` — what attributes say about the body of a method;
* `ClassFile.decodeMethod_eq_ok_iff` — a method is its annotations and its body, one apart from the
  other;
* `ClassFile.Reannotated` — an edit of the annotations of a class and of its methods;
* `ClassFile.bodies_of_undecoded` — **every body is what it was**.
-/

namespace ClassInstrument

open Decoder

/-- Leave the bodies of methods undecoded, and nothing out. -/
def ReadOptions.withoutBodies : ReadOptions := { ReadOptions.all with skipCode := true }

example : ReadOptions.ofBits 1 = .withoutBodies := by decide

/-- Two methods with the same body. -/
structure Method.SameBody (m m' : Method) : Prop where
  access : m'.access = m.access
  name : m'.name = m.name
  desc : m'.desc = m.desc
  code : m'.code = m.code

/-! ### Annotations and body of a method -/

/-- Only a body is decoded as one, by a reader that decodes bodies. -/
theorem Attribute.name_of_code {a : Attribute} {options : ReadOptions}
    (role : a.roleInMethod options = .code) :
    a.name = Code.attributeName ∧ options.skipCode = false := by
  unfold roleInMethod at role
  split_ifs at role with body
  simpa using body

/-- What becomes of an attribute decides what it says about annotations. -/
theorem Annotations.ofAttribute_eq (pool : Pool) (options : ReadOptions) (s : Annotations)
    (a : Attribute) : ofAttribute pool s a = match a.roleInMethod options with
      | .annotations visible => ( Annotation.decodeAll pool a.body).map (s.add visible)
      | _ => .ok s := by
  unfold ofAttribute
  split_ifs with visible invisible
  · rw [a.roleInMethod_visible options visible]
  · rw [a.roleInMethod_invisible options invisible]
  · cases role : a.roleInMethod options with
    | annotations which => exact absurd role (a.roleInMethod_other options visible invisible which)
    | _ => rfl

/-- Take over what an attribute says about a body; all others are passed over. -/
def Code.ofAttribute (t : ConstantTables) (header : MethodHeader) (options : ReadOptions)
    (s : Option Code) (a : Attribute) : Except Failure (Option Code) :=
  match a.roleInMethod options with
  | .code => (Code.decode t.pool t.bootstrap header options a.body).map some
  | _ => .ok s

/-- An attribute that holds no body says nothing about it. -/
theorem Code.ofAttribute_of_ne {t : ConstantTables} {header : MethodHeader} {options : ReadOptions}
    {a : Attribute} (other : a.roleInMethod options ≠ .code) (s : Option Code) :
    ofAttribute t header options s a = .ok s := by
  unfold ofAttribute
  split
  · next role => exact absurd role other
  · rfl

/-- A later body is read the same in later tables. -/
theorem Code.persists_ofAttribute {t t' : ConstantTables} (later : t ≤ t') (header : MethodHeader)
    (options : ReadOptions) (s : Option Code) (a : Attribute) :
    Traverse.Persists (ofAttribute t header options s a) (ofAttribute t' header options s a) := by
  unfold ofAttribute
  split
  · exact (persists_decode later header options a.body).map some
  · exact Traverse.Persists.refl _

namespace ClassFile

variable {t : ConstantTables} {options : ReadOptions} {owner : String}

/-- One attribute says something about annotations, about the body, or nothing. -/
theorem methodAttribute_eq_ok_iff {m m' : Method} {a : Attribute} :
    methodAttribute t.pool t.bootstrap options owner m a = .ok m' ↔ ∃ annotations code,
      Annotations.ofAttribute t.pool m.annotations a = .ok annotations
        ∧ Code.ofAttribute t ⟨owner, m.access, m.name, m.desc⟩ options m.code a = .ok code
        ∧ m' = { m with annotations, code } := by
  rw [Annotations.ofAttribute_eq t.pool options]
  unfold methodAttribute Code.ofAttribute
  cases a.roleInMethod options with
  | code =>
    dsimp only
    rw [Traverse.bind_eq_ok_iff]
    constructor
    · rintro ⟨code, decoded, made⟩
      cases made
      exact ⟨_, _, rfl, Traverse.map_eq_ok_iff.2 ⟨code, decoded, rfl⟩, rfl⟩
    · rintro ⟨_, _, same, decoded, rfl⟩
      cases same
      obtain ⟨code, read, rfl⟩ := Traverse.map_eq_ok_iff.1 decoded
      exact ⟨code, read, rfl⟩
  | annotations visible =>
    dsimp only
    rw [Traverse.bind_eq_ok_iff]
    constructor
    · rintro ⟨annotations, decoded, made⟩
      cases made
      exact ⟨_, _, Traverse.map_eq_ok_iff.2 ⟨annotations, decoded, rfl⟩, rfl, rfl⟩
    · rintro ⟨_, _, decoded, same, rfl⟩
      cases same
      obtain ⟨annotations, read, rfl⟩ := Traverse.map_eq_ok_iff.1 decoded
      exact ⟨annotations, read, rfl⟩
  | _ =>
    constructor
    · intro made
      cases made
      exact ⟨_, _, rfl, rfl, rfl⟩
    · rintro ⟨_, _, same, same', rfl⟩
      cases same
      cases same'
      rfl

/-- All attributes: what they say about annotations and what they say about the body are read one
apart from the other. -/
theorem foldlM_eq_ok_iff {attributes : List Attribute} {m m' : Method} :
    attributes.foldlM (methodAttribute t.pool t.bootstrap options owner) m = .ok m'
      ↔ ∃ annotations code,
        attributes.foldlM (Annotations.ofAttribute t.pool) m.annotations = .ok annotations
        ∧ attributes.foldlM (Code.ofAttribute t ⟨owner, m.access, m.name, m.desc⟩ options) m.code
          = .ok code
        ∧ m' = { m with annotations, code } := by
  induction attributes generalizing m with
  | nil =>
    constructor
    · intro made
      cases made
      exact ⟨_, _, rfl, rfl, rfl⟩
    · rintro ⟨_, _, same, same', rfl⟩
      cases same
      cases same'
      rfl
  | cons a attributes ih =>
    simp only [List.foldlM_cons, Traverse.bind_eq_ok_iff, methodAttribute_eq_ok_iff, ih]
    constructor
    · rintro ⟨_, ⟨first, body, here, own, rfl⟩, annotations, code, behind, rest, rfl⟩
      exact ⟨annotations, code, ⟨first, here, behind⟩, ⟨body, own, rest⟩, rfl⟩
    · rintro ⟨annotations, code, ⟨first, here, behind⟩, ⟨body, own, rest⟩, rfl⟩
      exact ⟨_, ⟨first, body, here, own, rfl⟩, annotations, code, behind, rest, rfl⟩

/-- **A method is its annotations and its body**, and the attributes that are kept. -/
theorem decodeMethod_eq_ok_iff {part : Field} {m : Method} :
    decodeMethod t.pool t.bootstrap options owner part = .ok m ↔ ∃ annotations code,
      part.attributes.foldlM (Annotations.ofAttribute t.pool) .empty = .ok annotations
        ∧ part.attributes.foldlM
          (Code.ofAttribute t ⟨owner, part.access, part.name, part.desc⟩ options) none = .ok code
        ∧ m = ⟨part.access, part.name, part.desc, annotations, code,
          part.attributes.filter fun a => a.roleInMethod options == .kept⟩ :=
  foldlM_eq_ok_iff

/-! ### Methods without their bodies -/

/-- An attribute that a reader without bodies keeps says as much about the body as the others. -/
theorem ofAttribute_of_unkept {header : MethodHeader} {a : Attribute}
    (unkept : (a.roleInMethod .withoutBodies == .kept) = false) (s : Option Code) :
    Code.ofAttribute t header .all s a = .ok s := by
  refine Code.ofAttribute_of_ne (fun role => ?_) s
  rw [Attribute.roleInMethod, (Attribute.name_of_code role).1] at unkept
  cases unkept

/-- The attributes for annotations say nothing about the body. -/
theorem foldlM_ofAttribute_written {header : MethodHeader} {name : String} {visible : Bool}
    (role : ∀ body, (Attribute.mk name body).roleInMethod .all = .annotations visible)
    {annotations : List Annotation} {attributes : List Attribute}
    (written : AnnotationsWritten t name annotations attributes) (s : Option Code) :
    attributes.foldlM (Code.ofAttribute t header .all) s = .ok s := by
  refine Traverse.foldlM_of_unchanged fun a member => ?_
  rcases written with ⟨-, rfl⟩ | ⟨body, rfl, -⟩
  · cases member
  · cases List.mem_singleton.1 member
    rw [Code.ofAttribute, role body]

/-- A reader that leaves bodies undecoded sees none. -/
theorem foldlM_withoutBodies (t : ConstantTables) (header : MethodHeader)
    (attributes : List Attribute) :
    attributes.foldlM (Code.ofAttribute t header .withoutBodies) none = .ok none := by
  refine Traverse.foldlM_of_unchanged fun a _ => Code.ofAttribute_of_ne (fun role => ?_) none
  exact Bool.noConfusion (Attribute.name_of_code role).2

/-- A class as another one, but for its annotations and those of its methods, all of which can be
read again. -/
structure Reannotated (c edited : ClassFile) : Prop where
  same : edited = { c with annotations := edited.annotations, methods := edited.methods }
  methods : List.Forall₂ (fun m m' : Method => m' = { m with annotations := m'.annotations })
    c.methods edited.methods
  readable : ∀ a ∈ edited.annotations.toList, a.Readable
  methodReadable : ∀ m ∈ edited.methods, ∀ a ∈ m.annotations.toList, a.Readable

/-- A method that was read without its body. -/
structure Undecoded (t : ConstantTables) (owner : String) (full skipped : Method) : Prop where
  access : skipped.access = full.access
  name : skipped.name = full.name
  desc : skipped.desc = full.desc
  code : skipped.code = none
  kept : ∀ a ∈ skipped.attributes, a.roleInMethod .withoutBodies = .kept
  body : skipped.attributes.foldlM
    (Code.ofAttribute t ⟨owner, full.access, full.name, full.desc⟩ .all) none = .ok full.code

/-- Where a method is read with its body, it is read without it as well, and then the attributes
that are kept tell what the body was. -/
theorem exists_undecoded {part : Field} {full : Method}
    (read : decodeMethod t.pool t.bootstrap .all owner part = .ok full) :
    ∃ skipped, decodeMethod t.pool t.bootstrap .withoutBodies owner part = .ok skipped
      ∧ Undecoded t owner full skipped := by
  obtain ⟨annotations, code, own, body, rfl⟩ := decodeMethod_eq_ok_iff.1 read
  refine ⟨_, decodeMethod_eq_ok_iff.2 ⟨annotations, none, own, foldlM_withoutBodies _ _ _, rfl⟩,
    rfl, rfl, rfl, rfl, fun a member => eq_of_beq (List.mem_filter.1 member).2, ?_⟩
  dsimp only
  rw [Traverse.foldlM_filter fun a _ unkept => ofAttribute_of_unkept unkept]
  exact body

/-- **A method that was written without being decoded** is read with the body that it had. -/
theorem MethodWritten.reread {c : ClassFile} {hierarchy : Hierarchy} {t' : ConstantTables}
    (later : t ≤ t') {full skipped m : Method} (undecoded : Undecoded t c.name full skipped)
    (edited : m = { skipped with annotations := m.annotations })
    (readable : ∀ a ∈ m.annotations.toList, a.Readable) {part : Field}
    (written : c.MethodWritten hierarchy .none t' m part) :
    ∃ m', decodeMethod t'.pool t'.bootstrap .all c.name part = .ok m' ∧ full.SameBody m' := by
  obtain ⟨attributes, visible, invisible, all, body, shown, hidden⟩ := written.attributes
  have plain : m.code = none := by rw [edited]; exact undecoded.code
  have kept : m.attributes = skipped.attributes := by rw [edited]
  have access : part.access = full.access := by
    rw [written.access, edited]; exact undecoded.access
  have name : part.name = full.name := by rw [written.name, edited]; exact undecoded.name
  have desc : part.desc = full.desc := by rw [written.desc, edited]; exact undecoded.desc
  rcases body with ⟨-, rfl⟩ | ⟨code, -, -, known, -⟩
  · have own := written.annotations readable fun a member => undecoded.kept a (kept ▸ member)
    have front : (visible ++ invisible).foldlM (Code.ofAttribute t'
        ⟨c.name, full.access, full.name, full.desc⟩ .all) none = .ok none := by
      rw [Traverse.foldlM_append_of_ok (foldlM_ofAttribute_written (fun _ => rfl) shown none)]
      exact foldlM_ofAttribute_written (fun _ => rfl) hidden none
    have later := Traverse.Persists.foldlM (Code.persists_ofAttribute later
      ⟨c.name, full.access, full.name, full.desc⟩ .all) skipped.attributes none _ undecoded.body
    refine ⟨_, decodeMethod_eq_ok_iff.2 ⟨m.annotations, full.code, own, ?_, rfl⟩, access, name,
      desc, rfl⟩
    rw [all, List.nil_append, access, name, desc, Traverse.foldlM_append_of_ok front, kept]
    exact later
  · rw [plain] at known
    cases known

/-! ### Whole classes -/

/-- A class that was read without its bodies. -/
structure UndecodedClass (full skipped : ClassFile) : Prop where
  old : Header.oldestMajor ≤ skipped.major
  new : skipped.major ≤ Header.newestMajor
  constants : skipped.constants = full.constants
  name : skipped.name = full.name
  attributes : ∀ a ∈ skipped.attributes, a.roleInClass .all = .kept
  methods : List.Forall₂ (Undecoded full.constants full.name) full.methods skipped.methods

/-- Where a class is read with its bodies, it is read without them as well. -/
theorem exists_undecodedClass {bytes : Bytes} {full : ClassFile}
    (read : decode .all bytes = .ok full) :
    ∃ skipped, decode .withoutBodies bytes = .ok skipped ∧ UndecodedClass full skipped := by
  obtain ⟨header, s, decoded, parts, reading⟩ := ClassSkeleton.exists_parts read
  obtain ⟨own, attributes, made⟩ := Traverse.bind_eq_ok_iff.1 ((reading .all).symm.trans read)
  obtain ⟨methods, each, made⟩ := Traverse.bind_eq_ok_iff.1 made
  cases made
  have both : List.Forall₂ (fun part full => ∃ skipped,
      decodeMethod header.pool own.bootstrap .withoutBodies s.name part = .ok skipped
        ∧ Undecoded ⟨header.pool, own.bootstrap⟩ s.name full skipped) s.members methods :=
    (Traverse.mapM_eq_ok_iff.1 each).imp fun part full read =>
      exists_undecoded (t := ⟨header.pool, own.bootstrap⟩) read
  obtain ⟨skipped, without, undecoded⟩ := Traverse.forall₂_exists both
  obtain ⟨old, new⟩ := supported_of_header decoded
  refine ⟨s.build .withoutBodies header.minor header.major header.pool own skipped, ?_, old, new,
    rfl, rfl, fun a member => eq_of_beq (List.mem_filter.1 member).2, undecoded⟩
  rw [reading .withoutBodies, ClassSkeleton.interpret, classAttribute_options .withoutBodies .all,
    attributes]
  exact Traverse.bind_eq_ok_iff.2 ⟨own, rfl,
    Traverse.bind_eq_ok_iff.2 ⟨skipped, Traverse.mapM_eq_ok_iff.2 without, rfl⟩⟩

/-- The methods of an edited class are read with the bodies that they had. -/
theorem Reannotated.exists_reread {full skipped edited : ClassFile} {hierarchy : Hierarchy}
    {t : ConstantTables} (edit : skipped.Reannotated edited) (undecoded : UndecodedClass full skipped)
    (later : full.constants ≤ t) {parts : List Field}
    (written : List.Forall₂ (edited.MethodWritten hierarchy .none t) edited.methods parts) :
    ∃ methods, parts.mapM (decodeMethod t.pool t.bootstrap .all edited.name) = .ok methods
      ∧ List.Forall₂ Method.SameBody full.methods methods := by
  have name : full.name = edited.name := by rw [edit.same]; exact undecoded.name.symm
  have edits : List.Forall₂ (fun before m => ∃ between,
      Undecoded full.constants edited.name before between
        ∧ m = { between with annotations := m.annotations }) full.methods edited.methods :=
    Traverse.forall₂_trans (fun before between m undecoded edited => ⟨between, undecoded, edited⟩)
      (name ▸ undecoded.methods) edit.methods
  have inside := (List.forall₂_and_left _ _).2
    ⟨fun m (member : m ∈ edited.methods) => member, written⟩
  have each : List.Forall₂ (fun part before => ∃ m',
      decodeMethod t.pool t.bootstrap .all edited.name part = .ok m' ∧ before.SameBody m')
      parts full.methods := by
    refine (Traverse.forall₂_trans ?_ edits inside).flip
    rintro before m part ⟨between, undecoded, edited⟩ ⟨member, written⟩
    exact written.reread later undecoded edited (edit.methodReadable m member)
  obtain ⟨methods, decoded, bodies⟩ := Traverse.forall₂_exists each
  exact ⟨methods, Traverse.mapM_eq_ok_iff.2 decoded, bodies⟩

/-- **Bodies that were not decoded are what they were.**  A class file can be read.  Then it can be
read without its bodies; and whatever is done to the annotations of that class and of its methods,
as long as they can be read again: if the class is written, the bytes can be read, and every method
has the body that it had. -/
theorem bodies_of_undecoded {bytes : Bytes} {full : ClassFile}
    (read : decode .all bytes = .ok full) :
    ∃ skipped, decode .withoutBodies bytes = .ok skipped
      ∧ ∀ edited hierarchy bytes', skipped.Reannotated edited →
        edited.encode hierarchy .none = .ok bytes' →
          ∃ c, decode .all bytes' = .ok c ∧ List.Forall₂ Method.SameBody full.methods c.methods := by
  obtain ⟨skipped, without, undecoded⟩ := exists_undecodedClass read
  refine ⟨skipped, without, fun edited hierarchy bytes' edit written => ?_⟩
  -- the edited class starts with the constants that were read, in a version that is supported
  have constants : edited.constants = full.constants := by rw [edit.same]; exact undecoded.constants
  have wf : edited.constants.WellFormed := constants ▸ (wellFormed_of_decode read).1
  obtain ⟨tables, header, s, bootstrap, encoded⟩ := encoded_of_encode wf
    (by rw [edit.same]; exact undecoded.old) (by rw [edit.same]; exact undecoded.new) written
  obtain ⟨own, same, wrote, reading⟩ := encoded.exists_read edit.readable
    (by rw [edit.same]; exact undecoded.attributes)
  -- it is read with tables that have everything that these had
  have later : full.constants ≤ ⟨header.pool, own.bootstrap⟩ := by
    rw [← constants]
    exact encoded.grown.trans ⟨encoded.slots ▸ List.prefix_refl _, same ▸ List.prefix_refl _⟩
  obtain ⟨methods, decoded, bodies⟩ := edit.exists_reread undecoded later wrote.members
  exact ⟨_, reading.trans (by rw [decoded]; rfl), bodies⟩

/-! ### A class with a body -/

/-- The header of a class file with a method that returns, and with the constants for an annotation
that it does not have. -/
def returningHeader : Header where
  minor := 0
  major := 52
  pool := .ofEntries [.utf8 "A", .classRef 1, .utf8 "m", .utf8 "()V", .utf8 "Code",
    .utf8 "RuntimeVisibleAnnotations", .utf8 "LX;"]
  body := [0, 0x21, 0, 2, 0, 0, 0, 0, 0, 0, 0, 1, 0, 9, 0, 3, 0, 4, 0, 1, 0, 5, 0, 0, 0, 13]
    ++ aloneBytes Opcode.vreturn ++ [0, 0]

/-- The class in it, with its body left undecoded and some annotations. -/
def returningClass (annotations : Annotations) (pool : Pool) : ClassFile where
  minor := 0
  major := 52
  access := 0x21
  name := "A"
  superName := none
  interfaces := []
  fields := []
  methods := [⟨0x0009, "m", "()V", annotations, none,
    [⟨Code.attributeName, aloneBytes Opcode.vreturn⟩]⟩]
  annotations := .empty
  attributes := []
  constants := ⟨pool, .empty⟩

/-- The body is read as it was written. -/
theorem exists_decode_alone {t : ConstantTables} (wf : t.WellFormed) (header : MethodHeader)
    (typed : ∃ entry, header.entryFrame = .ok entry) :
    ∃ code, Code.decode t.pool t.bootstrap header .all (aloneBytes Opcode.vreturn) = .ok code := by
  obtain ⟨-, -, later⟩ := Code.yields_encode 52 (alone Opcode.vreturn) t _ t wf
    (encode_alone Opcode.vreturn (fun _ => rfl) t)
  obtain ⟨items, layout, emitted, behind, written⟩ := later t (le_refl t)
  obtain ⟨code, read, -⟩ := Code.decode_written written (regular_return header typed).readable
    (by
      rintro ⟨op, operand, member, table⟩
      cases List.mem_singleton.1 member
      cases table)
  exact ⟨code, read⟩

/-- The small class file is read, with its body and without. -/
theorem decode_returning : ∃ bytes pool full, pool.slots = returningHeader.pool.slots
    ∧ decode .all bytes = .ok full ∧ (∃ m ∈ full.methods, m.code.isSome)
    ∧ decode .withoutBodies bytes = .ok (returningClass .empty pool) := by
  obtain ⟨bytes, encoded⟩ : ∃ bytes, returningHeader.encode = .ok bytes := ⟨_, rfl⟩
  have wf : returningHeader.pool.WellFormed :=
    Pool.WellFormed.empty.foldl_push (by decide) (by decide)
  obtain ⟨pool, wfPool, slots, decoded⟩ := Header.decode_encode wf (by decide) (by decide) encoded
  have without : decode .withoutBodies bytes = .ok (returningClass .empty pool) :=
    decode_of_header decoded slots fun _ => rfl
  have skeleton : (ClassSkeleton.decoder pool).onBytes returningHeader.body
      = .ok ⟨0x21, "A", none, [], [],
        [⟨0x0009, "m", "()V", [⟨Code.attributeName, aloneBytes Opcode.vreturn⟩]⟩], []⟩ := by
    obtain ⟨entries, lookup⟩ := pool
    dsimp only at slots
    subst slots
    rfl
  obtain ⟨code, read⟩ := exists_decode_alone (t := ⟨pool, .empty⟩)
    ⟨wfPool, BootstrapTable.WellFormed.empty⟩ ⟨"A", 0x0009, "m", "()V"⟩ ⟨_, rfl⟩
  have body : [Attribute.mk Code.attributeName (aloneBytes Opcode.vreturn)].foldlM
      (Code.ofAttribute ⟨pool, .empty⟩ ⟨"A", 0x0009, "m", "()V"⟩ .all) none = .ok (some code) := by
    show (Code.decode pool .empty ⟨"A", 0x0009, "m", "()V"⟩ .all
      (aloneBytes Opcode.vreturn)).map some >>= _ = _
    rw [read]
    rfl
  have method : decodeMethod pool .empty .all "A"
      ⟨0x0009, "m", "()V", [⟨Code.attributeName, aloneBytes Opcode.vreturn⟩]⟩
        = .ok ⟨0x0009, "m", "()V", .empty, some code, []⟩ :=
    (decodeMethod_eq_ok_iff (t := ⟨pool, .empty⟩)).2 ⟨.empty, some code, rfl, body, rfl⟩
  have all : decode .all bytes = .ok { returningClass .empty pool with
      methods := [⟨0x0009, "m", "()V", .empty, some code, []⟩] } :=
    ClassSkeleton.decode_of_parts without decoded skeleton ⟨.empty, .empty⟩ rfl
      (Traverse.mapM_eq_ok_iff.2 (.cons method .nil))
  exact ⟨bytes, pool, _, slots, all, ⟨_, List.mem_singleton_self _, rfl⟩, without⟩

section Returning

variable {pool : Pool} (slots : pool.slots = returningHeader.pool.slots)
  (wf : ConstantTables.WellFormed ⟨pool, .empty⟩)

include slots wf in
/-- The texts of the small class are there already. -/
theorem addUtf8_returning {text : String} {i : Nat}
    (known : returningHeader.pool.slots.toList.idxOf? (.utf8 text) = some i) :
    Builder.addUtf8 text ⟨pool, .empty⟩ = .ok (UInt16.ofNat i) ⟨pool, .empty⟩ :=
  Builder.add_of_known wf (by simp) (by rw [← known, ← slots])

include slots wf in
theorem annotationAttributes_returning :
    annotationAttributes ⟨[.marker "LX;"], []⟩ ⟨pool, .empty⟩
      = .ok [⟨Annotations.visibleName, [0, 1, 0, 7, 0, 0]⟩] ⟨pool, .empty⟩ := by
  have text : Builder.addUtf8 "LX;" ⟨pool, .empty⟩ = .ok 7 ⟨pool, .empty⟩ :=
    addUtf8_returning slots wf (by decide)
  have listed : Annotation.encodeAll [.marker "LX;"] ⟨pool, .empty⟩
      = .ok [0, 1, 0, 7, 0, 0] ⟨pool, .empty⟩ := by
    refine (Builder.bind_of_ok (m := Builder.count "annotations" 1) rfl).trans ?_
    refine (Builder.bind_of_ok (Builder.concat_of_unchanged (fun _ => [0, 7, 0, 0]) ?_)).trans rfl
    simp only [List.forall_mem_cons]
    exact ⟨(Builder.bind_of_ok text).trans rfl, List.forall_mem_nil _⟩
  rw [annotationAttributes_eq]
  exact (Builder.bind_of_ok (m := annotationList _ _)
    ((Builder.bind_of_ok listed).trans rfl)).trans rfl

include slots wf in
/-- The method is written with an annotation, and with its body as it was. -/
theorem encodeMethod_returning : ∃ bytes,
    encodeMethod (returningClass ⟨[.marker "LX;"], []⟩ pool) .flat .none
      ⟨0x0009, "m", "()V", ⟨[.marker "LX;"], []⟩, none,
        [⟨Code.attributeName, aloneBytes Opcode.vreturn⟩]⟩ ⟨pool, .empty⟩
      = .ok bytes ⟨pool, .empty⟩ := by
  have head : encodeHead 0x0009 "m" "()V" ⟨pool, .empty⟩ = .ok [0, 9, 0, 3, 0, 4] ⟨pool, .empty⟩ :=
    (Builder.bind_of_ok (addUtf8_returning slots wf (i := 3) (by decide))).trans
      ((Builder.bind_of_ok (addUtf8_returning slots wf (i := 4) (by decide))).trans rfl)
  have attributes := Attribute.encodeAll_of_known (t := ⟨pool, .empty⟩)
    (fun name => if name = Code.attributeName then 5 else 6)
    (show [Attribute.mk Annotations.visibleName [0, 1, 0, 7, 0, 0],
      ⟨Code.attributeName, aloneBytes Opcode.vreturn⟩].length < 65536 by simp)
    (by
      simp only [List.forall_mem_cons]
      exact ⟨addUtf8_returning slots wf (by decide), addUtf8_returning slots wf (by decide),
        List.forall_mem_nil _⟩)
    (by decide)
  rw [encodeMethod_eq]
  apply Exists.intro
  refine (Builder.bind_of_ok head).trans ?_
  refine (Builder.bind_of_ok (m := pure []) rfl).trans ?_
  refine (Builder.bind_of_ok (annotationAttributes_returning slots wf)).trans ?_
  exact (Builder.bind_of_ok (m := Attribute.encodeAll _) attributes).trans rfl

include slots wf in
theorem encode_returning :
    ∃ bytes, (returningClass ⟨[.marker "LX;"], []⟩ pool).encode .flat .none = .ok bytes := by
  have owner : Builder.addClass "A" ⟨pool, .empty⟩ = .ok 2 ⟨pool, .empty⟩ := by
    refine (Builder.bind_of_ok (addUtf8_returning slots wf (i := 1) (by decide))).trans ?_
    refine Builder.add_of_known wf (by simp) (i := 2) ?_
    rw [slots]
    decide
  obtain ⟨method, written⟩ := encodeMethod_returning slots wf
  obtain ⟨body, written⟩ : ∃ body, (returningClass ⟨[.marker "LX;"], []⟩ pool).encodeBody .flat .none
      ⟨pool, .empty⟩ = .ok body ⟨pool, .empty⟩ := by
    apply Exists.intro
    refine (Builder.bind_of_ok owner).trans ?_
    refine (Builder.bind_of_ok (m := pure 0) rfl).trans ?_
    refine (Builder.bind_of_ok (m := Builder.count "interfaces" 0) rfl).trans ?_
    refine (Builder.bind_of_ok (m := pure []) rfl).trans ?_
    refine (Builder.bind_of_ok (m := Builder.count "fields" 0) rfl).trans ?_
    refine (Builder.bind_of_ok (m := pure []) rfl).trans ?_
    refine (Builder.bind_of_ok (m := Builder.count "methods" 1) rfl).trans ?_
    refine (Builder.bind_of_ok (Builder.concat_of_unchanged (fun _ => method) ?_)).trans ?_
    · simp only [returningClass, List.forall_mem_cons]
      exact ⟨written, List.forall_mem_nil _⟩
    refine (Builder.bind_of_ok (m := annotationAttributes .empty) rfl).trans ?_
    refine (Builder.bind_of_ok (m := bootstrapAttribute) rfl).trans ?_
    refine (Builder.bind_of_ok (m := Attribute.encodeAll []) rfl).trans ?_
    rfl
  unfold encode
  rw [show (returningClass ⟨[.marker "LX;"], []⟩ pool).constants = ⟨pool, .empty⟩ from rfl, written]
  obtain ⟨entries, lookup⟩ := pool
  dsimp only at slots
  subst slots
  exact ⟨_, rfl⟩

end Returning

/-- The method of the small class keeps its body, though it gets an annotation. -/
theorem bodies_of_returning : ∃ bytes full pool bytes' c, decode .all bytes = .ok full
    ∧ (∃ m ∈ full.methods, m.code.isSome)
    ∧ decode .withoutBodies bytes = .ok (returningClass .empty pool)
    ∧ (returningClass ⟨[.marker "LX;"], []⟩ pool).encode .flat .none = .ok bytes'
    ∧ decode .all bytes' = .ok c ∧ List.Forall₂ Method.SameBody full.methods c.methods := by
  obtain ⟨bytes, pool, full, slots, read, some, without⟩ := decode_returning
  have wf : ConstantTables.WellFormed ⟨pool, .empty⟩ := (wellFormed_of_decode without).1
  obtain ⟨bytes', written⟩ := encode_returning slots wf
  obtain ⟨skipped, same, each⟩ := bodies_of_undecoded read
  cases without.symm.trans same
  have edit : (returningClass .empty pool).Reannotated
      (returningClass ⟨[.marker "LX;"], []⟩ pool) := by
    refine ⟨rfl, .cons rfl .nil, fun a h => (nomatch h), fun m member a inside => ?_⟩
    cases List.mem_singleton.1 member
    cases List.mem_singleton.1 inside
    exact ⟨trivial, by decide⟩
  obtain ⟨c, again, bodies⟩ := each _ .flat bytes' edit written
  exact ⟨bytes, full, pool, bytes', c, read, some, without, written, again, bodies⟩
end ClassFile

end ClassInstrument
