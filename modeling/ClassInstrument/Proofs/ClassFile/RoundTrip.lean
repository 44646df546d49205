import ClassInstrument.Proofs.ClassFile.Clean
import ClassInstrument.Proofs.Code.RoundTrip

/-!
# Method bodies survive

A class is written and the bytes are read again.  Its methods come back in their order, each with
a body that says what the body says that was written.  There is one exception: a switch over a
range with no keys is written, but a class file with one is refused when it is read.

* `ClassFile.Regular` — what is asked of a class that is written;
* `ClassFile.HasEmptyTable` — the exception;
* `Method.Survives` — a method that comes back;
* `ClassFile.bodies_survive` — **what is written can be read if and only if there is no such
  switch**, and whatever is read has all methods with their bodies.
-/

namespace ClassInstrument

open Decoder

/-- A method that comes back: it has a body if and only if it had one, and that body says what
the old one says in a class file of a given version. -/
structure Method.Survives (major : UInt16) (m m' : Method) : Prop where
  access : m'.access = m.access
  name : m'.name = m.name
  desc : m'.desc = m.desc
  body : m.code = none ∧ m'.code = none ∨ ∃ code code', m.code = some code
    ∧ m'.code = some code' ∧ code'.WellPlaced ∧ code'.view = code.view.written major

namespace ClassFile

/-- What is asked of a class that is written: a version that is supported, annotations that can be
read again, kept attributes that are not taken for others, and regular bodies. -/
structure Regular (c : ClassFile) : Prop where
  constants : c.constants.Original
  old : Header.oldestMajor ≤ c.major
  new : c.major ≤ Header.newestMajor
  annotations : ∀ a ∈ c.annotations.toList, a.Readable
  attributes : ∀ a ∈ c.attributes, a.roleInClass .all = .kept
  methodAnnotations : ∀ m ∈ c.methods, ∀ a ∈ m.annotations.toList, a.Readable
  methodAttributes : ∀ m ∈ c.methods, ∀ a ∈ m.attributes, a.roleInMethod .all = .kept
  bodies : ∀ m ∈ c.methods, ∀ code, m.code = some code → code.Regular (c.header m)

theorem Regular.clean {c : ClassFile} (regular : c.Regular) : c.Clean where
  constants := regular.constants
  old := regular.old
  new := regular.new
  annotations := regular.annotations
  attributes := regular.attributes
  methodAnnotations := regular.methodAnnotations
  methodAttributes := regular.methodAttributes

/-- Some body has a switch over a range with no keys. -/
def HasEmptyTable (c : ClassFile) : Prop :=
  ∃ m ∈ c.methods, ∃ code, m.code = some code ∧ code.HasEmptyTable

/-! ### Attributes of a method -/

section Method

variable {t : ConstantTables} {owner : String}

/-- Attributes that are kept say nothing about a method. -/
theorem methodAttribute_of_kept {a : Attribute} (kept : a.roleInMethod .all = .kept) (m : Method) :
    methodAttribute t.pool t.bootstrap .all owner m a = .ok m := by
  unfold methodAttribute
  rw [kept]

/-- The attributes for annotations change nothing but annotations. -/
theorem foldlM_annotations (owner : String) {name : String} (visible : Bool)
    (role : ∀ body, (Attribute.mk name body).roleInMethod .all = .annotations visible)
    {annotations : List Annotation} {attributes : List Attribute}
    (written : AnnotationsWritten t name annotations attributes)
    (readable : ∀ a ∈ annotations, a.Readable) (m : Method) :
    ∃ others, attributes.foldlM (methodAttribute t.pool t.bootstrap .all owner) m
      = .ok { m with annotations := others } := by
  rcases written with ⟨-, rfl⟩ | ⟨body, rfl, read⟩
  · exact ⟨m.annotations, rfl⟩
  · refine ⟨m.annotations.add visible annotations, ?_⟩
    have step : methodAttribute t.pool t.bootstrap .all owner m ⟨name, body⟩
        = .ok { m with annotations := m.annotations.add visible annotations } := by
      unfold methodAttribute
      rw [role body]
      simp only [read readable]
      rfl
    rw [List.foldlM_cons, step]
    rfl

end Method

section Class

variable {c : ClassFile} {hierarchy : Hierarchy} {t : ConstantTables} (clean : c.Clean)
  (regular : c.Regular)

include clean in
/-- What stands behind the body says nothing about the body. -/
theorem foldlM_behind {m : Method} (member : m ∈ c.methods) {visible invisible : List Attribute}
    (shown : AnnotationsWritten t Annotations.visibleName m.annotations.visible visible)
    (hidden : AnnotationsWritten t Annotations.invisibleName m.annotations.invisible invisible)
    (owner : String) (m' : Method) :
    ∃ annotations, ((visible ++ invisible) ++ m.attributes).foldlM
      (methodAttribute t.pool t.bootstrap .all owner) m' = .ok { m' with annotations } := by
  have readable := clean.methodAnnotations m member
  obtain ⟨first, hfirst⟩ := foldlM_annotations owner true (fun _ => rfl) shown
    (fun a ha => readable a (List.mem_append_left _ ha)) m'
  obtain ⟨second, hsecond⟩ := foldlM_annotations owner false (fun _ => rfl) hidden
    (fun a ha => readable a (List.mem_append_right _ ha))
    { m' with annotations := first }
  refine ⟨second, ?_⟩
  rw [List.append_assoc, Traverse.foldlM_append_of_ok hfirst, Traverse.foldlM_append_of_ok hsecond]
  exact Traverse.foldlM_of_unchanged fun a ha =>
    methodAttribute_of_kept (clean.methodAttributes m member a ha) _

/-- A method before its attributes are looked at. -/
def bare (part : Field) : Method where
  access := part.access
  name := part.name
  desc := part.desc
  annotations := .empty
  code := none
  attributes := part.attributes.filter fun a => a.roleInMethod .all == .kept

/-- What the attribute for the body says decides what becomes of a method. -/
theorem foldlM_code (t : ConstantTables) (owner : String) (body : Bytes) {header : MethodHeader}
    {part : Field}
    (same : header = ⟨owner, part.access, part.name, part.desc⟩) :
    [Attribute.mk Code.attributeName body].foldlM (methodAttribute t.pool t.bootstrap .all owner)
        (bare part)
      = (Code.decode t.pool t.bootstrap header .all body).map
        fun code => { bare part with code := some code } := by
  subst same
  rw [List.foldlM_cons]
  show (Code.decode t.pool t.bootstrap ⟨owner, part.access, part.name, part.desc⟩ .all body
    >>= _) >>= _ = _
  cases Code.decode t.pool t.bootstrap ⟨owner, part.access, part.name, part.desc⟩ .all body <;> rfl

include clean in
/-- **A method comes back**, unless its body has a switch over a range with no keys. -/
theorem decodeMethod_written {m : Method} (member : m ∈ c.methods) {part : Field}
    (written : c.MethodWritten hierarchy .none t m part)
    (readable : ∀ code, m.code = some code → code.Readable (c.header m))
    (keys : ∀ code, m.code = some code → ¬code.HasEmptyTable) :
    ∃ m', decodeMethod t.pool t.bootstrap .all c.name part = .ok m'
      ∧ m.Survives c.major m' := by
  obtain ⟨attributes, visible, invisible, all, body, shown, hidden⟩ := written.attributes
  rw [List.append_assoc] at all
  have fold : decodeMethod t.pool t.bootstrap .all c.name part
      = part.attributes.foldlM (methodAttribute t.pool t.bootstrap .all c.name) (bare part) := rfl
  rcases body with ⟨plain, rfl⟩ | ⟨code, prepared, bytes, known, same, rfl, items, layout, emitted,
    behind, whole⟩
  · obtain ⟨others, rest⟩ := foldlM_behind clean member shown hidden c.name (bare part)
    rw [fold, all]
    exact ⟨_, rest, written.access, written.name, written.desc, .inl ⟨plain, rfl⟩⟩
  · cases same
    obtain ⟨code', decoded, placed, view⟩ := Code.decode_written whole
      (readable _ known) (keys _ known)
    obtain ⟨others, rest⟩ := foldlM_behind clean member shown hidden c.name
      { bare part with code := some code' }
    have header : c.header m = ⟨c.name, part.access, part.name, part.desc⟩ := by
      rw [written.access, written.name, written.desc]
      rfl
    have front := foldlM_code t c.name bytes header
    rw [decoded] at front
    refine ⟨{ bare part with code := some code', annotations := others }, ?_, written.access,
      written.name, written.desc, .inr ⟨code, code', known, rfl, placed, view⟩⟩
    rw [fold, all, Traverse.foldlM_append_of_ok front]
    exact rest

include regular in
/-- A method whose body has such a switch is refused. -/
theorem decodeMethod_refused {m : Method} (member : m ∈ c.methods) {part : Field}
    (written : c.MethodWritten hierarchy .none t m part) {code : Code} (known : m.code = some code)
    (table : code.HasEmptyTable) :
    ∃ e, decodeMethod t.pool t.bootstrap .all c.name part = .error e := by
  obtain ⟨attributes, visible, invisible, all, body, -, -⟩ := written.attributes
  rw [List.append_assoc] at all
  have fold : decodeMethod t.pool t.bootstrap .all c.name part
      = part.attributes.foldlM (methodAttribute t.pool t.bootstrap .all c.name) (bare part) := rfl
  rcases body with ⟨plain, -⟩ | ⟨code', prepared, bytes, known', same, rfl, items, layout, emitted,
    behind, whole⟩
  · rw [known] at plain
    cases plain
  · cases same
    rw [known] at known'
    cases known'
    obtain ⟨e, refused⟩ := Code.refuses_written whole (regular.bodies m member _ known).readable table
    have header : c.header m = ⟨c.name, part.access, part.name, part.desc⟩ := by
      rw [written.access, written.name, written.desc]
      rfl
    have front := foldlM_code t c.name bytes header
    rw [refused] at front
    refine ⟨e, ?_⟩
    rw [fold, all, List.foldlM_append, front]
    rfl

/-! ### Attributes of the class -/

/-- The attributes for annotations leave the bootstrap methods alone. -/
theorem foldlM_classAnnotations {name : String} (visible : Bool)
    (role : ∀ body, (Attribute.mk name body).roleInClass .all = .annotations visible)
    {annotations : List Annotation} {attributes : List Attribute}
    (written : AnnotationsWritten t name annotations attributes)
    (readable : ∀ a ∈ annotations, a.Readable) (read : ClassAttributes) :
    ∃ others, attributes.foldlM (classAttribute t.pool .all) read
      = .ok { read with annotations := others } := by
  rcases written with ⟨-, rfl⟩ | ⟨body, rfl, decoded⟩
  · exact ⟨read.annotations, rfl⟩
  · refine ⟨read.annotations.add visible annotations, ?_⟩
    have step : classAttribute t.pool .all read ⟨name, body⟩
        = .ok { read with annotations := read.annotations.add visible annotations } := by
      unfold classAttribute
      rw [role body]
      simp only [decoded readable]
      rfl
    rw [List.foldlM_cons, step]
    rfl

section Attributes

variable (annotations : ∀ a ∈ c.annotations.toList, a.Readable)
  (attributes : ∀ a ∈ c.attributes, a.roleInClass .all = .kept)

include annotations attributes in
/-- **The attributes of the class are read**, and the bootstrap methods are those of the tables
that were written. -/
theorem foldlM_attributes {s : ClassSkeleton} {written : BootstrapTable}
    (wf : written.WellFormed) {bootstrap : List Attribute}
    (encoded : BootstrapWritten written bootstrap) (wrote : c.Wrote hierarchy .none t s bootstrap) :
    ∃ read, s.attributes.foldlM (classAttribute t.pool .all) ⟨.empty, .empty⟩ = .ok read
      ∧ read.bootstrap.methods = written.methods := by
  obtain ⟨visible, invisible, all, shown, hidden⟩ := wrote.attributes
  obtain ⟨first, hfirst⟩ := foldlM_classAnnotations true (fun _ => rfl) shown
    (fun a ha => annotations a (List.mem_append_left _ ha)) ⟨.empty, .empty⟩
  obtain ⟨second, hsecond⟩ := foldlM_classAnnotations false (fun _ => rfl) hidden
    (fun a ha => annotations a (List.mem_append_right _ ha)) ⟨.empty, first⟩
  have kept : c.attributes.foldlM (classAttribute t.pool .all) ⟨.empty, second⟩
      = .ok ⟨.empty, second⟩ := by
    refine Traverse.foldlM_of_unchanged fun a ha => ?_
    unfold classAttribute
    rw [attributes a ha]
  rw [all, List.append_assoc, List.append_assoc, Traverse.foldlM_append_of_ok hfirst,
    Traverse.foldlM_append_of_ok hsecond, Traverse.foldlM_append_of_ok kept]
  rcases encoded with ⟨none, rfl⟩ | ⟨body, encoded, rfl⟩
  · refine ⟨⟨.empty, second⟩, rfl, ?_⟩
    rw [Array.isEmpty_iff.1 none]
    rfl
  · obtain ⟨table, -, methods, reads⟩ := BootstrapTable.reads_encode wf encoded
    refine ⟨⟨table, second⟩, ?_, methods⟩
    show (BootstrapTable.decode.onBytes body >>= _) >>= _ = _
    rw [reads.onBytes]
    rfl

/-! ### The whole class -/

include annotations attributes in
/-- The attributes of the class are read, and what else is read are its methods, each from its own
part. -/
theorem Encoded.exists_read {bytes : Bytes} {tables : ConstantTables} {header : Header}
    {s : ClassSkeleton} {bootstrap : List Attribute}
    (encoded : c.Encoded hierarchy .none bytes tables header s bootstrap) :
    ∃ read, read.bootstrap.methods = tables.bootstrap.methods
      ∧ c.Wrote hierarchy .none ⟨header.pool, read.bootstrap⟩ s bootstrap
      ∧ decode .all bytes
        = (s.members.mapM (decodeMethod header.pool read.bootstrap .all c.name)).map
          (s.build .all c.minor c.major header.pool read) := by
  obtain ⟨read, own, methods⟩ := foldlM_attributes annotations attributes
    encoded.wellFormed.bootstrap encoded.methods (encoded.wrote tables.bootstrap rfl)
  have wrote := encoded.wrote read.bootstrap methods
  refine ⟨read, methods, wrote, ?_⟩
  rw [encoded.reading]
  unfold ClassSkeleton.interpret
  rw [own, wrote.name]
  show (s.members.mapM (decodeMethod header.pool read.bootstrap .all c.name) >>= fun methods =>
    Except.ok (s.build .all c.minor c.major header.pool read methods)) = _
  cases s.members.mapM (decodeMethod header.pool read.bootstrap .all c.name) <;> rfl

end Attributes

include clean in
/-- What is read from the bytes of a class: the methods, each from its own part. -/
theorem decode_of_encode {bytes : Bytes} (h : c.encode hierarchy .none = .ok bytes) :
    ∃ (t : ConstantTables) (parts : List Field),
      List.Forall₂ (c.MethodWritten hierarchy .none t) c.methods parts
      ∧ ((∃ d, decode .all bytes = .ok d)
        ↔ ∃ methods, parts.mapM (decodeMethod t.pool t.bootstrap .all c.name) = .ok methods)
      ∧ ∀ d, decode .all bytes = .ok d →
        parts.mapM (decodeMethod t.pool t.bootstrap .all c.name) = .ok d.methods := by
  obtain ⟨tables, header, s, bootstrap, encoded⟩ :=
    encoded_of_encode clean.constants.wellFormed clean.old clean.new h
  obtain ⟨read, -, wrote, reading⟩ := encoded.exists_read clean.annotations clean.attributes
  refine ⟨⟨header.pool, read.bootstrap⟩, s.members, wrote.members, ?_, ?_⟩
  · rw [reading]
    cases s.members.mapM (decodeMethod header.pool read.bootstrap .all c.name) with
    | error e => exact ⟨fun ⟨_, h⟩ => (nomatch h), fun ⟨_, h⟩ => (nomatch h)⟩
    | ok methods => exact ⟨fun _ => ⟨_, rfl⟩, fun _ => ⟨_, rfl⟩⟩
  · intro d hd
    rw [reading] at hd
    obtain ⟨methods, hmethods, rfl⟩ := Traverse.map_eq_ok_iff.1 hd
    exact hmethods

include clean in
/-- Bodies without such a switch come back. -/
theorem exists_survivors {bytes : Bytes} (h : c.encode hierarchy .none = .ok bytes)
    (readable : ∀ m ∈ c.methods, ∀ code, m.code = some code → code.Readable (c.header m))
    (keys : ¬c.HasEmptyTable) : ∃ d, decode .all bytes = .ok d
      ∧ List.Forall₂ (Method.Survives c.major) c.methods d.methods := by
  obtain ⟨t, parts, written, read, parsed⟩ := decode_of_encode clean h
  have each := (List.forall₂_and_left _ _).2
    ⟨fun m (member : m ∈ c.methods) => member, written⟩
  obtain ⟨methods, same, decoded⟩ := Traverse.forall₂_exists
    (each.imp fun m part ⟨member, own⟩ => by
      obtain ⟨m', decoded, same⟩ := decodeMethod_written clean member own (readable m member)
        fun code known table => keys ⟨m, member, code, known, table⟩
      exact ⟨m', same, decoded⟩)
  obtain ⟨d, reading⟩ := read.2 ⟨methods, Traverse.mapM_eq_ok_iff.2 decoded⟩
  refine ⟨d, reading, ?_⟩
  have all := parsed d reading
  rw [Traverse.mapM_eq_ok_iff.2 decoded] at all
  cases all
  exact same

include regular in
/-- **Method bodies survive.**  The bytes of a class are read again if and only if no body has a
switch over a range with no keys, and then all methods come back with what their bodies say. -/
theorem bodies_survive {bytes : Bytes} (h : c.encode hierarchy .none = .ok bytes) :
    ((∃ d, decode .all bytes = .ok d) ↔ ¬c.HasEmptyTable)
      ∧ ∀ d, decode .all bytes = .ok d →
        List.Forall₂ (Method.Survives c.major) c.methods d.methods := by
  obtain ⟨t, parts, written, readable, -⟩ := decode_of_encode regular.clean h
  have refused : c.HasEmptyTable → ¬∃ d, decode .all bytes = .ok d := by
    rintro ⟨m, member, code, known, table⟩ read
    obtain ⟨methods, all⟩ := readable.1 read
    obtain ⟨part, inside, own⟩ := Traverse.exists_of_mem_right written.flip member
    obtain ⟨m', -, decoded⟩ :=
      Traverse.exists_of_mem_right (Traverse.mapM_eq_ok_iff.1 all).flip inside
    obtain ⟨e, error⟩ := decodeMethod_refused regular member own known table
    rw [error] at decoded
    cases decoded
  have survives := exists_survivors regular.clean h fun m member code known =>
    (regular.bodies m member code known).readable
  refine ⟨⟨fun read table => refused table read, fun keys => ?_⟩, fun d read => ?_⟩
  · obtain ⟨d, read, -⟩ := survives keys
    exact ⟨d, read⟩
  · obtain ⟨d', read', same⟩ := survives fun table => refused table ⟨d, read⟩
    cases read.symm.trans read'
    exact same

end Class

/-! ### Bodies with one instruction -/

-- Powers of numbers are those of the core library, whatever algebra is imported beside them.
attribute [local instance (high)] instPowNat

/-- A body with one instruction that has no operand, and takes its own byte. -/
def alone (op : Opcode) : Code where
  maxStack := 0
  maxLocals := 0
  instructions := .ofList [.op op .none] 0
  handlers := []
  localVariables := []

/-- The bytes of such a body. -/
def aloneBytes (op : Opcode) : Bytes := [0, 0, 0, 0, 0, 0, 0, 1, op, 0, 0, 0, 0]

/-- The body needs no constants. -/
theorem encode_alone (op : Opcode)
    (bare : ∀ labels, Item.bytes labels (0, ⟨.op op .none, 0, false⟩) = .ok [op])
    (t : ConstantTables) : (alone op).encode 52 t = .ok (aloneBytes op) t := by
  have assembled : Builder.ofExcept
      (Assembly.ofItems [⟨.op op .none, 0, false⟩]) t = .ok ⟨[op], ∅, []⟩ t := by
    have settled : Layout.settle [⟨.op op .none, 0, false⟩]
        = .ok ⟨[(0, ⟨.op op .none, 0, false⟩)], 1⟩ := by
      rw [Layout.settle]
      rfl
    have code : Layout.code ⟨[(0, ⟨.op op .none, 0, false⟩)], 1⟩ = .ok [op] :=
      Traverse.bind_eq_ok_iff.2
        ⟨[[op]], Traverse.mapM_eq_ok_iff.2 (.cons (bare _) .nil), rfl⟩
    unfold Assembly.ofItems
    rw [settled]
    show Builder.ofExcept (Assembly.ofLayout _) t = _
    unfold Assembly.ofLayout
    rw [code]
    rfl
  refine (Builder.bind_of_ok (m := [.op op .none].mapM Instruction.toItem) rfl).trans ?_
  refine (Builder.bind_of_ok (m := Builder.ofExcept _) assembled).trans ?_
  refine (Builder.bind_of_ok (m := Code.encodeRanges ∅ []) rfl).trans ?_
  refine (Builder.bind_of_ok (m := Code.encodeLines ∅ _) rfl).trans ?_
  refine (Builder.bind_of_ok (m := Code.encodeVariables ∅ []) rfl).trans ?_
  refine (Builder.bind_of_ok (m := Code.encodeFrames ∅ 52 []) rfl).trans ?_
  refine (Builder.bind_of_ok (m := Attribute.encodeAll []) rfl).trans ?_
  have size : Word.encode (0 : UInt16) = [0, 0] := by decide
  have length : Word.encode (UInt32.ofNat 1) = [0, 0, 0, 1] := by decide
  have table : Bytes.ofNat 2 0 = [0, 0] := by decide
  show EStateM.Result.ok (Word.encode (0 : UInt16) ++ Word.encode (0 : UInt16)
    ++ Word.encode (UInt32.ofNat 1) ++ [op] ++ (Bytes.ofNat 2 0 ++ []) ++ (Bytes.ofNat 2 0 ++ [])) t
      = _
  rw [size, length, table]
  rfl

theorem regular_return (header : MethodHeader) (typed : ∃ entry, header.entryFrame = .ok entry) :
    (alone Opcode.vreturn).Regular header where
  nonempty := by simp [alone, Code.ops, Instruction.isPseudo]
  takes op operand member := by
    cases List.mem_singleton.1 member
    exact ⟨_, rfl, .plain⟩
  representable op operand member := by
    cases List.mem_singleton.1 member
    trivial
  placed l member := nomatch member
  typed := typed
  scopes := .nil

/-! ### A body with a loop -/

/-- A loop whose first instructions are guarded: the exception is thrown again.  There is a line,
a variable behind its first store, and a frame wherever one is needed. -/
def looping : Code where
  maxStack := 1
  maxLocals := 1
  instructions := .ofList [.label ⟨0⟩, .line 7 ⟨0⟩, .frame ⟨[], []⟩, .op Opcode.iconst0 .none,
    .op Opcode.istore (.var 0), .label ⟨1⟩, .op Opcode.goto (.jump ⟨0⟩), .label ⟨2⟩,
    .frame ⟨[], [.object "A"]⟩, .op Opcode.athrow .none] 3
  handlers := [⟨⟨0⟩, ⟨1⟩, ⟨2⟩, some "A"⟩]
  localVariables := [⟨"m", "I", none, ⟨1⟩, ⟨2⟩, 0⟩]

/-- The executable instructions of the loop. -/
theorem mem_looping {op : Opcode} {operand : Operand}
    (h : .op op operand ∈ looping.instructions.toList) :
    op = Opcode.iconst0 ∧ operand = .none ∨ op = Opcode.istore ∧ operand = .var 0
      ∨ op = Opcode.goto ∧ operand = .jump ⟨0⟩ ∨ op = Opcode.athrow ∧ operand = .none := by
  simpa [looping] using h

/-- The loop is regular. -/
theorem regular_looping (header : MethodHeader) (typed : ∃ entry, header.entryFrame = .ok entry) :
    looping.Regular header where
  nonempty := by simp [looping, Code.ops, Instruction.isPseudo]
  takes op operand member := by
    rcases mem_looping member with ⟨rfl, rfl⟩ | ⟨rfl, rfl⟩ | ⟨rfl, rfl⟩ | ⟨rfl, rfl⟩
    · exact ⟨_, rfl, .plain⟩
    · exact ⟨_, rfl, .slot 0⟩
    · exact ⟨_, rfl, .branch ⟨0⟩⟩
    · exact ⟨_, rfl, .plain⟩
  representable op operand member := by
    rcases mem_looping member with ⟨-, rfl⟩ | ⟨-, rfl⟩ | ⟨-, rfl⟩ | ⟨-, rfl⟩ <;> trivial
  placed := by
    show ∀ l ∈ looping.references, _
    decide
  typed := typed
  scopes := List.nodup_singleton _

/-- There is no switch in the loop. -/
theorem looping_keys : ¬looping.HasEmptyTable := by
  rintro ⟨op, operand, member, table⟩
  rcases mem_looping member with ⟨-, rfl⟩ | ⟨-, rfl⟩ | ⟨-, rfl⟩ | ⟨-, rfl⟩ <;> cases table

/-- The layout of the loop: the store takes its short form, and the jump need not be wide. -/
def loopingLayout : Layout :=
  ⟨[0, 0, 0, 0, 1, 2, 2, 5, 5, 5].zip
    (looping.instructions.toList.map fun insn => ⟨insn, 0, false⟩), 6⟩

/-- The tables behind the loop. -/
def loopingAttributes : List Attribute :=
  [⟨"LineNumberTable", [0, 1, 0, 0, 0, 7]⟩,
    ⟨"LocalVariableTable", [0, 1, 0, 2, 0, 3, 0, 5, 0, 10, 0, 0]⟩,
    ⟨"StackMapTable", [0, 2, 255, 0, 0, 0, 0, 0, 0, 255, 0, 4, 0, 0, 0, 1, 7, 0, 2]⟩]

/-- The bytes of the loop with its range and its tables, named by the constants of the small
class. -/
def loopingBytes : Bytes :=
  [0, 1, 0, 1, 0, 0, 0, 6, 0x03, 0x3B, 0xA7, 0xFF, 0xFE, 0xBF, 0, 1, 0, 0, 0, 2, 0, 5, 0, 2, 0, 3,
    0, 8, 0, 0, 0, 6, 0, 1, 0, 0, 0, 7,
    0, 9, 0, 0, 0, 12, 0, 1, 0, 2, 0, 3, 0, 5, 0, 10, 0, 0,
    0, 11, 0, 0, 0, 19, 0, 2, 255, 0, 0, 0, 0, 0, 0, 255, 0, 4, 0, 0, 0, 1, 7, 0, 2]

/-- Where the labels of the loop are. -/
theorem offset_looping : loopingLayout.labels.offset ⟨0⟩ = .ok 0
    ∧ loopingLayout.labels.offset ⟨1⟩ = .ok 2 ∧ loopingLayout.labels.offset ⟨2⟩ = .ok 5 := by
  have labels : loopingLayout.labels
      = (((∅ : LabelTable).insert ⟨0⟩ 0).insert ⟨1⟩ 2).insert ⟨2⟩ 5 := rfl
  rw [labels]
  simp [LabelTable.offset, Std.HashMap.getElem_insert]

theorem ofItems_looping :
    Assembly.ofItems (looping.instructions.toList.map fun insn => ⟨insn, 0, false⟩)
      = .ok ⟨[0x03, 0x3B, 0xA7, 0xFF, 0xFE, 0xBF], loopingLayout.labels,
        [(0, ⟨[], []⟩), (5, ⟨[], [.object "A"]⟩)]⟩ := by
  have distance : loopingLayout.labels.distance 2 ⟨0⟩ = .ok (-2) :=
    Traverse.bind_eq_ok_iff.2 ⟨0, offset_looping.1, rfl⟩
  have widen : loopingLayout.widen
      = .ok (looping.instructions.toList.map fun insn => ⟨insn, 0, false⟩) := by
    refine Traverse.mapM_eq_ok_iff.2 ?_
    refine .cons rfl (.cons rfl (.cons rfl (.cons rfl (.cons rfl (.cons rfl (.cons ?_
      (.cons rfl (.cons rfl (.cons rfl .nil)))))))))
    exact Traverse.bind_eq_ok_iff.2 ⟨_, distance, rfl⟩
  have settled : Layout.settle (looping.instructions.toList.map fun insn => ⟨insn, 0, false⟩)
      = .ok loopingLayout := by
    have placed : Layout.place (looping.instructions.toList.map fun insn => ⟨insn, 0, false⟩)
        = .ok loopingLayout := rfl
    rw [Layout.settle, placed]
    dsimp only
    rw [widen]
    exact if_neg (Nat.lt_irrefl _)
  have code : loopingLayout.code = .ok [0x03, 0x3B, 0xA7, 0xFF, 0xFE, 0xBF] := by
    refine Traverse.bind_eq_ok_iff.2 ⟨[[], [], [], [0x03], [0x3B], [], [0xA7, 0xFF, 0xFE], [], [],
      [0xBF]], Traverse.mapM_eq_ok_iff.2 ?_, rfl⟩
    refine .cons rfl (.cons rfl (.cons rfl (.cons rfl (.cons rfl (.cons rfl (.cons ?_
      (.cons rfl (.cons rfl (.cons rfl .nil)))))))))
    exact Traverse.bind_eq_ok_iff.2 ⟨_, distance, rfl⟩
  exact Traverse.bind_eq_ok_iff.2 ⟨_, settled, Traverse.bind_eq_ok_iff.2 ⟨_, code, rfl⟩⟩

section Looping

variable {pool : Pool} (slots : pool.slots = smallHeader.pool.slots)
  (wf : (small pool).constants.WellFormed)

include slots wf in
theorem encodeRanges_looping :
    Code.encodeRanges loopingLayout.labels looping.handlers (small pool).constants
      = .ok [0, 1, 0, 0, 0, 2, 0, 5, 0, 2] (small pool).constants := by
  obtain ⟨start, finish, handler⟩ := offset_looping
  have row : Code.encodeRange loopingLayout.labels ⟨⟨0⟩, ⟨1⟩, ⟨2⟩, some "A"⟩ (small pool).constants
      = .ok (some [0, 0, 0, 2, 0, 5, 0, 2]) (small pool).constants := by
    unfold Code.encodeRange
    rw [start, finish, handler]
    refine (Builder.bind_of_ok (m := Builder.ofExcept (.ok 0)) rfl).trans ?_
    refine (Builder.bind_of_ok (m := Builder.ofExcept (.ok 2)) rfl).trans ?_
    refine (Builder.bind_of_ok (m := Builder.ofExcept (.ok 5)) rfl).trans ?_
    exact (Builder.bind_of_ok (m := Builder.addOptionalClass (some "A"))
      (addClass_small slots wf)).trans rfl
  have rows : looping.handlers.mapM (Code.encodeRange loopingLayout.labels) (small pool).constants
      = .ok [some [0, 0, 0, 2, 0, 5, 0, 2]] (small pool).constants :=
    (Builder.bind_of_ok row).trans rfl
  exact (Builder.bind_of_ok rows).trans rfl

include slots wf in
theorem encodeVariables_looping :
    Code.encodeVariables loopingLayout.labels looping.localVariables (small pool).constants
      = .ok [⟨"LocalVariableTable", [0, 1, 0, 2, 0, 3, 0, 5, 0, 10, 0, 0]⟩]
        (small pool).constants := by
  obtain ⟨-, start, finish⟩ := offset_looping
  have row : Code.encodeVariable loopingLayout.labels ⟨"m", "I", none, ⟨1⟩, ⟨2⟩, 0⟩
      (small pool).constants
        = .ok ([0, 2, 0, 3, 0, 5, 0, 10, 0, 0], none) (small pool).constants := by
    unfold Code.encodeVariable
    rw [start, finish]
    refine (Builder.bind_of_ok (m := Builder.ofExcept (.ok 2)) rfl).trans ?_
    refine (Builder.bind_of_ok (m := Builder.ofExcept (.ok 5)) rfl).trans ?_
    refine (Builder.bind_of_ok (addUtf8_small slots wf (i := 5) (by decide))).trans ?_
    exact (Builder.bind_of_ok (addUtf8_small slots wf (i := 10) (by decide))).trans rfl
  have rows : looping.localVariables.mapM (Code.encodeVariable loopingLayout.labels)
      (small pool).constants
        = .ok [([0, 2, 0, 3, 0, 5, 0, 10, 0, 0], none)] (small pool).constants :=
    (Builder.bind_of_ok row).trans rfl
  refine (Builder.bind_of_ok (m := Builder.count "local variables" 1) rfl).trans ?_
  exact (Builder.bind_of_ok rows).trans rfl

include slots wf in
theorem encodeFrames_looping :
    Code.encodeFrames loopingLayout.labels 52 [(0, ⟨[], []⟩), (5, ⟨[], [.object "A"]⟩)]
      (small pool).constants
        = .ok [⟨"StackMapTable", [0, 2, 255, 0, 0, 0, 0, 0, 0, 255, 0, 4, 0, 0, 0, 1, 7, 0, 2]⟩]
          (small pool).constants := by
  have thrown : Builder.concat (Code.encodeType loopingLayout.labels) [.object "A"]
      (small pool).constants = .ok [7, 0, 2] (small pool).constants := by
    refine (Builder.concat_of_unchanged (fun _ => [7, 0, 2]) ?_).trans rfl
    simp only [List.forall_mem_cons]
    exact ⟨(Builder.bind_of_ok (addClass_small slots wf)).trans rfl, List.forall_mem_nil _⟩
  have first : Code.encodeFrame loopingLayout.labels 0 ⟨[], []⟩ (small pool).constants
      = .ok [255, 0, 0, 0, 0, 0, 0] (small pool).constants := rfl
  have second : Code.encodeFrame loopingLayout.labels 4 ⟨[], [.object "A"]⟩ (small pool).constants
      = .ok [255, 0, 4, 0, 0, 0, 1, 7, 0, 2] (small pool).constants := by
    refine (Builder.bind_of_ok (m := Builder.count "frame locals" 0) rfl).trans ?_
    refine (Builder.bind_of_ok (m := Builder.concat _ []) rfl).trans ?_
    refine (Builder.bind_of_ok (m := Builder.count "frame stack entries" 1) rfl).trans ?_
    exact (Builder.bind_of_ok thrown).trans rfl
  refine (Builder.bind_of_ok (m := Builder.count "stack map frames" 2) rfl).trans ?_
  refine (Builder.bind_of_ok (Builder.concat_of_unchanged (fun frame => if frame.1 = 0 then
    [255, 0, 0, 0, 0, 0, 0] else [255, 0, 4, 0, 0, 0, 1, 7, 0, 2]) ?_)).trans rfl
  show ∀ frame ∈ [(0, Frame.mk [] []), (4, ⟨[], [.object "A"]⟩)], _
  simp only [List.forall_mem_cons]
  exact ⟨first, second, List.forall_mem_nil _⟩

include slots wf in
/-- **The loop is written** with the constants that are there already. -/
theorem encode_looping :
    looping.encode 52 (small pool).constants = .ok loopingBytes (small pool).constants := by
  have attributes := Attribute.encodeAll_of_known (t := (small pool).constants)
    (fun name => if name = "LineNumberTable" then 8 else if name = "LocalVariableTable" then 9
      else 11)
    (show loopingAttributes.length < 65536 by decide)
    (by
      simp only [loopingAttributes, List.forall_mem_cons]
      exact ⟨addUtf8_small slots wf (by decide), addUtf8_small slots wf (by decide),
        addUtf8_small slots wf (by decide), List.forall_mem_nil _⟩)
    (by decide)
  have lines : Code.encodeLines loopingLayout.labels looping.instructions.toList
      (small pool).constants
        = .ok [⟨"LineNumberTable", [0, 1, 0, 0, 0, 7]⟩] (small pool).constants := by
    have rows : (Code.lines looping.instructions.toList).mapM (fun row : UInt16 × Label =>
        (loopingLayout.labels.offset row.2).map fun offset =>
          Code.offsetBytes offset ++ Word.encode row.1) = .ok [[0, 0, 0, 7]] :=
      Traverse.mapM_eq_ok_iff.2 (.cons (by rw [offset_looping.1]; rfl) .nil)
    refine (Builder.bind_of_ok (m := Builder.ofExcept _)
      (congrArg (Builder.ofExcept · (small pool).constants) rows)).trans rfl
  refine (Builder.bind_of_ok
    (m := looping.instructions.toList.mapM Instruction.toItem) rfl).trans ?_
  refine (Builder.bind_of_ok (m := Builder.ofExcept _)
    (congrArg (Builder.ofExcept · (small pool).constants) ofItems_looping)).trans ?_
  refine (Builder.bind_of_ok (encodeRanges_looping slots wf)).trans ?_
  refine (Builder.bind_of_ok lines).trans ?_
  refine (Builder.bind_of_ok (encodeVariables_looping slots wf)).trans ?_
  refine (Builder.bind_of_ok (encodeFrames_looping slots wf)).trans ?_
  exact (Builder.bind_of_ok (m := Attribute.encodeAll _) attributes).trans rfl

end Looping

/-! ### A class with a method -/

/-- The small class with a method that has some body. -/
def smallWithBody (code : Code) (pool : Pool) : ClassFile :=
  { small pool with methods := [⟨0x0009, "m", "()V", .empty, some code, []⟩] }

/-- The bytes of the method with a body in some bytes. -/
def methodBytes (body : Bytes) : Bytes :=
  Word.encode (0x0009 : UInt16) ++ (Word.encode (5 : UInt16) ++ (Word.encode (6 : UInt16)
    ++ (Bytes.ofNat 2 1 ++ Attribute.chunk 7 ⟨"Code", body⟩)))

/-- The bytes of the class with such a method, behind the constants.  What else there is in the
class is in front of the method and behind it. -/
def classBytes (behind body : Bytes) : Bytes :=
  Word.encode (0x0021 : UInt16) ++ (Word.encode (2 : UInt16) ++ (Word.encode (0 : UInt16)
    ++ (Bytes.ofNat 2 0 ++ (Bytes.ofNat 2 0 ++ ((Bytes.ofNat 2 1 ++ methodBytes body) ++ behind)))))

section Small

variable {pool : Pool} (slots : pool.slots = smallHeader.pool.slots)
  (wf : (small pool).constants.WellFormed) {code : Code} {body : Bytes}
  (written : code.encode 52 (small pool).constants = .ok body (small pool).constants)
  (short : body.length < 2 ^ (32 : Nat))

include slots wf written short in
/-- The method is written. -/
theorem encodeMethod_small : encodeMethod (smallWithBody code pool) .flat .none
    ⟨0x0009, "m", "()V", .empty, some code, []⟩ (small pool).constants
      = .ok (methodBytes body) (small pool).constants := by
  have name : Builder.addUtf8 "m" (small pool).constants = .ok 5 (small pool).constants :=
    addUtf8_small slots wf (by decide)
  have desc : Builder.addUtf8 "()V" (small pool).constants = .ok 6 (small pool).constants :=
    addUtf8_small slots wf (by decide)
  have wrapped : codeAttributes (smallWithBody code pool) .flat .none
      ⟨0x0009, "m", "()V", .empty, some code, []⟩ (small pool).constants
        = .ok [⟨"Code", body⟩] (small pool).constants := by
    refine (Builder.bind_of_ok (m := Builder.ofExcept _) (v := code) rfl).trans ?_
    exact (Builder.bind_of_ok written).trans rfl
  have attributes := Attribute.encodeAll_of_known (t := (small pool).constants) (fun _ => 7)
    (show [Attribute.mk "Code" body].length < 65536 by simp)
    (by
      simp only [List.forall_mem_cons]
      exact ⟨addUtf8_small slots wf (by decide), List.forall_mem_nil _⟩) (by
      simp only [List.forall_mem_cons]
      exact ⟨short, List.forall_mem_nil _⟩)
  have head : encodeHead 0x0009 "m" "()V" (small pool).constants
      = .ok [0, 9, 0, 5, 0, 6] (small pool).constants :=
    (Builder.bind_of_ok name).trans ((Builder.bind_of_ok desc).trans rfl)
  rw [encodeMethod_eq]
  refine (Builder.bind_of_ok head).trans ?_
  refine (Builder.bind_of_ok wrapped).trans ?_
  refine (Builder.bind_of_ok (m := annotationAttributes .empty) rfl).trans ?_
  refine (Builder.bind_of_ok (m := Attribute.encodeAll _) attributes).trans ?_
  have count : Bytes.ofNat 2 1 = [0, 1] := by decide
  rw [List.length_singleton, count, List.flatMap_singleton]
  rfl

include slots wf written short in
/-- The class with the method is written. -/
theorem encode_smallWithBody : (smallWithBody code pool).encode .flat .none
    = Header.encode { smallHeader with body := classBytes (smallHeader.body.drop 12) body } := by
  have method := encodeMethod_small slots wf written short
  have owner := addClass_small slots wf
  have whole : (smallWithBody code pool).encodeBody .flat .none (small pool).constants
      = .ok (classBytes (smallHeader.body.drop 12) body) (small pool).constants := by
    refine (Builder.bind_of_ok owner).trans ?_
    refine (Builder.bind_of_ok (m := pure 0) rfl).trans ?_
    refine (Builder.bind_of_ok (m := Builder.count "interfaces" 0) rfl).trans ?_
    refine (Builder.bind_of_ok (m := pure []) rfl).trans ?_
    refine (Builder.bind_of_ok (m := Builder.count "fields" 0) rfl).trans ?_
    refine (Builder.bind_of_ok (m := pure []) rfl).trans ?_
    refine (Builder.bind_of_ok (m := Builder.count "methods" 1) rfl).trans ?_
    refine (Builder.bind_of_ok
      (Builder.concat_of_unchanged (fun _ => methodBytes body) ?_)).trans ?_
    · simp only [smallWithBody, List.forall_mem_cons]
      exact ⟨method, List.forall_mem_nil _⟩
    refine (Builder.bind_of_ok (m := annotationAttributes .empty) rfl).trans ?_
    refine (Builder.bind_of_ok bootstrapAttribute_small).trans ?_
    refine (Builder.bind_of_ok (m := Attribute.encodeAll _) (encodeAttributes_small slots wf)).trans
      ?_
    have access : (smallWithBody code pool).access = 0x21 := rfl
    have methods : (smallWithBody code pool).methods.flatMap (fun _ => methodBytes body)
        = methodBytes body := List.append_nil _
    simp only [access, methods, classBytes, List.append_assoc]
    rfl
  exact (encode_of_body whole).trans (Header.encode_congr slots)

include slots wf written short in
theorem exists_encode_smallWithBody :
    ∃ bytes, (smallWithBody code pool).encode .flat .none = .ok bytes := by
  rw [encode_smallWithBody slots wf written short]
  exact encodeHeader_small rfl _

/-- Apart from the body, there is nothing wrong with the class. -/
theorem clean_smallWithBody {original : Bytes} (read : decode .all original = .ok (small pool))
    (code : Code) : (smallWithBody code pool).Clean where
  constants := .inr ⟨_, _, _, read, rfl⟩
  old := by show (45 : UInt16) ≤ 52; decide
  new := by show (52 : UInt16) ≤ 69; decide
  annotations := fun _ h => nomatch h
  attributes := by
    intro a member
    cases List.mem_singleton.1 member
    rfl
  methodAnnotations := by
    intro m member
    cases List.mem_singleton.1 member
    exact fun _ h => nomatch h
  methodAttributes := by
    intro m member
    cases List.mem_singleton.1 member
    exact fun _ h => nomatch h

end Small

/-- The small class with the loop is regular, and is written. -/
theorem regular_smallLooping : ∃ pool bytes, Regular (smallWithBody looping pool)
    ∧ ¬(smallWithBody looping pool).HasEmptyTable
    ∧ (smallWithBody looping pool).encode .flat .none = .ok bytes := by
  obtain ⟨original, pool, slots, read⟩ := decode_small
  have wf := (wellFormed_of_decode read).1
  obtain ⟨bytes, written⟩ :=
    exists_encode_smallWithBody slots wf (encode_looping slots wf) (by decide)
  have clean := clean_smallWithBody read looping
  refine ⟨pool, bytes, ⟨clean.constants, clean.old, clean.new, clean.annotations, clean.attributes,
    clean.methodAnnotations, clean.methodAttributes, ?_⟩, ?_, written⟩
  · intro m member code known
    cases List.mem_singleton.1 member
    cases known
    exact regular_looping _ (by
      show ∃ entry, MethodHeader.entryFrame ⟨"A", 0x0009, "m", "()V"⟩ = .ok entry
      exact ⟨_, rfl⟩)
  · rintro ⟨m, member, code, known, table⟩
    cases List.mem_singleton.1 member
    cases known
    exact looping_keys table

/-- The loop of the small class comes back. -/
theorem bodies_of_small : ∃ c bytes, Regular c
    ∧ (∃ m ∈ c.methods, ∃ code, m.code = some code ∧ code.handlers ≠ [] ∧ code.localVariables ≠ [])
    ∧ ¬c.HasEmptyTable ∧ c.encode .flat .none = .ok bytes
    ∧ ((∃ d, decode .all bytes = .ok d) ↔ ¬c.HasEmptyTable)
    ∧ ∀ d, decode .all bytes = .ok d →
      List.Forall₂ (Method.Survives c.major) c.methods d.methods := by
  obtain ⟨pool, bytes, regular, keys, written⟩ := regular_smallLooping
  exact ⟨smallWithBody looping pool, bytes, regular,
    ⟨_, List.mem_singleton_self _, looping, rfl, List.cons_ne_nil _ _, List.cons_ne_nil _ _⟩, keys,
    written, bodies_survive regular written⟩

end ClassFile

end ClassInstrument
