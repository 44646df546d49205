import ClassInstrument.Proofs.ClassFile.Fixpoint
import ClassInstrument.Proofs.Code.Lookup

/-!
# Everything outside bodies survives

A class is written and the bytes are read again.  Whether they can be read is a question about the
bodies alone: each of them has to be accepted by the reader as it was written.  If they can be read,
everything around the bodies comes back as it was, and the bootstrap methods are those that the
writer ended with.

* `Code.AcceptedBack` — the reader accepts a body as it is written;
* `ClassFile.AgreesOutside` — two classes that differ in nothing but what their bodies say, and in
  the constants that they were made with;
* `MethodWritten.accepted`, `MethodWritten.agreesOutside` — one method;
* `ClassFile.outside_survives` — **the whole class**.
-/

namespace ClassInstrument

open Decoder

/-! ### Bodies that are accepted -/

/-- The reader accepts a body as it is written in a class file with some constants, which are all
that the body needs. -/
def Code.AcceptedBack (major : UInt16) (header : MethodHeader) (t : ConstantTables) (code : Code) :
    Prop :=
  ∃ bytes code', code.encode major t = .ok bytes t
    ∧ Code.decode t.pool t.bootstrap header .all bytes = .ok code'

/-- A body that was written is written the same in all later tables. -/
theorem Code.WrittenBefore.encode_later {major : UInt16} {code : Code} {bytes : Bytes}
    {t later : ConstantTables} (written : code.WrittenBefore major bytes t) (above : t ≤ later)
    (wf : later.WellFormed) : code.encode major later = .ok bytes later := by
  obtain ⟨s, s', start, encoded, grown⟩ := written
  obtain ⟨-, -, again⟩ := Code.repeats_encode major code s bytes s' start encoded
  exact again later (grown.trans above) wf

/-- Two methods that differ in nothing but what their bodies say. -/
structure Method.AgreesOutside (m m' : Method) : Prop where
  access : m'.access = m.access
  name : m'.name = m.name
  desc : m'.desc = m.desc
  annotations : m'.annotations = m.annotations
  attributes : m'.attributes = m.attributes
  body : m'.code.isSome = m.code.isSome

namespace ClassFile

/-- Two classes that differ in nothing but what their bodies say and the constants they keep. -/
structure AgreesOutside (c d : ClassFile) : Prop where
  minor : d.minor = c.minor
  major : d.major = c.major
  access : d.access = c.access
  name : d.name = c.name
  superName : d.superName = c.superName
  interfaces : d.interfaces = c.interfaces
  fields : d.fields = c.fields
  methods : List.Forall₂ Method.AgreesOutside c.methods d.methods
  annotations : d.annotations = c.annotations
  attributes : d.attributes = c.attributes

variable {c : ClassFile} {hierarchy : Hierarchy} (clean : c.Clean)

/-! ### One method -/

section Method

variable {m : Method} {t : ConstantTables} {part : Field}

/-- Reading a method changes neither its name nor what stands beside it. -/
theorem head_of_decodeMethod {pool : Pool} {bootstrap : BootstrapTable} {options : ReadOptions}
    {owner : String} {m : Method} (h : decodeMethod pool bootstrap options owner part = .ok m) :
    m.access = part.access ∧ m.name = part.name ∧ m.desc = part.desc := by
  refine Traverse.foldlM_of_step (P := fun m : Method =>
    m.access = part.access ∧ m.name = part.name ∧ m.desc = part.desc) ⟨rfl, rfl, rfl⟩ ?_ h
  intro m a _ m' before step
  unfold methodAttribute at step
  split at step
  · obtain ⟨code, -, step⟩ := Traverse.bind_eq_ok_iff.1 step
    cases step
    exact before
  · obtain ⟨annotations, -, step⟩ := Traverse.bind_eq_ok_iff.1 step
    cases step
    exact before
  · cases step
    exact before

include clean in
/-- A method without a body is read again without one. -/
theorem MethodWritten.plain (written : c.MethodWritten hierarchy .none t m part)
    (inside : m ∈ c.methods) (plain : m.code = none) :
    ∃ m', decodeMethod t.pool t.bootstrap .all c.name part = .ok m' ∧ m'.code = none := by
  obtain ⟨attributes, visible, invisible, all, body, shown, hidden⟩ := written.attributes
  rcases body with ⟨-, rfl⟩ | ⟨code, -, -, known, -⟩
  · obtain ⟨annotations, rest⟩ := foldlM_behind clean inside shown hidden c.name (bare part)
    refine ⟨{ bare part with annotations }, ?_, rfl⟩
    show part.attributes.foldlM _ (bare part) = _
    rw [all]
    exact rest
  · rw [plain] at known
    cases known

include clean in
/-- What becomes of a method with a body is decided by the bytes of that body. -/
theorem MethodWritten.withBody (written : c.MethodWritten hierarchy .none t m part)
    (inside : m ∈ c.methods) {code : Code} (known : m.code = some code) :
    ∃ bytes items layout body behind, Code.Written c.major code bytes t items layout body behind
      ∧ ((∃ e, Code.decode t.pool t.bootstrap (c.header m) .all bytes = .error e
          ∧ decodeMethod t.pool t.bootstrap .all c.name part = .error e)
        ∨ ∃ code' m', Code.decode t.pool t.bootstrap (c.header m) .all bytes = .ok code'
          ∧ decodeMethod t.pool t.bootstrap .all c.name part = .ok m' ∧ m'.code = some code') := by
  obtain ⟨attributes, visible, invisible, all, body, shown, hidden⟩ := written.attributes
  rcases body with ⟨plain, -⟩ | ⟨_, prepared, bytes, known', same, rfl, items, layout, body,
    behind, whole⟩
  · rw [plain] at known
    cases known
  · -- nothing is computed anew, so the body was written as it is
    cases same
    cases known.symm.trans known'
    have header : c.header m = ⟨c.name, part.access, part.name, part.desc⟩ := by
      rw [written.access, written.name, written.desc]
      rfl
    have front := foldlM_code t c.name bytes header
    have fold : decodeMethod t.pool t.bootstrap .all c.name part
        = ([Attribute.mk Code.attributeName bytes] ++ ((visible ++ invisible) ++ m.attributes)).foldlM
          (methodAttribute t.pool t.bootstrap .all c.name) (bare part) := by
      rw [← List.append_assoc, ← all]
      rfl
    refine ⟨bytes, items, layout, body, behind, whole, ?_⟩
    cases read : Code.decode t.pool t.bootstrap (c.header m) .all bytes with
    | error e =>
      refine .inl ⟨e, rfl, ?_⟩
      rw [fold, List.foldlM_append, front, read]
      rfl
    | ok code' =>
      rw [read] at front
      obtain ⟨annotations, rest⟩ := foldlM_behind clean inside shown hidden c.name
        { bare part with code := some code' }
      refine .inr ⟨code', { bare part with code := some code', annotations }, rfl, ?_, rfl⟩
      rw [fold, Traverse.foldlM_append_of_ok front]
      exact rest

variable {tables : ConstantTables} (slots : t.pool.slots = tables.pool.slots)
  (methods : t.bootstrap.methods = tables.bootstrap.methods)

include clean slots methods in
/-- **A method is read again** if and only if the reader accepts its body. -/
theorem MethodWritten.accepted (written : c.MethodWritten hierarchy .none t m part)
    (inside : m ∈ c.methods) (wf : tables.WellFormed) :
    (∃ m', decodeMethod t.pool t.bootstrap .all c.name part = .ok m')
      ↔ ∀ code, m.code = some code → code.AcceptedBack c.major (c.header m) tables := by
  cases known : m.code with
  | none =>
    obtain ⟨m', read, -⟩ := written.plain clean inside known
    exact ⟨fun _ code h => (nomatch h), fun _ => ⟨m', read⟩⟩
  | some code =>
    have above : t ≤ tables :=
      ⟨slots ▸ List.prefix_refl _, methods ▸ List.prefix_refl _⟩
    obtain ⟨bytes, _, _, _, _, whole, outcome⟩ := written.withBody clean inside known
    have again := whole.before.encode_later above wf
    rw [Code.decode_congr slots methods] at outcome
    rcases outcome with ⟨e, refused, error⟩ | ⟨code', m', accepted, read, -⟩
    · constructor
      · rintro ⟨m', read⟩
        rw [error] at read
        cases read
      · intro accepted
        obtain ⟨bytes', code', encoded, decoded⟩ := accepted code rfl
        cases again.symm.trans encoded
        rw [refused] at decoded
        cases decoded
    · refine ⟨fun _ code h => ?_, fun _ => ⟨m', read⟩⟩
      cases h
      exact ⟨bytes, code', again, accepted⟩

include clean in
/-- **Whatever method is read agrees** with the one that was written. -/
theorem MethodWritten.agreesOutside (written : c.MethodWritten hierarchy .none t m part)
    (inside : m ∈ c.methods) {m' : Method}
    (read : decodeMethod t.pool t.bootstrap .all c.name part = .ok m') : m.AgreesOutside m' := by
  obtain ⟨access, name, desc⟩ := head_of_decodeMethod read
  have annotations : m'.annotations = m.annotations := Except.ok.inj
    ((Annotations.ofAttributes_of_decodeMethod read).symm.trans (written.annotations
      (clean.methodAnnotations m inside) (clean.methodAttributes m inside)))
  have attributes : m'.attributes = m.attributes := (attributes_of_decodeMethod read).trans
    (written.kept (clean.methodAttributes m inside))
  refine ⟨access.trans written.access, name.trans written.name, desc.trans written.desc,
    annotations, attributes, ?_⟩
  cases known : m.code with
  | none =>
    obtain ⟨m'', read', plain⟩ := written.plain clean inside known
    cases read.symm.trans read'
    rw [plain]
  | some code =>
    obtain ⟨bytes, _, _, _, _, -, ⟨e, -, error⟩ | ⟨code', m'', -, read', own⟩⟩ :=
      written.withBody clean inside known
    · rw [error] at read
      cases read
    · cases read.symm.trans read'
      rw [own]
      rfl

end Method

/-! ### The whole class -/

section Class

variable {bytes : Bytes} {tables : ConstantTables} {header : Header} {s : ClassSkeleton}
  {bootstrap : List Attribute}

include clean in
/-- A class is read again if and only if all its methods are, and then agrees with the class that
was written. -/
theorem Encoded.outside (encoded : c.Encoded hierarchy .none bytes tables header s bootstrap) :
    ((∃ d, decode .all bytes = .ok d) ↔ ∀ m ∈ c.methods, ∀ code, m.code = some code →
        code.AcceptedBack c.major (c.header m) tables)
      ∧ ∀ d, decode .all bytes = .ok d → c.AgreesOutside d
        ∧ d.constants.bootstrap.methods = tables.bootstrap.methods := by
  obtain ⟨read, methods, wrote, reading⟩ := encoded.exists_read clean.annotations clean.attributes
  have each := (List.forall₂_and_left _ _).2
    ⟨fun m (inside : m ∈ c.methods) => inside, wrote.members⟩
  have accepted := fun m part (own : m ∈ c.methods ∧ c.MethodWritten hierarchy .none
      ⟨header.pool, read.bootstrap⟩ m part) =>
    own.2.accepted clean encoded.slots methods own.1 encoded.wellFormed
  refine ⟨?_, fun d hd => ?_⟩
  · rw [reading]
    constructor
    · rintro ⟨d, hd⟩ m inside code known
      obtain ⟨ms, all, -⟩ := Traverse.map_eq_ok_iff.1 hd
      obtain ⟨part, member, own⟩ := Traverse.exists_of_mem_right each.flip inside
      obtain ⟨m', -, decoded⟩ :=
        Traverse.exists_of_mem_right (Traverse.mapM_eq_ok_iff.1 all).flip member
      exact (accepted m part own).1 ⟨m', decoded⟩ code known
    · intro bodies
      obtain ⟨ms, all⟩ := Traverse.exists_mapM fun part member => by
        obtain ⟨m, -, own⟩ := Traverse.exists_of_mem_right each member
        exact (accepted m part own).2 (bodies m own.1)
      exact ⟨_, Traverse.map_eq_ok_iff.2 ⟨ms, all, rfl⟩⟩
  · have made := (encoded.reading .all).symm.trans hd
    rw [reading] at hd
    obtain ⟨ms, all, rfl⟩ := Traverse.map_eq_ok_iff.1 hd
    have agree : List.Forall₂ Method.AgreesOutside c.methods ms :=
      Traverse.forall₂_trans (fun m part m' own decoded =>
        own.2.agreesOutside clean own.1 decoded) each (Traverse.mapM_eq_ok_iff.1 all)
    refine ⟨⟨rfl, rfl, wrote.access, wrote.name, wrote.superName, wrote.interfaces, wrote.fields,
      agree, ?_, wrote.kept encoded.methods clean.attributes⟩, methods⟩
    exact Except.ok.inj ((Annotations.ofAttributes_of_interpret made).symm.trans
      (encoded.annotations clean).1)

include clean in
/-- **Everything outside bodies survives.**  A class is written to some bytes, and the writer ends
with some tables.  The bytes can be read if and only if the reader accepts all bodies, and whatever
is read agrees with the class in everything outside of them; its bootstrap methods are those that
the writer ended with. -/
theorem outside_survives (h : c.encode hierarchy .none = .ok bytes) :
    ∃ body tables, c.encodeBody hierarchy .none c.constants = .ok body tables
      ∧ ((∃ d, decode .all bytes = .ok d) ↔ ∀ m ∈ c.methods, ∀ code, m.code = some code →
          code.AcceptedBack c.major (c.header m) tables)
      ∧ ∀ d, decode .all bytes = .ok d → c.AgreesOutside d
        ∧ d.constants.bootstrap.methods = tables.bootstrap.methods := by
  obtain ⟨tables, header, s, bootstrap, encoded⟩ :=
    encoded_of_encode clean.constants.wellFormed clean.old clean.new h
  exact ⟨header.body, tables, encoded.body, encoded.outside clean⟩

/-- The small class with a loop: the loop is accepted, so the class comes back. -/
theorem outside_of_small : ∃ c bytes body tables d, Clean c
    ∧ (∃ m ∈ c.methods, ∃ code, m.code = some code ∧ code.handlers ≠ [] ∧ code.localVariables ≠ [])
    ∧ c.attributes ≠ []
    ∧ c.encode .flat .none = .ok bytes
    ∧ c.encodeBody .flat .none c.constants = .ok body tables
    ∧ (∀ m ∈ c.methods, ∀ code, m.code = some code →
        code.AcceptedBack c.major (c.header m) tables)
    ∧ decode .all bytes = .ok d ∧ c.AgreesOutside d
    ∧ d.constants.bootstrap.methods = tables.bootstrap.methods := by
  obtain ⟨pool, bytes, regular, keys, written⟩ := regular_smallLooping
  obtain ⟨d, read, -⟩ := exists_survivors regular.clean written
    (fun m inside code known => (regular.bodies m inside code known).readable) keys
  obtain ⟨body, tables, encoded, accepted, agree⟩ := outside_survives regular.clean written
  obtain ⟨agrees, methods⟩ := agree d read
  exact ⟨smallWithBody looping pool, bytes, body, tables, d, regular.clean,
    ⟨_, List.mem_singleton_self _, looping, rfl, List.cons_ne_nil _ _, List.cons_ne_nil _ _⟩,
    List.cons_ne_nil _ _, written, encoded, accepted.1 ⟨d, read⟩, read, agrees, methods⟩

end Class

end ClassFile

end ClassInstrument
