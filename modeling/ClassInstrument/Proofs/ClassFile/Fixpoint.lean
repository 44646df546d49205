import ClassInstrument.Proofs.ClassFile.Repeated
import ClassInstrument.Proofs.ClassFile.RoundTrip
import ClassInstrument.Proofs.Code.Decoded

/-!
# Writing reaches a fixed point

A class that was read is written, and what was written is read and written again: the bytes are the
same.  The first time everything that a class file can say in several ways gets one form; the second
time it has this form already, and every constant is found at the index that it was given.

* `ClassFile.Alike` — classes that are written alike, up to the constants that they start with;
* `ClassFile.bodies_of_decode` — what is known of the bodies of a class that was read;
* `ClassFile.canonical`, `ClassFile.Rereadable` — a class as it is read back, and why it can be;
* `ClassFile.Encoded.exists_alike` — **what is read back is written alike**, and needs no new
  constants;
* `ClassFile.encode_decode_encode` — **the bytes are a fixed point** after one step.
-/

namespace ClassInstrument

open Builder Decoder

/-! ### Classes that are written alike -/

/-- Two methods that are written alike. -/
structure Method.Alike (major : UInt16) (m n : Method) : Prop where
  access : n.access = m.access
  name : n.name = m.name
  desc : n.desc = m.desc
  annotations : n.annotations = m.annotations
  attributes : n.attributes = m.attributes
  code : m.code = none ∧ n.code = none ∨ ∃ code code', m.code = some code ∧ n.code = some code'
    ∧ Refines (code.encode major) (code'.encode major)

/-- A method with its body as it is read back. -/
def Method.canonical (m : Method) : Method := { m with code := m.code.map Code.canonical }

namespace ClassFile

/-- Two classes that are written alike, up to the constants that they start with. -/
structure Alike (c d : ClassFile) : Prop where
  minor : d.minor = c.minor
  major : d.major = c.major
  access : d.access = c.access
  name : d.name = c.name
  superName : d.superName = c.superName
  interfaces : d.interfaces = c.interfaces
  fields : d.fields = c.fields
  methods : List.Forall₂ (Method.Alike c.major) c.methods d.methods
  annotations : d.annotations = c.annotations
  attributes : d.attributes = c.attributes

variable {c d : ClassFile}

theorem refines_encodeMethod (hierarchy : Hierarchy) (major : d.major = c.major) {m n : Method}
    (alike : m.Alike c.major n) :
    Refines (c.encodeMethod hierarchy .none m) (d.encodeMethod hierarchy .none n) := by
  have code : Refines (c.codeAttributes hierarchy .none m)
      (d.codeAttributes hierarchy .none n) := by
    unfold codeAttributes
    rcases alike.code with ⟨plain, plain'⟩ | ⟨code, code', known, known', refines⟩
    · rw [plain, plain']
      exact Refines.refl _
    · rw [known, known', major]
      exact refines.bind fun body => Refines.refl _
  rw [encodeMethod_eq, encodeMethod_eq, alike.access, alike.name, alike.desc, alike.annotations,
    alike.attributes]
  exact (Refines.refl _).bind fun head => code.bind fun code => Refines.refl _

/-- **Classes that are alike have the same bytes.** -/
theorem Alike.refines_encodeBody (alike : c.Alike d) (hierarchy : Hierarchy) :
    Refines (c.encodeBody hierarchy .none) (d.encodeBody hierarchy .none) := by
  have methods : Refines (concat (c.encodeMethod hierarchy .none) c.methods)
      (concat (d.encodeMethod hierarchy .none) d.methods) :=
    Refines.concat (alike.methods.imp fun m n => refines_encodeMethod hierarchy alike.major)
  have count := alike.methods.length_eq
  unfold encodeBody
  rw [alike.access, alike.name, alike.superName, alike.interfaces, alike.fields, ← count,
    alike.annotations, alike.attributes]
  refine (Refines.refl _).bind fun name => (Refines.refl _).bind fun superName => ?_
  refine (Refines.refl _).bind fun interfaceCount => (Refines.refl _).bind fun interfaces => ?_
  refine (Refines.refl _).bind fun fieldCount => (Refines.refl _).bind fun fields => ?_
  exact (Refines.refl _).bind fun methodCount => methods.bind fun methods => Refines.refl _

/-- Classes that are alike and start with the same constants have the same class file. -/
theorem Alike.encode (alike : c.Alike d) (constants : d.constants = c.constants)
    {hierarchy : Hierarchy} {bytes : Bytes} (h : c.encode hierarchy .none = .ok bytes) :
    d.encode hierarchy .none = .ok bytes := by
  unfold ClassFile.encode at h
  split at h
  · next body tables encoded =>
    rw [← constants] at encoded
    rw [encode_of_body (alike.refines_encodeBody hierarchy _ _ _ encoded), alike.minor, alike.major]
    exact h
  · cases h

/-! ### Classes that were read -/

/-- The body of a method that was read. -/
theorem body_of_decodeMethod {pool : Pool} {bootstrap : BootstrapTable} {owner : String}
    {member : Field} {m : Method} (h : decodeMethod pool bootstrap .all owner member = .ok m) :
    ∀ code, m.code = some code → code.Decoded ⟨owner, m.access, m.name, m.desc⟩ := by
  refine Traverse.foldlM_of_step (P := fun m : Method =>
    ∀ code, m.code = some code → code.Decoded ⟨owner, m.access, m.name, m.desc⟩)
    (by rintro code ⟨⟩) ?_ h
  intro m a _ m' before step
  unfold methodAttribute at step
  split at step
  · obtain ⟨code, decoded, step⟩ := Traverse.bind_eq_ok_iff.1 step
    cases step
    intro code' known
    cases known
    exact Code.decoded_of_decode decoded
  · obtain ⟨annotations, -, step⟩ := Traverse.bind_eq_ok_iff.1 step
    cases step
    exact before
  · cases step
    exact before

/-- The bodies of a class that was read. -/
theorem bodies_of_decode {bytes : Bytes} (h : decode .all bytes = .ok c) :
    ∀ m ∈ c.methods, ∀ code, m.code = some code → code.Decoded (c.header m) := by
  obtain ⟨header, s, -, -, made⟩ := ClassSkeleton.exists_of_decode h
  obtain ⟨read, -, made⟩ := Traverse.bind_eq_ok_iff.1 made
  obtain ⟨methods, each, made⟩ := Traverse.bind_eq_ok_iff.1 made
  cases made
  intro m inside
  obtain ⟨member, -, decoded⟩ :=
    Traverse.exists_of_mem_right (Traverse.mapM_eq_ok_iff.1 each) inside
  exact body_of_decodeMethod decoded

/-- What has to be so for a class to be read back from what is written for it, alike. -/
structure Rereadable (c : ClassFile) : Prop where
  clean : c.Clean
  readable : ∀ m ∈ c.methods, ∀ code, m.code = some code → code.Readable (c.header m)
  keys : ∀ m ∈ c.methods, ∀ code, m.code = some code → ¬code.HasEmptyTable
  ordered : ∀ m ∈ c.methods, ∀ code, m.code = some code → code.LinesInOrder

/-- A class with its bodies as they are read back. -/
def canonical (c : ClassFile) : ClassFile := { c with methods := c.methods.map Method.canonical }

/-- A class that was read is written as it is read back. -/
theorem alike_canonical {bytes : Bytes} (h : decode .all bytes = .ok c) : c.Alike c.canonical where
  minor := rfl
  major := rfl
  access := rfl
  name := rfl
  superName := rfl
  interfaces := rfl
  fields := rfl
  annotations := rfl
  attributes := rfl
  methods := by
    refine List.forall₂_map_right_iff.2 (List.forall₂_same.2 fun m inside => ?_)
    refine ⟨rfl, rfl, rfl, rfl, rfl, ?_⟩
    cases known : m.code with
    | none => exact .inl ⟨rfl, congrArg (Option.map Code.canonical) known⟩
    | some code =>
      have decoded := bodies_of_decode h m inside code known
      exact .inr ⟨code, code.canonical, rfl, congrArg (Option.map Code.canonical) known,
        Code.encode_canonical decoded.placed decoded.ordered c.major⟩

/-- As it is read back, a class that was read can be read back. -/
theorem rereadable_canonical {bytes : Bytes} (h : decode .all bytes = .ok c) :
    c.canonical.Rereadable := by
  have clean := clean_of_decode h
  have bodies : ∀ m' ∈ c.canonical.methods, ∀ code', m'.code = some code' →
      ∃ code : Code, code' = code.canonical ∧ code.Decoded (c.canonical.header m') := by
    intro m' inside' code' known'
    obtain ⟨m, inside, rfl⟩ := List.mem_map.1 inside'
    obtain ⟨code, known, rfl⟩ := Option.map_eq_some_iff.1 known'
    exact ⟨code, rfl, bodies_of_decode h m inside code known⟩
  refine ⟨⟨clean.constants, clean.old, clean.new, clean.annotations, clean.attributes, ?_, ?_⟩,
    ?_, ?_, ?_⟩
  · exact List.forall_mem_map.2 fun m inside => clean.methodAnnotations m inside
  · exact List.forall_mem_map.2 fun m inside => clean.methodAttributes m inside
  · intro m inside code known
    obtain ⟨code, rfl, decoded⟩ := bodies m inside code known
    exact decoded.readable
  · intro m inside code known
    obtain ⟨code, rfl, decoded⟩ := bodies m inside code known
    exact decoded.keys
  · intro m inside code known
    obtain ⟨code, rfl, decoded⟩ := bodies m inside code known
    exact decoded.ordered.canonical

/-! ### Classes that are read back -/

/-- Of attributes behind others that are not kept, those behind are kept. -/
theorem filter_kept {front behind : List Attribute} {p : Attribute → Bool}
    (written : ∀ a ∈ front, p a = false) (kept : ∀ a ∈ behind, p a = true) :
    (front ++ behind).filter p = behind := by
  rw [List.filter_append, List.filter_eq_nil_iff.2 fun a member => by simp [written a member],
    List.filter_eq_self.2 kept, List.nil_append]

/-- Attributes that are written for annotations have one name. -/
theorem AnnotationsWritten.names {t : ConstantTables} {name : String}
    {annotations : List Annotation} {attributes : List Attribute}
    (written : AnnotationsWritten t name annotations attributes) :
    ∀ a ∈ attributes, a.name = name := by
  rcases written with ⟨-, rfl⟩ | ⟨body, rfl, -⟩
  · exact fun a member => nomatch member
  · intro a member
    rw [List.mem_singleton.1 member]

variable {hierarchy : Hierarchy} {t : ConstantTables}

/-- The attributes of a method that were kept are kept again. -/
theorem MethodWritten.kept {m : Method} {part : Field}
    (written : c.MethodWritten hierarchy .none t m part)
    (kept : ∀ a ∈ m.attributes, a.roleInMethod .all = .kept) :
    (part.attributes.filter fun a => a.roleInMethod .all == .kept) = m.attributes := by
  obtain ⟨code, visible, invisible, all, body, shown, hidden⟩ := written.attributes
  rw [all]
  refine filter_kept (fun a member => ?_) fun a member => beq_iff_eq.2 (kept a member)
  simp only [List.mem_append] at member
  rcases member with own | member | member
  · rcases body with ⟨-, rfl⟩ | ⟨_, _, body, -, -, rfl, -⟩
    · cases own
    · cases List.mem_singleton.1 own
      rfl
  · rw [a.roleInMethod_visible .all (shown.names a member)]
    rfl
  · rw [a.roleInMethod_invisible .all (hidden.names a member)]
    rfl

/-- The attributes of a class that were kept are kept again. -/
theorem Wrote.kept {s : ClassSkeleton} {table : BootstrapTable} {bootstrap : List Attribute}
    (wrote : c.Wrote hierarchy .none t s bootstrap) (written : BootstrapWritten table bootstrap)
    (kept : ∀ a ∈ c.attributes, a.roleInClass .all = .kept) :
    (s.attributes.filter fun a => a.roleInClass .all == .kept) = c.attributes := by
  obtain ⟨visible, invisible, all, shown, hidden⟩ := wrote.attributes
  have behind : (bootstrap.filter fun a => a.roleInClass .all == .kept) = [] := by
    rcases written with ⟨-, rfl⟩ | ⟨body, -, rfl⟩ <;> rfl
  rw [all, List.filter_append, behind, List.append_nil]
  refine filter_kept (fun a member => ?_) fun a member => beq_iff_eq.2 (kept a member)
  rcases List.mem_append.1 member with member | member
  · rw [a.roleInClass_visible .all (shown.names a member)]
    rfl
  · rw [a.roleInClass_invisible .all (hidden.names a member)]
    rfl

/-- **A method is read back alike.** -/
theorem Rereadable.exists_method (ready : c.Rereadable) {m : Method} (inside : m ∈ c.methods)
    {part : Field} (written : c.MethodWritten hierarchy .none t m part) :
    ∃ m', decodeMethod t.pool t.bootstrap .all c.name part = .ok m' ∧ m.Alike c.major m' := by
  obtain ⟨m', decoded, survives⟩ := decodeMethod_written ready.clean inside written
    (ready.readable m inside) (ready.keys m inside)
  have annotations : m'.annotations = m.annotations := Except.ok.inj
    ((Annotations.ofAttributes_of_decodeMethod decoded).symm.trans (written.annotations
      (ready.clean.methodAnnotations m inside) (ready.clean.methodAttributes m inside)))
  have attributes : m'.attributes = m.attributes := (attributes_of_decodeMethod decoded).trans
    (written.kept (ready.clean.methodAttributes m inside))
  refine ⟨m', decoded, survives.access, survives.name, survives.desc, annotations, attributes, ?_⟩
  refine survives.body.imp_right fun ⟨code, code', known, known', placed, view⟩ => ?_
  have readable := ready.readable m inside code known
  -- The rows for lines are written in the order of their marks, which a view does not know; a body
  -- that was read has its marks in the order of their places.
  have ordered' := (body_of_decodeMethod decoded code' known').ordered
  refine ⟨code, code', known, known', Code.encode_congr ?_ readable.placed placed
    (ready.ordered m inside code known) ordered'⟩
  rw [view, BodyView.written_written]

variable {bytes : Bytes} {tables : ConstantTables} {header : Header} {s : ClassSkeleton}
  {bootstrap : List Attribute}

/-- **A class is read back alike**, with the constants that it ended with. -/
theorem Encoded.exists_alike (ready : c.Rereadable)
    (encoded : c.Encoded hierarchy .none bytes tables header s bootstrap) :
    ∃ d, decode .all bytes = .ok d ∧ c.Alike d ∧ d.constants.pool = header.pool
      ∧ d.constants.bootstrap.methods = tables.bootstrap.methods := by
  have clean := ready.clean
  obtain ⟨read, same, wrote, reading⟩ := encoded.exists_read clean.annotations clean.attributes
  have each := (List.forall₂_and_left _ _).2
    ⟨fun m (inside : m ∈ c.methods) => inside, wrote.members⟩
  obtain ⟨methods, alike, decoded⟩ := Traverse.forall₂_exists
    (each.imp fun m part ⟨inside, written⟩ =>
      (ready.exists_method inside written).imp fun m' both => both.symm)
  rw [Traverse.mapM_eq_ok_iff.2 decoded] at reading
  refine ⟨_, reading, ⟨rfl, rfl, wrote.access, wrote.name, wrote.superName, wrote.interfaces,
    wrote.fields, alike, ?_, wrote.kept encoded.methods clean.attributes⟩, rfl, same⟩
  have made := (encoded.reading .all).symm.trans reading
  exact Except.ok.inj ((Annotations.ofAttributes_of_interpret made).symm.trans
    (encoded.annotations clean).1)

/-- What is read back is written to the bytes that it was read from. -/
theorem Rereadable.encode_again (ready : c.Rereadable)
    (written : c.encode hierarchy .none = .ok bytes) :
    ∃ d, decode .all bytes = .ok d ∧ d.encode hierarchy .none = .ok bytes := by
  have clean := ready.clean
  obtain ⟨tables, header, s, bootstrap, encoded⟩ :=
    encoded_of_encode clean.constants.wellFormed clean.old clean.new written
  obtain ⟨d, read, alike, pool, methods⟩ := encoded.exists_alike ready
  have slots : d.constants.pool.slots = tables.pool.slots := by
    rw [pool, encoded.slots]
  have grown : tables ≤ d.constants :=
    ⟨slots.symm ▸ List.prefix_refl _, methods.symm ▸ List.prefix_refl _⟩
  -- Nothing is added to the constants any more, so both bodies stand behind the same ones.
  have again := encodeBody_again hierarchy .none clean.annotations clean.methodAnnotations
    clean.constants.wellFormed encoded.body (wellFormed_of_decode read).1 grown methods
  refine ⟨d, read, ?_⟩
  rw [encode_of_body (alike.refines_encodeBody hierarchy _ _ _ again), alike.minor, alike.major,
    Header.encode_congr slots, ← encode_of_body encoded.body]
  exact written

/-! ### The fixed point -/

/-- **Writing reaches a fixed point after one step.**  A class that was read is written, with
nothing computed anew.  Then what was written can be read, and is written to the same bytes. -/
theorem encode_decode_encode (read : decode .all bytes = .ok c) {bytes' : Bytes}
    (written : c.encode hierarchy .none = .ok bytes') :
    ∃ c', decode .all bytes' = .ok c' ∧ c'.encode hierarchy .none = .ok bytes' :=
  (rereadable_canonical read).encode_again ((alike_canonical read).encode rfl written)

/-! ### A class from another writer -/

-- Powers of numbers are those of the core library, whatever algebra is imported beside them.
attribute [local instance (high)] instPowNat

/-- The loop as another writer has it: the store and the jump take long forms, and the frames short
ones. -/
def spelledBytes : Bytes :=
  [0, 1, 0, 1, 0, 0, 0, 9, 0x03, 0x36, 0, 0xC8, 0xFF, 0xFF, 0xFF, 0xFD, 0xBF,
    0, 1, 0, 0, 0, 3, 0, 8, 0, 2, 0, 3,
    0, 11, 0, 0, 0, 7, 0, 2, 0, 71, 7, 0, 2,
    0, 9, 0, 0, 0, 12, 0, 1, 0, 3, 0, 5, 0, 5, 0, 10, 0, 0,
    0, 8, 0, 0, 0, 6, 0, 1, 0, 0, 0, 7]

/-- Its instructions, and what its tables say. -/
def spelledCode : List (Nat × Instruction) :=
  [(0, .op Opcode.iconst0 .none), (1, .op Opcode.istore (.var 0)),
    (3, .op Opcode.goto (.jump ⟨0⟩)), (8, .op Opcode.athrow .none)]

def spelledMarks : Marks where
  mentioned := [0, 8, 3, 8, 0, 8, 3, 0, 0]
  lines := [(0, 7)]
  frames := [(8, ⟨[], [.object "A"]⟩), (0, ⟨[], []⟩)]
  localVariables := [((3, 5, 0), ⟨"m", "I", none, ⟨3⟩, ⟨8⟩, 0⟩)]
  signatures := ∅

/-- The offsets that are mentioned have numbers in the order of the first mention. -/
theorem numbering_spelled : (Numbering.ofMentions spelledMarks.mentioned.reverse).size = 3
    ∧ ∀ o, (Numbering.ofMentions spelledMarks.mentioned.reverse)[o]?
      = if 8 = o then some 2 else if 3 = o then some 1 else if 0 = o then some 0 else none := by
  constructor
  · simp [Numbering.ofMentions, spelledMarks, Numbering.mention, Std.HashMap.size_insertIfNew]
  · intro o
    simp [Numbering.ofMentions, spelledMarks, Numbering.mention, Std.HashMap.size_insertIfNew,
      Std.HashMap.getElem?_insertIfNew]

section Numbered

variable {numbering : Numbering} (size : numbering.size = 3)
  (known : ∀ o, numbering[o]? = if 8 = o then some 2 else if 3 = o then some 1
    else if 0 = o then some 0 else none)

include known in
theorem label_spelled (o : Nat) : numbering.label ⟨o⟩ = ⟨(if 8 = o then some 2
    else if 3 = o then some 1 else if 0 = o then some 0 else none).getD 0⟩ := by
  rw [Numbering.label, Std.HashMap.getD_eq_getD_getElem?, known]

include size known in
/-- With these numbers the instructions are those of the loop again. -/
theorem sequence_spelled :
    spelledMarks.sequence numbering 9 spelledCode = looping.instructions := by
  have lines : ∀ o, spelledMarks.linesByOffset.getD o [] = if 0 = o then [7] else [] := fun o => by
    simp [Marks.linesByOffset, spelledMarks, Std.HashMap.getD_insert]
  have frames : ∀ o, (Std.HashMap.ofList spelledMarks.frames)[o]? = if 0 = o then some ⟨[], []⟩
      else if 8 = o then some ⟨[], [.object "A"]⟩ else none := fun o => by
    rw [spelledMarks, Std.HashMap.ofList_cons, Std.HashMap.insertMany_cons,
      Std.HashMap.insertMany_nil]
    simp [Std.HashMap.getElem?_insert]
  unfold Marks.sequence
  rw [size, known]
  simp [Marks.marksAt, lines, frames, label_spelled known, known, spelledCode, looping,
    Instruction.mapLabels, Operand.mapLabels, Frame.mapLabels, VerificationType.mapLabels]

end Numbered

theorem assemble_spelled :
    Code.assemble 1 1 9 spelledCode [⟨⟨0⟩, ⟨3⟩, ⟨8⟩, some "A"⟩] spelledMarks = .ok looping := by
  have boundaries : spelledMarks.strayOffset? 9 (spelledCode.map (·.1)) = none := by
    simp [Marks.strayOffset?, spelledMarks, spelledCode]
  have named : spelledMarks.variablesWithSignatures = [⟨"m", "I", none, ⟨3⟩, ⟨8⟩, 0⟩] := by
    simp [Marks.variablesWithSignatures, spelledMarks, Marks.takeSignature]
  obtain ⟨size, known⟩ := numbering_spelled
  unfold Code.assemble
  rw [boundaries, named]
  dsimp only
  rw [sequence_spelled size known]
  simp [label_spelled known, looping, ExceptionRange.mapLabels, LocalVariable.mapLabels]

/-- The tables behind the code, for which the entry frame has to be known. -/
theorem tables_spelled (lookup : Std.HashMap Entry UInt16) (table : BootstrapTable) :
    Code.tables ⟨⟨smallHeader.pool.slots, lookup⟩, table, 9⟩ ⟨"A", 0x0009, "m", "()V"⟩ spelledCode
      ⟨17, spelledBytes.drop 17⟩
        = .ok (([⟨⟨0⟩, ⟨3⟩, ⟨8⟩, some "A"⟩], spelledMarks), ⟨72, []⟩) := by
  have ranges : Decoder.table (Code.decodeRange ⟨⟨smallHeader.pool.slots, lookup⟩, table, 9⟩)
      ⟨17, spelledBytes.drop 17⟩
        = .ok ([⟨⟨0⟩, ⟨3⟩, ⟨8⟩, some "A"⟩], ⟨27, spelledBytes.drop 27⟩) := rfl
  refine (Decoder.bind_of_ok ranges).trans ?_
  refine (Decoder.bind_of_ok (d := Decoder.word) rfl).trans ?_
  rfl

/-- **The loop is read** from these bytes, too. -/
theorem decode_spelled (lookup : Std.HashMap Entry UInt16) (table : BootstrapTable) :
    Code.decode ⟨smallHeader.pool.slots, lookup⟩ table ⟨"A", 0x0009, "m", "()V"⟩ .all spelledBytes
      = .ok looping := by
  have head : Code.head (.start spelledBytes)
      = .ok ((1, 1, 9, [0x03, 0x36, 0, 0xC8, 0xFF, 0xFF, 0xFF, 0xFD, 0xBF]),
        ⟨17, spelledBytes.drop 17⟩) := rfl
  have code : BytecodeContext.instructions ⟨⟨smallHeader.pool.slots, lookup⟩, table, 9⟩
      [0x03, 0x36, 0, 0xC8, 0xFF, 0xFF, 0xFF, 0xFD, 0xBF] = .ok spelledCode := rfl
  have length : (9 : UInt32).toNat = 9 := rfl
  have rest : Code.rest ⟨smallHeader.pool.slots, lookup⟩ table ⟨"A", 0x0009, "m", "()V"⟩
      (1, 1, 9, [0x03, 0x36, 0, 0xC8, 0xFF, 0xFF, 0xFF, 0xFD, 0xBF])
      ⟨17, spelledBytes.drop 17⟩ = .ok (looping, ⟨72, []⟩) := by
    refine (Decoder.bind_of_ok (d := Decoder.ofExcept _) (by rw [length, code]; rfl)).trans ?_
    refine (Decoder.bind_of_ok (tables_spelled lookup table)).trans ?_
    rw [length, assemble_spelled]
    rfl
  unfold Code.decode onBytes
  rw [Code.decoder_eq, Decoder.bind_of_ok head, rest]

/-- The attributes of the small class in another order. -/
def swapped : Bytes :=
  [0, 2, 0, 3, 0, 0, 0, 6, 0, 1, 0, 2, 0, 0, 0, 4, 0, 0, 0, 3, 1, 2, 3]

/-- The parts of such a class, whatever its body is. -/
theorem reads_classBytes (lookup : Std.HashMap Entry UInt16) {behind body : Bytes}
    {attributes : List Attribute} (short : body.length < 2 ^ (32 : Nat))
    (rest : Reads (Header.decodeAttributes ⟨smallHeader.pool.slots, lookup⟩) behind attributes) :
    Reads (ClassSkeleton.decoder ⟨smallHeader.pool.slots, lookup⟩) (classBytes behind body)
      ⟨0x21, "A", none, [], [], [⟨0x0009, "m", "()V", [⟨"Code", body⟩]⟩], attributes⟩ := by
  have chunk := Attribute.IsChunk.reads (t := ⟨⟨smallHeader.pool.slots, lookup⟩, .empty⟩)
    ⟨7, rfl, short, rfl⟩ (a := ⟨"Code", body⟩)
  have member : Reads (decodeMember ⟨smallHeader.pool.slots, lookup⟩) (methodBytes body)
      ⟨0x0009, "m", "()V", [⟨"Code", body⟩]⟩ := by
    have listed := Reads.table (.cons chunk .nil) (by simp)
    rw [List.flatten_singleton] at listed
    exact (Reads.word (0x0009 : UInt16)).bind ((reads_decodeText (i := 5) rfl).bind
      ((reads_decodeText (i := 6) rfl).bind (listed.bind_pure (Reads.pure _))))
  have members := Reads.table (.cons member .nil) (by simp)
  rw [List.flatten_singleton] at members
  have name : Reads (decodeClassName ⟨smallHeader.pool.slots, lookup⟩)
      (Word.encode (2 : UInt16)) "A" := (Reads.word 2).bind_pure (Reads.ofExcept rfl)
  have interfaces := Reads.table (d := decodeClassName ⟨smallHeader.pool.slots, lookup⟩) .nil
    (by simp)
  have fields := Reads.table (d := decodeMember ⟨smallHeader.pool.slots, lookup⟩) .nil (by simp)
  exact (Reads.word (0x0021 : UInt16)).bind (name.bind ((Reads.word (0 : UInt16)).bind
    ((Reads.ofExcept rfl).pure_bind (interfaces.bind (fields.bind (members.bind
      (rest.bind_pure (Reads.pure _))))))))

/-- The small class with the loop is read from what another writer made of it. -/
theorem decode_spelledClass : ∃ bytes pool,
    Header.encode { smallHeader with body := classBytes swapped spelledBytes } = .ok bytes
      ∧ pool.slots = smallHeader.pool.slots
      ∧ decode .all bytes = .ok (smallWithBody looping pool) := by
  have read : ∀ lookup, (bodyDecoder .all 0 52 ⟨smallHeader.pool.slots, lookup⟩).onBytes
      (classBytes swapped spelledBytes)
        = .ok (smallWithBody looping ⟨smallHeader.pool.slots, lookup⟩) := fun lookup => by
    have attributes : Reads (Header.decodeAttributes ⟨smallHeader.pool.slots, lookup⟩) swapped
        [⟨"BootstrapMethods", [0, 1, 0, 2, 0, 0]⟩, ⟨"X", [1, 2, 3]⟩] := fun _ _ => rfl
    have method : decodeMethod ⟨smallHeader.pool.slots, lookup⟩ (.push .empty ⟨2, []⟩) .all "A"
        ⟨0x0009, "m", "()V", [⟨"Code", spelledBytes⟩]⟩
          = .ok ⟨0x0009, "m", "()V", .empty, some looping, []⟩ := by
      refine (foldlM_code ⟨⟨smallHeader.pool.slots, lookup⟩, _⟩ "A" spelledBytes rfl).trans ?_
      rw [decode_spelled]
      rfl
    rw [ClassSkeleton.onBytes_bodyDecoder (reads_classBytes lookup (by decide) attributes)]
    exact Traverse.bind_eq_ok_iff.2 ⟨⟨_, .empty⟩, rfl,
      Traverse.bind_eq_ok_iff.2 ⟨_, Traverse.mapM_eq_ok_iff.2 (.cons method .nil), rfl⟩⟩
  obtain ⟨bytes, pool, encoded, slots, -, decoded⟩ :=
    decode_smallPool .all (smallWithBody looping) _ read
  exact ⟨bytes, pool, encoded, slots, decoded⟩

/-- The small class with the loop gets the form of the writer once, and keeps it. -/
theorem encode_decode_encode_small : ∃ bytes c bytes', decode .all bytes = .ok c
    ∧ (∃ m ∈ c.methods, ∃ code, m.code = some code ∧ code.handlers ≠ [] ∧ code.localVariables ≠ [])
    ∧ c.encode .flat .none = .ok bytes' ∧ bytes' ≠ bytes
    ∧ ∃ c', decode .all bytes' = .ok c' ∧ c'.encode .flat .none = .ok bytes' := by
  obtain ⟨bytes, pool, encoded, slots, read⟩ := decode_spelledClass
  have wf : (small pool).constants.WellFormed := (wellFormed_of_decode read).1
  have own := encode_smallWithBody slots wf (encode_looping slots wf) (by decide)
  obtain ⟨bytes', written⟩ := exists_encode_smallWithBody slots wf (encode_looping slots wf)
    (by decide)
  refine ⟨bytes, smallWithBody looping pool, bytes', read,
    ⟨_, List.mem_singleton_self _, looping, rfl, List.cons_ne_nil _ _, List.cons_ne_nil _ _⟩,
    written, ?_, encode_decode_encode read written⟩
  rintro rfl
  have same : classBytes swapped spelledBytes
      = classBytes (smallHeader.body.drop 12) loopingBytes :=
    List.append_cancel_left (Except.ok.inj (encoded.trans (written.symm.trans own)))
  exact absurd same (by decide)

end ClassFile

end ClassInstrument
