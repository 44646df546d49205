import ClassInstrument.Proofs.ClassFile.Outside
import ClassInstrument.Proofs.Code.NormalForm

/-!
# Bodies that are written but not read

The writer checks operands against opcodes by ranges of bytes, the reader by others.  What the
writer accepts is read back, with three exceptions: a body without instructions, a byte that names
no instruction, and a switch over a range with no keys are written, but a class file with one of
them is refused.  And a byte that names a low variable is written as it stands, but comes back as
the general instruction with that variable.  Nothing else is lost, whatever stands in a body: labels
that are placed twice or not at all, frames and lines in any order, handles of any kind.

* `ClassFile.Plain` — what is asked of a class, and nothing of its bodies but the nesting of
  constants;
* `ClassFile.normalized` — the class with its bodies in normal form, which has the same class file;
* `ClassFile.Accepted` — what becomes of a class that the writer accepts;
* `Plain.takes_or_bare`, `Plain.readable`, `Plain.shapes`, `Plain.shapes_iff` — one part of it each;
* `ClassFile.accepted_of_encode` — **every class that the writer accepts**.
-/

namespace ClassInstrument

open Decoder

/-- A method with its body in normal form. -/
def Method.normalized (m : Method) : Method := { m with code := m.code.map Code.normalized }

namespace ClassFile

/-- What is asked of a class whose bodies may hold anything: it is clean, its descriptors can be
parsed, and computed constants are nested no deeper than they are followed. -/
structure Plain (c : ClassFile) : Prop where
  clean : c.Clean
  typed : ∀ m ∈ c.methods, ∃ type, methodType m.desc = .ok type
  shallow : ∀ m ∈ c.methods, ∀ code, m.code = some code → ∀ op operand,
    .op op operand ∈ code.instructions.toList → operand.Shallow

/-- A class with its bodies in normal form. -/
def normalized (c : ClassFile) : ClassFile := { c with methods := c.methods.map Method.normalized }

/-- What becomes of a class that the writer accepts, with some bytes. -/
structure Accepted (c : ClassFile) (bytes : Bytes) : Prop where
  /-- The writer accepts no operand that does not belong to its opcode; but without an operand it
  accepts bytes that name a low variable, or no instruction. -/
  operands : ∀ m ∈ c.methods, ∀ code, m.code = some code → ∀ op operand,
    .op op operand ∈ code.instructions.toList → op.Takes operand
      ∨ operand = .none ∧ (op.form? = none ∨ ∃ general v, op.form? = some (.shortVariable general v))
  /-- The bytes are read if and only if all bodies are legible. -/
  readable : (∃ d, decode .all bytes = .ok d)
    ↔ ∀ m ∈ c.methods, ∀ code, m.code = some code → code.Legible
  /-- What is read has the opcodes and the kinds of operands of the normal form. -/
  shapes : ∀ d, decode .all bytes = .ok d → List.Forall₂ (fun m m' =>
    m'.code.map Code.shapes = m.code.map fun code => code.normalized.shapes) c.methods d.methods
  /-- All of them come back as they were if and only if, moreover, no byte names a low variable. -/
  faithful : (∃ d, decode .all bytes = .ok d ∧ List.Forall₂ (fun m m' =>
      m'.code.map Code.shapes = m.code.map Code.shapes) c.methods d.methods)
    ↔ ∀ m ∈ c.methods, ∀ code, m.code = some code → code.Legible ∧ code.General

variable {c : ClassFile} {hierarchy : Hierarchy}

theorem Clean.normalized (clean : c.Clean) : c.normalized.Clean where
  constants := clean.constants
  old := clean.old
  new := clean.new
  annotations := clean.annotations
  attributes := clean.attributes
  methodAnnotations := List.forall_mem_map.2 fun m inside => clean.methodAnnotations m inside
  methodAttributes := List.forall_mem_map.2 fun m inside => clean.methodAttributes m inside

/-- A class is written as its normal form is. -/
theorem alike_normalized (c : ClassFile) : c.Alike c.normalized where
  minor := rfl
  major := rfl
  access := rfl
  name := rfl
  superName := rfl
  interfaces := rfl
  fields := rfl
  annotations := rfl
  attributes := rfl
  methods := by
    refine List.forall₂_map_right_iff.2 (List.forall₂_same.2 fun m inside => ?_)
    refine ⟨rfl, rfl, rfl, rfl, rfl, ?_⟩
    cases known : m.code with
    | none => exact .inl ⟨rfl, congrArg (Option.map Code.normalized) known⟩
    | some code => exact .inr ⟨code, code.normalized, rfl,
        congrArg (Option.map Code.normalized) known, code.encode_normalized c.major⟩

/-! ### One method -/

section Method

variable {m : Method} {t : ConstantTables} {part : Field}

/-- A body that was written has operands that belong to their opcodes, or none. -/
theorem MethodWritten.takes_or_bare (written : c.MethodWritten hierarchy .none t m part)
    {code : Code} (known : m.code = some code) {op : Opcode} {operand : Operand}
    (inside : .op op operand ∈ code.instructions.toList) : op.Takes operand
      ∨ operand = .none
        ∧ (op.form? = none ∨ ∃ general v, op.form? = some (.shortVariable general v)) := by
  obtain ⟨attributes, -, -, -, wrote, -⟩ := written.attributes
  rcases wrote with ⟨plain, -⟩ | ⟨_, _, bytes, known', same, -, items, layout, body, behind, whole⟩
  · cases plain.symm.trans known
  · cases same
    cases known.symm.trans known'
    rw [← whole.laid.same] at inside
    obtain ⟨p, member, own⟩ := List.mem_map.1 inside
    obtain ⟨chunk, written⟩ := whole.exists_bytes member
    obtain ⟨offset, insn, index, far⟩ := p
    cases own
    exact (Item.takes_or_bare written).imp_right fun ⟨bare, _, form⟩ => ⟨bare, form⟩

variable (plain : c.Plain) (inside : m ∈ c.methods)
  (written : c.normalized.MethodWritten hierarchy .none t m.normalized part)

include plain inside written in
/-- **A method is read if its body is legible**, and then has the shapes of the normal form. -/
theorem Plain.method : ((∃ m', decodeMethod t.pool t.bootstrap .all c.name part = .ok m')
      ↔ ∀ code, m.code = some code → code.Legible)
    ∧ ∀ m', decodeMethod t.pool t.bootstrap .all c.name part = .ok m' →
      m'.code.map Code.shapes = m.code.map fun code => code.normalized.shapes := by
  have clean := plain.clean.normalized
  have inside' : m.normalized ∈ c.normalized.methods := List.mem_map_of_mem inside
  cases known : m.code with
  | none =>
    obtain ⟨m', read, none⟩ := written.plain clean inside'
      (congrArg (Option.map Code.normalized) known)
    refine ⟨⟨fun _ code h => (nomatch h), fun _ => ⟨m', read⟩⟩, fun m'' read' => ?_⟩
    cases read.symm.trans read'
    rw [none]
    rfl
  | some code =>
    obtain ⟨type, typed⟩ := plain.typed m inside
    have entry : ∀ frame, .frame frame ∈ code.normalized.instructions.toList →
        ∃ entry, (c.header m).entryFrame = .ok entry := fun _ _ =>
      ⟨_, Traverse.bind_eq_ok_iff.2 ⟨type, typed, rfl⟩⟩
    have normal := Code.normal_normalized (plain.shallow m inside code known)
    obtain ⟨bytes, items, layout, body, behind, whole, outcome⟩ :=
      written.withBody clean inside' (congrArg (Option.map Code.normalized) known)
    have legible := (whole.isOk_decode_iff entry normal).trans code.legible_normalized
    rcases outcome with ⟨e, refused, error⟩ | ⟨code', m', accepted, read, own⟩
    · have illegible : ¬code.Legible := fun legible' => by
        obtain ⟨code', accepted⟩ := legible.2 legible'
        cases accepted.symm.trans refused
      refine ⟨⟨fun ⟨m', read⟩ => ?_, fun all => absurd (all code rfl) illegible⟩, fun m' read => ?_⟩
      · cases read.symm.trans error
      · cases read.symm.trans error
    · refine ⟨⟨fun _ _ same => ?_, fun _ => ⟨m', read⟩⟩, fun m'' read' => ?_⟩
      · cases same
        exact legible.1 ⟨code', accepted⟩
      · cases read.symm.trans read'
        rw [own]
        exact congrArg some (Code.shapes_of_decode whole entry normal accepted)

end Method

/-! ### The whole class -/

section Class

variable (plain : c.Plain) {bytes : Bytes} (h : c.encode hierarchy .none = .ok bytes)

include plain h

/-- What belongs to its opcode, or is missing, in one body or another. -/
theorem Plain.takes_or_bare {m : Method} (inside : m ∈ c.methods) {code : Code}
    (known : m.code = some code) {op : Opcode} {operand : Operand}
    (member : .op op operand ∈ code.instructions.toList) : op.Takes operand
      ∨ operand = .none
        ∧ (op.form? = none ∨ ∃ general v, op.form? = some (.shortVariable general v)) := by
  obtain ⟨tables, header, s, bootstrap, encoded⟩ := encoded_of_encode
    plain.clean.constants.wellFormed plain.clean.old plain.clean.new h
  obtain ⟨part, -, own⟩ :=
    Traverse.exists_of_mem_right (encoded.wrote tables.bootstrap rfl).members.flip inside
  exact own.takes_or_bare known member

/-- The methods as they were written, in normal form, with what reads them all. -/
theorem Plain.exists_parts : ∃ t parts, List.Forall₂ (fun m part => m ∈ c.methods
      ∧ c.normalized.MethodWritten hierarchy .none t m.normalized part) c.methods parts
    ∧ ((∃ d, decode .all bytes = .ok d)
      ↔ ∃ methods, parts.mapM (decodeMethod t.pool t.bootstrap .all c.name) = .ok methods)
    ∧ ∀ d, decode .all bytes = .ok d →
      parts.mapM (decodeMethod t.pool t.bootstrap .all c.name) = .ok d.methods := by
  obtain ⟨t, parts, written, read, parsed⟩ :=
    decode_of_encode plain.clean.normalized (c.alike_normalized.encode rfl h)
  rw [show c.normalized.methods = c.methods.map Method.normalized from rfl,
    List.forall₂_map_left_iff] at written
  have each := (List.forall₂_and_left _ _).2 ⟨fun m (inside : m ∈ c.methods) => inside, written⟩
  exact ⟨t, parts, each, read, parsed⟩

/-- The class is read if and only if its bodies are legible. -/
theorem Plain.readable : (∃ d, decode .all bytes = .ok d)
    ↔ ∀ m ∈ c.methods, ∀ code, m.code = some code → code.Legible := by
  obtain ⟨t, parts, each, read, -⟩ := plain.exists_parts h
  rw [read]
  constructor
  · rintro ⟨methods, all⟩ m inside code known
    obtain ⟨part, member, inside, own⟩ := Traverse.exists_of_mem_right each.flip inside
    obtain ⟨m', -, decoded⟩ :=
      Traverse.exists_of_mem_right (Traverse.mapM_eq_ok_iff.1 all).flip member
    exact (plain.method inside own).1.1 ⟨m', decoded⟩ code known
  · intro legible
    refine Traverse.exists_mapM fun part member => ?_
    obtain ⟨m, -, inside, own⟩ := Traverse.exists_of_mem_right each member
    exact (plain.method inside own).1.2 (legible m inside)

/-- What is read has the shapes of the normal form. -/
theorem Plain.shapes {d : ClassFile} (hd : decode .all bytes = .ok d) :
    List.Forall₂ (fun m m' =>
      m'.code.map Code.shapes = m.code.map fun code => code.normalized.shapes)
        c.methods d.methods := by
  obtain ⟨t, parts, each, -, parsed⟩ := plain.exists_parts h
  exact Traverse.forall₂_trans (fun m part m' ⟨inside, own⟩ decoded =>
    (plain.method inside own).2 m' decoded) each (Traverse.mapM_eq_ok_iff.1 (parsed d hd))

/-- The shapes are those of the class itself if and only if its opcodes are general ones. -/
theorem Plain.shapes_iff {d : ClassFile} (hd : decode .all bytes = .ok d) :
    List.Forall₂ (fun m m' => m'.code.map Code.shapes = m.code.map Code.shapes) c.methods d.methods
      ↔ ∀ m ∈ c.methods, ∀ code, m.code = some code → code.General := by
  have shapes := plain.shapes h hd
  constructor
  · intro same m inside code known
    have fixed := List.forall₂_same.1 (Traverse.forall₂_trans
      (T := fun m n => m.code.map (fun code => code.normalized.shapes) = n.code.map Code.shapes)
      (fun m m' n normal own => normal.symm.trans own) shapes same.flip) m inside
    rw [known] at fixed
    exact code.shapes_normalized_eq_iff.1 (Option.some.inj fixed)
  · intro general
    have both := (List.forall₂_and_left _ _).2 ⟨fun m (inside : m ∈ c.methods) => inside, shapes⟩
    refine both.imp fun m m' ⟨inside, same⟩ => same.trans ?_
    cases known : m.code with
    | none => rfl
    | some code =>
      exact congrArg some (code.shapes_normalized_eq_iff.2 (general m inside code known))

/-- **Every class that the writer accepts** is read if and only if its bodies are legible, and has
then all its opcodes and kinds of operands, in normal form. -/
theorem accepted_of_encode : c.Accepted bytes where
  operands m inside code known op operand member := plain.takes_or_bare h inside known member
  readable := plain.readable h
  shapes d hd := plain.shapes h hd
  faithful := by
    constructor
    · rintro ⟨d, hd, same⟩ m inside code known
      exact ⟨(plain.readable h).1 ⟨d, hd⟩ m inside code known,
        (plain.shapes_iff h hd).1 same m inside code known⟩
    · intro good
      obtain ⟨d, hd⟩ :=
        (plain.readable h).2 fun m inside code known => (good m inside code known).1
      exact ⟨d, hd, (plain.shapes_iff h hd).2 fun m inside code known =>
        (good m inside code known).2⟩

end Class

/-- A class with a byte that names no instruction is written, but it is not read. -/
theorem accepted_unknown : ∃ c bytes, Plain c ∧ c.encode .flat .none = .ok bytes ∧ c.Accepted bytes
    ∧ ¬∃ d, decode .all bytes = .ok d := by
  obtain ⟨original, pool, slots, read⟩ := decode_small
  obtain ⟨bytes, written⟩ := exists_encode_smallWithBody slots (wellFormed_of_decode read).1
    (encode_alone 0xCB (fun _ => rfl) _) (by simp [aloneBytes])
  have plain : (smallWithBody (alone 0xCB) pool).Plain := by
    refine ⟨clean_smallWithBody read _, fun m inside => ?_, fun m inside code known => ?_⟩
    · cases List.mem_singleton.1 inside
      exact ⟨_, rfl⟩
    · cases List.mem_singleton.1 inside
      cases known
      intro op operand member
      cases List.mem_singleton.1 member
      trivial
  have accepted := accepted_of_encode plain written
  refine ⟨_, bytes, plain, written, accepted, fun reads => ?_⟩
  obtain ⟨-, legible⟩ := accepted.readable.1 reads _ (List.mem_singleton.2 rfl) _ rfl
  exact (legible _ (List.mem_singleton.2 rfl) 0xCB .none rfl).1 (by decide)

end ClassFile

end ClassInstrument
