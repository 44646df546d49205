import ClassInstrument.ClassFile.Decode
import ClassInstrument.Proofs.Bytes.Reads

/-!
# Classes with undecoded attributes

Reading a class has two halves.  The first takes the bytes apart into names, members and
attributes; the second interprets the attributes and reads no more bytes.

* `ClassSkeleton`, `ClassSkeleton.decoder` — the first half;
* `ClassSkeleton.build`, `ClassSkeleton.interpret` — the second half;
* `ClassSkeleton.onBytes_of_parts` — **together they read a class**;
* `ClassSkeleton.exists_parts`, `ClassSkeleton.exists_of_decode` — the parts that a class was decoded
  from.
-/

namespace ClassInstrument

open Decoder

/-- A class whose attributes, and those of its members, are undecoded. -/
structure ClassSkeleton where
  access : Access
  name : String
  superName : Option String
  interfaces : List String
  fields : List Field
  members : List Field
  attributes : List Attribute

/-- What the attributes of a class say does not depend on what a reader leaves out. -/
theorem ClassFile.classAttribute_options (options options' : ReadOptions) (pool : Pool) :
    classAttribute pool options = classAttribute pool options' := by
  funext s a
  unfold classAttribute Attribute.roleInClass
  split_ifs <;> rfl

namespace ClassSkeleton

open ClassFile

/-- The parts of a class behind its constant pool. -/
def decoder (pool : Pool) : Decoder ClassSkeleton := do
  let access ← Decoder.word
  let name ← decodeClassName pool
  let superIndex ← Decoder.word
  let superName ← Decoder.ofExcept (pool.optionalClassName superIndex)
  let interfaces ← Decoder.table (decodeClassName pool)
  let fields ← Decoder.table (decodeMember pool)
  let members ← Decoder.table (decodeMember pool)
  let attributes ← Header.decodeAttributes pool
  return { access, name, superName, interfaces, fields, members, attributes }

/-- A class from its parts, once their attributes are decoded. -/
def build (options : ReadOptions) (minor major : UInt16) (pool : Pool) (s : ClassSkeleton)
    (read : ClassAttributes) (methods : List Method) : ClassFile where
  minor := minor
  major := major
  access := s.access
  name := s.name
  superName := s.superName
  interfaces := s.interfaces
  fields := s.fields
  methods := methods
  annotations := read.annotations
  attributes := s.attributes.filter fun a => a.roleInClass options == .kept
  constants := ⟨pool, read.bootstrap⟩

/-- What is done with the parts, once they are all that the bytes hold. -/
def finish (options : ReadOptions) (minor major : UInt16) (pool : Pool) (s : ClassSkeleton) :
    Decoder ClassFile := do
  let read ← Decoder.ofExcept (s.attributes.foldlM (classAttribute pool options) ⟨.empty, .empty⟩)
  let complete ← Decoder.atEnd
  if !complete then Decoder.malformed .trailingData
  else
    let methods ← Decoder.ofExcept
      (s.members.mapM (decodeMethod pool read.bootstrap options s.name))
    return s.build options minor major pool read methods

theorem bodyDecoder_eq (options : ReadOptions) (minor major : UInt16) (pool : Pool) :
    bodyDecoder options minor major pool
      = decoder pool >>= finish options minor major pool := by
  simp only [bodyDecoder, decoder, bind_assoc, pure_bind]
  rfl

/-- The class that the parts make up. -/
def interpret (options : ReadOptions) (minor major : UInt16) (pool : Pool) (s : ClassSkeleton) :
    Except Failure ClassFile := do
  let read ← s.attributes.foldlM (classAttribute pool options) ⟨.empty, .empty⟩
  let methods ← s.members.mapM (decodeMethod pool read.bootstrap options s.name)
  .ok (s.build options minor major pool read methods)

theorem finish_atEnd (options : ReadOptions) (minor major : UInt16) (pool : Pool)
    (s : ClassSkeleton) (position : Nat) :
    (finish options minor major pool s ⟨position, []⟩).map Prod.fst
      = interpret options minor major pool s := by
  unfold finish interpret
  rw [bind_eq]
  cases s.attributes.foldlM (classAttribute pool options) ⟨.empty, .empty⟩ with
  | error e => rfl
  | ok read =>
    show ((Decoder.ofExcept (s.members.mapM (decodeMethod pool read.bootstrap options s.name))
      >>= fun methods => (pure (s.build options minor major pool read methods) : Decoder ClassFile))
        (Cursor.mk position [])).map Prod.fst
      = (s.members.mapM (decodeMethod pool read.bootstrap options s.name) >>= fun methods =>
        Except.ok (s.build options minor major pool read methods))
    rw [bind_eq]
    cases s.members.mapM (decodeMethod pool read.bootstrap options s.name) with
    | error e => rfl
    | ok methods => rfl

/-- **The class that some bytes hold** is what their parts make up, if these are all. -/
theorem onBytes_of_parts (options : ReadOptions) (minor major : UInt16) {pool : Pool} {bytes : Bytes}
    {s : ClassSkeleton} {position : Nat}
    (parts : decoder pool (Cursor.start bytes) = .ok (s, ⟨position, []⟩)) :
    (bodyDecoder options minor major pool).onBytes bytes
      = interpret options minor major pool s := by
  rw [bodyDecoder_eq, ← finish_atEnd options minor major pool s position, onBytes,
    bind_of_ok parts]
  cases finish options minor major pool s ⟨position, []⟩ <;> rfl

theorem onBytes_bodyDecoder {options : ReadOptions} {minor major : UInt16} {pool : Pool}
    {bytes : Bytes} {s : ClassSkeleton} (h : Reads (decoder pool) bytes s) :
    (bodyDecoder options minor major pool).onBytes bytes
      = interpret options minor major pool s := by
  have parts := h 0 []
  rw [List.append_nil] at parts
  exact onBytes_of_parts options minor major parts

/-- Parts with bytes left over make up no class, at the latest because of these. -/
theorem finish_leftover (options : ReadOptions) (minor major : UInt16) (pool : Pool)
    (s : ClassSkeleton) {c : Cursor} (left : c.rest ≠ []) :
    finish options minor major pool s c
      = (s.attributes.foldlM (classAttribute pool options) ⟨.empty, .empty⟩).bind fun _ =>
          .error (.malformed .trailingData) := by
  unfold finish
  rw [bind_eq]
  cases s.attributes.foldlM (classAttribute pool options) ⟨.empty, .empty⟩ with
  | error e => rfl
  | ok read =>
    have incomplete : atEnd c = .ok (false, c) := by
      rw [atEnd, List.isEmpty_eq_false_iff.2 left]
    show (atEnd >>= _ : Decoder ClassFile) c = _
    rw [bind_of_ok incomplete]
    rfl

/-- The parts that a class was decoded from are all that there is in its bytes, whatever else is made
of them. -/
theorem exists_parts {options : ReadOptions} {bytes : Bytes} {c : ClassFile}
    (h : ClassFile.decode options bytes = .ok c) :
    ∃ header s, Header.decode bytes = .ok header ∧ (decoder header.pool).onBytes header.body = .ok s
      ∧ ∀ options', ClassFile.decode options' bytes
        = s.interpret options' header.minor header.major header.pool := by
  obtain ⟨header, decoded, h⟩ := Traverse.bind_eq_ok_iff.1 h
  rw [bodyDecoder_eq] at h
  unfold onBytes at h
  split at h
  · next value rest run =>
    cases h
    obtain ⟨s, ⟨position, left⟩, parts, run⟩ := Decoder.bind_eq_ok_iff.1 run
    have complete : left = [] := by
      by_contra more
      rw [finish_leftover options header.minor header.major header.pool s more] at run
      obtain ⟨_, -, run⟩ := Traverse.bind_eq_ok_iff.1 run
      cases run
    subst complete
    refine ⟨header, s, decoded, by rw [onBytes, parts], fun options' => ?_⟩
    unfold ClassFile.decode
    rw [decoded]
    exact onBytes_of_parts options' header.minor header.major parts
  · cases h

/-- The parts that a class was decoded from. -/
theorem exists_of_decode {options : ReadOptions} {bytes : Bytes} {c : ClassFile}
    (h : ClassFile.decode options bytes = .ok c) :
    ∃ header s, Header.decode bytes = .ok header ∧ (decoder header.pool).onBytes header.body = .ok s
      ∧ s.interpret options header.minor header.major header.pool = .ok c := by
  obtain ⟨header, s, decoded, parts, reading⟩ := exists_parts h
  exact ⟨header, s, decoded, parts, (reading options).symm.trans h⟩

/-- A class file whose bytes are known to hold a class, put together from its parts. -/
theorem decode_of_parts {options options' : ReadOptions} {bytes : Bytes} {c : ClassFile}
    (h : ClassFile.decode options bytes = .ok c) {header : Header} {s : ClassSkeleton}
    (decoded : Header.decode bytes = .ok header)
    (parts : (decoder header.pool).onBytes header.body = .ok s) (read : ClassAttributes)
    (attributes : s.attributes.foldlM (classAttribute header.pool options') ⟨.empty, .empty⟩
      = .ok read)
    {methods : List Method}
    (members : s.members.mapM (decodeMethod header.pool read.bootstrap options' s.name)
      = .ok methods) :
    ClassFile.decode options' bytes
      = .ok (s.build options' header.minor header.major header.pool read methods) := by
  obtain ⟨header', s', decoded', parts', reading⟩ := exists_parts h
  cases decoded.symm.trans decoded'
  cases parts.symm.trans parts'
  rw [reading options']
  exact Traverse.bind_eq_ok_iff.2 ⟨read, attributes, Traverse.bind_eq_ok_iff.2 ⟨methods, members, rfl⟩⟩

end ClassSkeleton

end ClassInstrument
