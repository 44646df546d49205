import ClassInstrument.ClassFile.Header
import ClassInstrument.Code.Encode
import ClassInstrument.Proofs.Pool.Constants

/-!
# Attributes read back

An attribute is written as the index of its name, its length and its bytes, whatever these bytes
are.  It is read back with its bytes unchanged.

* `Attribute.yields_encodeAll` — the chunks of some attributes, each with its parts;
* `Attribute.writes_encodeAll` — **the round trip** of a counted list.
-/

namespace ClassInstrument

open Builder Decoder

namespace Attribute

-- Powers of numbers are those of the core library, whatever algebra is imported beside them.
attribute [local instance (high)] instPowNat

/-- The bytes of an attribute whose name stands at an index. -/
def chunk (name : UInt16) (a : Attribute) : Bytes :=
  Word.encode name ++ (Word.encode (UInt32.ofNat a.body.length) ++ a.body)

/-- What is known of the bytes of an attribute. -/
def IsChunk (a : Attribute) (bytes : Bytes) (t : ConstantTables) : Prop :=
  ∃ name, t.pool.utf8 name = .ok a.name ∧ a.body.length < 2 ^ (32 : Nat) ∧ bytes = chunk name a

/-- The chunks of some attributes behind their number. -/
theorem yields_encodeAll (attributes : List Attribute) :
    Yields (encodeAll attributes) fun bytes t => attributes.length < 65536 ∧ ∃ chunks,
      bytes = Bytes.ofNat 2 attributes.length ++ chunks.flatten
        ∧ List.Forall₂ (fun a bytes => IsChunk a bytes t) attributes chunks := by
  have row : ∀ a : Attribute, Yields (do
      let name ← addUtf8 a.name
      if a.body.length < 2 ^ (32 : Nat) then
        return Word.encode name ++ Word.encode (UInt32.ofNat a.body.length) ++ a.body
      else throw (.encoding (.attributeTooLong a.name))) fun bytes t => IsChunk a bytes t := by
    intro a
    refine (yields_addUtf8 a.name).bind fun name => ?_
    refine Yields.ite (fun fits => Yields.pure fun t known => ?_) fun _ => Yields.throw _
    exact ⟨name, known, fits, by rw [chunk, List.append_assoc]⟩
  refine (Yields.count _ _).bind fun count => ?_
  refine (Yields.concat fun a _ => row a).bind fun body => Yields.pure ?_
  rintro t ⟨chunks, rfl, each⟩ ⟨fits, rfl⟩
  exact ⟨fits, chunks, rfl, each⟩

/-- The length of an attribute is read. -/
theorem reads_length {a : Attribute} (fits : a.body.length < 2 ^ (32 : Nat)) :
    (UInt32.ofNat a.body.length).toNat = a.body.length := UInt32.toNat_ofNat_of_lt' fits

theorem IsChunk.reads {a : Attribute} {bytes : Bytes} {t : ConstantTables}
    (h : a.IsChunk bytes t) : Reads (Header.decodeAttribute t.pool) bytes a := by
  obtain ⟨name, known, fits, rfl⟩ := h
  refine (Reads.word name).bind ((Reads.ofExcept known).pure_bind ((Reads.word _).bind ?_))
  exact (Reads.take_of_length (reads_length fits).symm).bind_pure (Reads.pure _)

/-- **A counted list of attributes is read back**, with their bytes unchanged. -/
theorem writes_encodeAll (attributes : List Attribute) :
    Writes (encodeAll attributes) (fun t => Header.decodeAttributes t.pool) attributes := by
  refine (yields_encodeAll attributes).mono ?_
  rintro bytes t ⟨fits, chunks, rfl, each⟩
  exact Reads.table (each.imp fun _ _ => IsChunk.reads).flip fits

/-- Attributes need names, but no bootstrap methods. -/
theorem keepsBootstrap_encodeAll (attributes : List Attribute) :
    KeepsBootstrap (encodeAll attributes) := by
  have row : ∀ a : Attribute, KeepsBootstrap (do
      let name ← addUtf8 a.name
      if a.body.length < 2 ^ (32 : Nat) then
        return Word.encode name ++ Word.encode (UInt32.ofNat a.body.length) ++ a.body
      else throw (.encoding (.attributeTooLong a.name))) := by
    intro a
    refine (KeepsBootstrap.add _).bind fun name => ?_
    split
    · exact KeepsBootstrap.pure _
    · exact KeepsBootstrap.throw _
  refine (KeepsBootstrap.ofExcept _).bind fun count => ?_
  exact (KeepsBootstrap.concatOnto row [] attributes).bind fun body => KeepsBootstrap.pure _

/-- Attributes whose names are there already are written without any new entry. -/
theorem encodeAll_of_known {t : ConstantTables} (index : String → UInt16)
    {attributes : List Attribute} (few : attributes.length < 65536)
    (known : ∀ a ∈ attributes, addUtf8 a.name t = .ok (index a.name) t)
    (fits : ∀ a ∈ attributes, a.body.length < 2 ^ (32 : Nat)) :
    encodeAll attributes t = .ok (Bytes.ofNat 2 attributes.length
      ++ attributes.flatMap fun a => chunk (index a.name) a) t := by
  have count : Builder.count "attributes" attributes.length t
      = .ok (Bytes.ofNat 2 attributes.length) t := by
    unfold Builder.count countField
    rw [if_pos few]
    rfl
  refine (bind_of_ok count).trans ((bind_of_ok (concat_of_unchanged _ fun a ha => ?_)).trans rfl)
  refine (bind_of_ok (known a ha)).trans ?_
  rw [if_pos (fits a ha), List.append_assoc]
  rfl

end Attribute

end ClassInstrument
