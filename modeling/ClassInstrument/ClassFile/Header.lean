import ClassInstrument.Annotation.Codec
import ClassInstrument.ClassFile.Basic

/-!
# Class headers

The front of a class file up to its constant pool, from which a few questions are answered
without decoding the class.

* `Header` — versions, constants and the bytes behind them;
* `Header.decode` — from the bytes of a class file;
* `Header.className` — the name of the class;
* `Header.annotationTypes` — the types of the annotations of the class itself.
-/

namespace ClassInstrument

/-- The front of a class file. -/
structure Header where
  minor : UInt16
  major : UInt16
  pool : Pool
  /-- The bytes behind the constant pool. -/
  body : Bytes
deriving Inhabited

namespace Header

/-- The first four bytes of every class file. -/
def magic : UInt32 := 0xCAFEBABE

/-- The oldest version that is supported. -/
def oldestMajor : UInt16 := 45

/-- The newest version that is supported. -/
def newestMajor : UInt16 := 69

/-- Read magic number, version and constant pool. -/
def decoder : Decoder Header := do
  let found ← Decoder.word
  if found != magic then Decoder.malformed (.magic found)
  else
    let minor ← Decoder.word
    let major ← Decoder.word
    if major < oldestMajor || newestMajor < major then
      fun _ => .error (.version major minor)
    else
      let pool ← Pool.decode
      fun c => .ok (⟨minor, major, pool, c.rest⟩, c)

/-- The header of the class file that some bytes are. -/
def decode (bytes : Bytes) : Except Failure Header := decoder.onBytes bytes

/-- The bytes of a header, the body included. -/
def encode (h : Header) : Except Failure Bytes := do
  let pool ← h.pool.encode
  .ok (Word.encode magic ++ Word.encode h.minor ++ Word.encode h.major ++ pool ++ h.body)

/-! ### Attributes -/

/-- An attribute: the index of its name, its length and its bytes. -/
def decodeAttribute (pool : Pool) : Decoder Attribute := do
  let index ← Decoder.word
  let name ← Decoder.ofExcept (pool.utf8 index)
  let length ← Decoder.word (α := UInt32)
  let body ← Decoder.take length.toNat
  return ⟨name, body⟩

/-- A counted list of attributes. -/
def decodeAttributes (pool : Pool) : Decoder (List Attribute) :=
  Decoder.table (decodeAttribute pool)

/-- Leave out an attribute. -/
def skipAttribute : Decoder Unit := do
  Decoder.skip 2
  let length ← Decoder.word (α := UInt32)
  Decoder.skip length.toNat

/-- Leave out a field or method with its attributes. -/
def skipMember : Decoder Unit := do
  Decoder.skip 6
  let _ ← Decoder.table skipAttribute

/-! ### Questions about the class -/

/-- The name of the class, which stands behind its access bits. -/
def className (h : Header) : Except Failure String :=
  Decoder.onBytes (do
    Decoder.skip 2
    let index ← Decoder.word
    Decoder.ofExcept (h.pool.className index)) h.body

/-- The attributes of the class, behind its members. -/
def attributesDecoder (pool : Pool) : Decoder (List Attribute) := do
  Decoder.skip 6
  let interfaces ← Decoder.word (α := UInt16)
  Decoder.skip (2 * interfaces.toNat)
  let _ ← Decoder.table skipMember
  let _ ← Decoder.table skipMember
  decodeAttributes pool

/-- Whether an attribute holds annotations, visible or not. -/
def holdsAnnotations (a : Attribute) : Bool :=
  a.name == Annotations.visibleName || a.name == Annotations.invisibleName

/-- The types of the annotations of the class, in the order of the class file. -/
def annotationTypes (h : Header) : Except Failure (List String) := do
  let attributes ← (attributesDecoder h.pool).onBytes h.body
  let types ← (attributes.filter holdsAnnotations).mapM fun a => Annotation.types h.pool a.body
  .ok types.flatten

end Header

end ClassInstrument
