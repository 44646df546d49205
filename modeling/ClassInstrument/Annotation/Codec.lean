import ClassInstrument.Annotation.Basic
import ClassInstrument.Pool.Builder
import ClassInstrument.Pool.Resolve

/-!
# Annotations in class files

The body of the attributes that hold annotations.

* `Annotation.decodeAll` — a counted list of annotations; each level of nesting (a value in an
  annotation or array, an annotation as a value) counts, and no more than
  `Annotation.nestingLevels` are followed;
* `Annotation.types` — the types alone;
* `Annotation.encodeAll` — the bytes of a list, adding constants on the way.
-/

namespace ClassInstrument

/-- The attribute that holds the visible annotations. -/
def Annotations.visibleName : String := "RuntimeVisibleAnnotations"

/-- The attribute that holds the invisible annotations. -/
def Annotations.invisibleName : String := "RuntimeInvisibleAnnotations"

/-- How many levels of nesting are followed, the outermost annotation included. -/
def Annotation.nestingLevels : Nat := 65

namespace ElementValue

/-! ### Element tags -/

/-- The letters of the types whose values are stored as an integer. -/
def integerTags : List UInt8 := ['B', 'C', 'I', 'S', 'Z'].map (UInt8.ofNat ·.toNat)

/-- The byte of a letter. -/
def tag (letter : Char) : UInt8 := UInt8.ofNat letter.toNat

/-! ### Decoding -/

/-- The text whose index comes next. -/
def decodeUtf8 (pool : Pool) : Decoder String := do
  let index ← Decoder.word
  Decoder.ofExcept (pool.utf8 index)

/-- The entry whose index comes next. -/
def decodeEntry (pool : Pool) : Decoder Entry := do
  let index ← Decoder.word
  Decoder.ofExcept (pool.get index)

/-- The number whose index comes next, which has to be of the kind its tag says. -/
def decodeNumber (pool : Pool) (expected : NumberKind) : Decoder Constant := do
  let entry ← decodeEntry pool
  match expected, entry with
  | .integer, .integer value => return .int value
  | .float, .float bits => return .float bits
  | .long, .long value => return .long value
  | .double, .double bits => return .double bits
  | _, _ => Decoder.malformed (.elementKind expected)

/-- The kind of number that a tag stands for. -/
def numberKind? (t : UInt8) : Option NumberKind :=
  if integerTags.contains t then some .integer
  else if t == tag 'F' then some .float
  else if t == tag 'J' then some .long
  else if t == tag 'D' then some .double
  else none

mutual

/-- The value of an element, at most `levels` levels deep. -/
def decode (pool : Pool) : Nat → Decoder ElementValue
  | 0 => Decoder.malformed .annotationTooDeep
  | levels + 1 => do
    let t ← Decoder.word
    match numberKind? t with
    | some kind =>
      let value ← decodeNumber pool kind
      return .const t value
    | none =>
      if t == tag 's' then
        let text ← decodeUtf8 pool
        return .const t (.string text)
      else if t == tag 'e' then
        let desc ← decodeUtf8 pool
        let name ← decodeUtf8 pool
        return .enum desc name
      else if t == tag 'c' then
        let desc ← decodeUtf8 pool
        return .classRef desc
      else if t == tag '@' then
        let nested ← decodeAnnotation pool levels
        return .nested nested.desc nested.values
      else if t == tag '[' then
        let values ← Decoder.table (decode pool levels)
        return .array values
      else Decoder.malformed (.elementTag t)

/-- An annotation, at most `levels` levels deep. -/
def decodeAnnotation (pool : Pool) : Nat → Decoder Annotation
  | 0 => Decoder.malformed .annotationTooDeep
  | levels + 1 => do
    let desc ← decodeUtf8 pool
    let values ← Decoder.table do
      let name ← decodeUtf8 pool
      let value ← decode pool levels
      return (name, value)
    return ⟨desc, values⟩

end

/-! ### Encoding -/

/-- The bytes of an index. -/
def index (i : UInt16) : Bytes := Word.encode i

/-- The index of the constant of an element.  A string under the letter `s` is stored as bare
text; no other constant of an element needs a bootstrap method. -/
def addConst (t : UInt8) : Constant → Builder UInt16
  | .string text =>
    if t == tag 's' then Builder.addUtf8 text
    else Builder.withOwnBootstrap (Builder.addConstant (.string text))
  | value => Builder.withOwnBootstrap (Builder.addConstant value)

mutual

/-- The bytes of a value. -/
def encode : ElementValue → Builder Bytes
  | .const t value => do
    let i ← addConst t value
    return t :: index i
  | .enum desc name => do
    let desc ← Builder.addUtf8 desc
    let name ← Builder.addUtf8 name
    return tag 'e' :: index desc ++ index name
  | .classRef desc => do
    let desc ← Builder.addUtf8 desc
    return tag 'c' :: index desc
  | .nested desc values => do
    let desc ← Builder.addUtf8 desc
    let count ← Builder.count "annotation values" values.length
    let body ← encodeNamed [] values
    return tag '@' :: index desc ++ count ++ body
  | .array values => do
    let count ← Builder.count "array elements" values.length
    let body ← encodeItems [] values
    return tag '[' :: count ++ body

/-- The bytes of several values, behind chunks already written (last first). -/
def encodeItems : List Bytes → List ElementValue → Builder Bytes
  | written, [] => pure written.reverse.flatten
  | written, value :: values => do
    let chunk ← encode value
    encodeItems (chunk :: written) values

/-- The bytes of several named values, behind chunks already written (last first). -/
def encodeNamed : List Bytes → List (String × ElementValue) → Builder Bytes
  | written, [] => pure written.reverse.flatten
  | written, (name, value) :: values => do
    let name ← Builder.addUtf8 name
    let chunk ← encode value
    encodeNamed ((index name ++ chunk) :: written) values

end

end ElementValue

namespace Annotation

/-- A counted list of annotations at the front of some bytes. -/
def decodeAll (pool : Pool) (bytes : Bytes) : Except Failure (List Annotation) :=
  (Decoder.table (ElementValue.decodeAnnotation pool nestingLevels)).onBytes bytes

/-- The types of a counted list of annotations. -/
def types (pool : Pool) (bytes : Bytes) : Except Failure (List String) :=
  (decodeAll pool bytes).map (·.map Annotation.desc)

/-- The bytes of an annotation. -/
def encode (a : Annotation) : Builder Bytes := do
  let desc ← Builder.addUtf8 a.desc
  let count ← Builder.count "annotation values" a.values.length
  let body ← ElementValue.encodeNamed [] a.values
  return Word.encode desc ++ count ++ body

/-- The bytes of a counted list of annotations. -/
def encodeAll (annotations : List Annotation) : Builder Bytes := do
  let count ← Builder.count "annotations" annotations.length
  let body ← Builder.concat encode annotations
  return count ++ body

end Annotation

end ClassInstrument
