import ClassInstrument.Bytes.Decoder
import ClassInstrument.Text.Modified

/-!
# Constant pool entries

One slot of the constant pool, with references to other slots as plain indices and floating-point
numbers as their bits.

* `Entry` — the kinds of entries, and the slot that cannot be referred to;
* `Entry.encode` — a tag byte and the fields; nothing for a slot that cannot be referred to;
* `Entry.decode` — the entry behind a tag.
-/

namespace ClassInstrument

/-- One slot of the constant pool. -/
inductive Entry where
  /-- The first slot, and the one behind a `long` or `double`. -/
  | unusable
  | utf8 (text : String)
  | integer (value : Int32)
  | float (bits : UInt32)
  | long (value : Int64)
  | double (bits : UInt64)
  | classRef (name : UInt16)
  | string (text : UInt16)
  | fieldRef (owner nameAndType : UInt16)
  | methodRef (owner nameAndType : UInt16)
  | interfaceMethodRef (owner nameAndType : UInt16)
  | nameAndType (name desc : UInt16)
  | methodHandle (kind : UInt8) (reference : UInt16)
  | methodType (desc : UInt16)
  | dynamic (bootstrap nameAndType : UInt16)
  | invokeDynamic (bootstrap nameAndType : UInt16)
  | module (name : UInt16)
  | package (name : UInt16)
deriving DecidableEq, Inhabited, Repr, Hashable

/-- The two bytes of a table's length, which has to fit them. -/
def countField (what : String) (count : Nat) : Except Failure Bytes :=
  if count < 65536 then .ok (Bytes.ofNat 2 count)
  else .error (.encoding (.tooMany what count))

namespace Entry

/-- Whether an entry takes two slots. -/
def isWide : Entry → Bool
  | .long _ | .double _ => true
  | _ => false

/-- The slots an entry takes. -/
def width (entry : Entry) : Nat := if entry.isWide then 2 else 1

/-! ### Encoding -/

/-- The tag byte and the fields of an entry. -/
def encode : Entry → Except Failure Bytes
  | .unusable => .ok []
  | .utf8 text => do
    let bytes := Text.encode text
    let count ← countField "string constant bytes" bytes.length
    .ok (1 :: count ++ bytes)
  | .integer value => .ok (3 :: Word.encode value)
  | .float bits => .ok (4 :: Word.encode bits)
  | .long value => .ok (5 :: Word.encode value)
  | .double bits => .ok (6 :: Word.encode bits)
  | .classRef name => .ok (7 :: Word.encode name)
  | .string text => .ok (8 :: Word.encode text)
  | .fieldRef owner member => .ok (9 :: Word.encode owner ++ Word.encode member)
  | .methodRef owner member => .ok (10 :: Word.encode owner ++ Word.encode member)
  | .interfaceMethodRef owner member => .ok (11 :: Word.encode owner ++ Word.encode member)
  | .nameAndType name desc => .ok (12 :: Word.encode name ++ Word.encode desc)
  | .methodHandle kind reference => .ok (15 :: Word.encode kind ++ Word.encode reference)
  | .methodType desc => .ok (16 :: Word.encode desc)
  | .dynamic bootstrap member => .ok (17 :: Word.encode bootstrap ++ Word.encode member)
  | .invokeDynamic bootstrap member => .ok (18 :: Word.encode bootstrap ++ Word.encode member)
  | .module name => .ok (19 :: Word.encode name)
  | .package name => .ok (20 :: Word.encode name)

/-! ### Decoding -/

/-- A text with its length in front. -/
def decodeText : Decoder Entry := do
  let length ← Decoder.word (α := UInt16)
  let bytes ← Decoder.take length.toNat
  match Text.decode? bytes with
  | some text => return .utf8 text
  | none => Decoder.malformed .invalidText

/-- An entry of one number. -/
def decodeOne {α : Type} [Word α] (entry : α → Entry) : Decoder Entry := do
  let field ← Decoder.word (α := α)
  return entry field

/-- An entry of two numbers. -/
def decodeTwo {α β : Type} [Word α] [Word β] (entry : α → β → Entry) : Decoder Entry := do
  let first ← Decoder.word (α := α)
  let second ← Decoder.word (α := β)
  return entry first second

/-- The entry behind a tag; `index` is the slot it is going to take. -/
def decodeTagged (index : Nat) : UInt8 → Decoder Entry
  | 1 => decodeText
  | 3 => decodeOne .integer
  | 4 => decodeOne .float
  | 5 => decodeOne .long
  | 6 => decodeOne .double
  | 7 => decodeOne .classRef
  | 8 => decodeOne .string
  | 9 => decodeTwo .fieldRef
  | 10 => decodeTwo .methodRef
  | 11 => decodeTwo .interfaceMethodRef
  | 12 => decodeTwo .nameAndType
  | 15 => decodeTwo .methodHandle
  | 16 => decodeOne .methodType
  | 17 => decodeTwo .dynamic
  | 18 => decodeTwo .invokeDynamic
  | 19 => decodeOne .module
  | 20 => decodeOne .package
  | tag => Decoder.malformed (.poolTag tag index)

/-- The next entry; `index` is the slot it is going to take. -/
def decode (index : Nat) : Decoder Entry := do
  let tag ← Decoder.word (α := UInt8)
  decodeTagged index tag

end Entry

end ClassInstrument
