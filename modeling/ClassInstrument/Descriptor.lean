import ClassInstrument.Failure

/-!
# Descriptors

The types of fields and methods in their written form:
`F ::= B | C | D | F | I | J | S | Z | L name ; | [ F` for a field, where a name is not empty and
free of semicolons, and `( F* ) (F | V)` for a method.

* `FieldType`, `MethodType` — the parsed types;
* `FieldType.parse`, `MethodType.parse` — from text, refusing anything behind the descriptor;
* `FieldType.toText`, `MethodType.toText` — back to text;
* `FieldType.dimensions`, `FieldType.innermost`, `FieldType.kind` — what a type is made of;
* `FieldType.slots`, `MethodType.argumentSlots`, `MethodType.returnSlots` — sizes in slots;
* `DescriptorCache` — parsed descriptors kept by their text.
-/

namespace ClassInstrument

/-- The type of a field, parameter or result. -/
inductive FieldType where
  | byte
  | char
  | double
  | float
  | int
  | long
  | short
  | boolean
  /-- An instance of a class, by internal name. -/
  | object (name : String)
  | array (component : FieldType)
deriving DecidableEq, Inhabited, Repr

namespace FieldType

/-! ### Written form -/

/-- The characters of a type. -/
def toChars : FieldType → List Char
  | .byte => ['B']
  | .char => ['C']
  | .double => ['D']
  | .float => ['F']
  | .int => ['I']
  | .long => ['J']
  | .short => ['S']
  | .boolean => ['Z']
  | .object name => 'L' :: name.toList ++ [';']
  | .array component => '[' :: component.toChars

/-- The descriptor of a type. -/
def toText (type : FieldType) : String := String.ofList type.toChars

/-! ### Reading -/

/-- The type that a single letter stands for. -/
def ofLetter? : Char → Option FieldType
  | 'B' => some .byte
  | 'C' => some .char
  | 'D' => some .double
  | 'F' => some .float
  | 'I' => some .int
  | 'J' => some .long
  | 'S' => some .short
  | 'Z' => some .boolean
  | _ => none

/-- The first byte of a character in UTF-8. -/
def leadByte (c : Char) : UInt8 := ((String.singleton c).toUTF8.data[0]?).getD 0

/-- A class name up to its semicolon, and what follows. -/
def parseName (chars : List Char) : Except Malformation (FieldType × List Char) :=
  match chars.dropWhile (· ≠ ';') with
  | [] => .error .unterminatedClass
  | _ :: rest =>
    let name := chars.takeWhile (· ≠ ';')
    if name.isEmpty then .error .emptyClassName else .ok (.object (String.ofList name), rest)

/-- One type at the front of a text, and what follows. -/
def parseFront : List Char → Except Malformation (FieldType × List Char)
  | [] => .error .truncatedDescriptor
  | '[' :: rest => (parseFront rest).map fun (component, rest) => (.array component, rest)
  | 'L' :: rest => parseName rest
  | c :: rest =>
    match ofLetter? c with
    | some type => .ok (type, rest)
    | none => .error (.descriptorTag (leadByte c))

/-- The type of a complete descriptor. -/
def parse (desc : String) : Except Malformation FieldType := do
  let (type, rest) ← parseFront desc.toList
  if rest.isEmpty then .ok type else .error (.trailingInField desc)

/-! ### Parts -/

/-- The number of dimensions of an array. -/
def dimensions : FieldType → Nat
  | .array component => component.dimensions + 1
  | _ => 0

/-- What is left of an array without its dimensions. -/
def innermost : FieldType → FieldType
  | .array component => component.innermost
  | type => type

/-- The name of the class, for an instance of one. -/
def className? : FieldType → Option String
  | .object name => some name
  | _ => none

/-- What a type is, in a word. -/
def kind : FieldType → String
  | .byte => "byte"
  | .char => "char"
  | .double => "double"
  | .float => "float"
  | .int => "int"
  | .long => "long"
  | .short => "short"
  | .boolean => "boolean"
  | .object _ => "object"
  | .array _ => "array"

/-! ### Sizes and verification types -/

/-- How many local or stack slots a value takes. -/
def slots : FieldType → Nat
  | .long | .double => 2
  | _ => 1

/-- The verification type of a value; an array is an object named by its descriptor. -/
def verificationType : FieldType → VerificationType
  | .byte | .char | .short | .boolean | .int => .integer
  | .float => .float
  | .long => .long
  | .double => .double
  | .object name => .object name
  | .array component => .object (FieldType.array component).toText

end FieldType

/-- The type of a method; no result is `void`. -/
structure MethodType where
  params : List FieldType
  result : Option FieldType
deriving DecidableEq, Inhabited, Repr

namespace MethodType

/-- The characters of a method type. -/
def toChars (type : MethodType) : List Char :=
  '(' :: type.params.flatMap FieldType.toChars ++ ')' ::
    (match type.result with
     | some result => result.toChars
     | none => ['V'])

/-- The descriptor of a method type. -/
def toText (type : MethodType) : String := String.ofList type.toChars

/-- Parameter types up to the closing parenthesis, and what follows it.  Every round reads at
least one character, so the length of the text bounds the rounds. -/
def parseParams (desc : String) :
    Nat → List FieldType → List Char → Except Malformation (List FieldType × List Char)
  | _, read, ')' :: rest => .ok (read.reverse, rest)
  | fuel + 1, read, c :: rest => do
    let (type, rest) ← FieldType.parseFront (c :: rest)
    parseParams desc fuel (type :: read) rest
  | _, _, _ => .error (.unterminatedMethod desc)

/-- The result type at the front of a text, and what follows. -/
def parseResult : List Char → Except Malformation (Option FieldType × List Char)
  | 'V' :: rest => .ok (none, rest)
  | chars => (FieldType.parseFront chars).map fun (type, rest) => (some type, rest)

/-- The type of a complete method descriptor. -/
def parse (desc : String) : Except Malformation MethodType := do
  match desc.toList with
  | '(' :: chars =>
    let (params, rest) ← parseParams desc chars.length [] chars
    let (result, rest) ← parseResult rest
    if rest.isEmpty then .ok ⟨params, result⟩ else .error (.trailingInMethod desc)
  | _ => .error (.unopenedMethod desc)

/-- The slots of all arguments, the receiver not counted.  They are added in two bytes, so the sum
starts again at zero behind 65535. -/
def argumentSlots (type : MethodType) : UInt16 :=
  type.params.foldl (fun sum param => sum + UInt16.ofNat param.slots) 0

/-- The slots of the result. -/
def returnSlots (type : MethodType) : Nat := (type.result.map FieldType.slots).getD 0

end MethodType

/-! ### As parts of larger computations -/

/-- Whether the name of a class is the descriptor of an array. -/
def isArrayDescriptor (name : String) : Bool := name.toList.head? == some '['

/-- The type of a field descriptor met in a class. -/
def fieldType (desc : String) : Except Failure FieldType :=
  (FieldType.parse desc).mapError .malformed

/-- The type of a method descriptor met in a class. -/
def methodType (desc : String) : Except Failure MethodType :=
  (MethodType.parse desc).mapError .malformed

/-! ### Parsed descriptors kept by their text -/

/-- Descriptors parsed before.  Only valid ones are kept. -/
structure DescriptorCache where
  methods : List (String × MethodType)
  fields : List (String × FieldType)

namespace DescriptorCache

/-- Nothing parsed yet. -/
def empty : DescriptorCache := ⟨[], []⟩

/-- The type of a method descriptor, parsed if it was not before. -/
def methodType (cache : DescriptorCache) (desc : String) :
    Except Malformation MethodType × DescriptorCache :=
  match cache.methods.lookup desc with
  | some type => (.ok type, cache)
  | none =>
    match MethodType.parse desc with
    | .ok type => (.ok type, { cache with methods := (desc, type) :: cache.methods })
    | .error e => (.error e, cache)

/-- The type of a field descriptor, parsed if it was not before. -/
def fieldType (cache : DescriptorCache) (desc : String) :
    Except Malformation FieldType × DescriptorCache :=
  match cache.fields.lookup desc with
  | some type => (.ok type, cache)
  | none =>
    match FieldType.parse desc with
    | .ok type => (.ok type, { cache with fields := (desc, type) :: cache.fields })
    | .error e => (.error e, cache)

/-- How many method descriptors are kept. -/
def size (cache : DescriptorCache) : Nat := cache.methods.length

end DescriptorCache

end ClassInstrument
