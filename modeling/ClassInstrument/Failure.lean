import ClassInstrument.Identifier
import ClassInstrument.Instruction.Display
import ClassInstrument.Registry.Lifecycle

/-!
# Failures

Everything that can go wrong, by cause.  The wording is a function of the cause and stands here
only.

* `Malformation` — why bytes are no class file;
* `EncodingFault` — why a class has no class file form, or a body no consistent typing;
* `Misuse` — calls that a correct caller never makes;
* `Failure` — all of these, and the failures of rules, caches, settings and files;
* `Failure.kind`, `Failure.message?` — the kind, and the text for the causes that have one.
-/

namespace ClassInstrument

/-! ### Bytes that are no class file -/

/-- What a constant pool entry was expected to be. -/
inductive EntryKind where
  | utf8
  | classRef
  | nameAndType
  | memberRef
  | methodHandle
  | dynamic
  | loadable
deriving DecidableEq, Repr

/-- The expectation as the end of a sentence. -/
def EntryKind.toText : EntryKind → String
  | .utf8 => "Utf8"
  | .classRef => "a Class"
  | .nameAndType => "a NameAndType"
  | .memberRef => "a member reference"
  | .methodHandle => "a MethodHandle"
  | .dynamic => "dynamic"
  | .loadable => "loadable"

/-- The numbers that an annotation element can hold. -/
inductive NumberKind where
  | integer
  | float
  | long
  | double
deriving DecidableEq, Repr

/-- The kind as the end of a sentence. -/
def NumberKind.toText : NumberKind → String
  | .integer => "an Integer"
  | .float => "a Float"
  | .long => "a Long"
  | .double => "a Double"

/-- Why bytes are no class file, or a text no descriptor. -/
inductive Malformation where
  -- descriptors
  | truncatedDescriptor
  | unterminatedClass
  | emptyClassName
  | descriptorTag (byte : UInt8)
  | trailingInField (desc : String)
  | trailingInMethod (desc : String)
  | unopenedMethod (desc : String)
  | unterminatedMethod (desc : String)
  -- constant pool and bootstrap methods
  | poolCountZero
  | invalidText
  | poolTag (tag : UInt8) (index : Nat)
  | wideInLastSlot
  | poolIndex (index : UInt16)
  | poolKind (index : UInt16) (expected : EntryKind)
  | bootstrapIndex (index : UInt16)
  | dynamicTooDeep
  -- annotations
  | annotationTooDeep
  | elementKind (expected : NumberKind)
  | elementTag (byte : UInt8)
  -- the class as a whole
  | magic (found : UInt32)
  | trailingData
  -- method bodies
  | codeLength (length : UInt32)
  | codeOffset (offset : Int)
  | labelOffBoundary (offset : Nat)
  | tableBounds (high low : Int32)
  | tableCount (count : Int)
  | pairCount (count : Int32)
  | opcode (byte : UInt8) (offset : Nat)
  | wideOpcode (byte : UInt8) (offset : Nat)
  -- stack map frames
  | chopTooMany
  | frameKind (byte : UInt8)
  | frameOffset (offset : Nat)
  | verificationTag (byte : UInt8)

/-- The wording of a malformation. -/
def Malformation.message : Malformation → String
  | .truncatedDescriptor => "Truncated descriptor"
  | .unterminatedClass => "Unterminated class in descriptor"
  | .emptyClassName => "Empty class name in descriptor"
  | .descriptorTag byte =>
    "Invalid descriptor tag '" ++ String.singleton (Char.ofNat byte.toNat) ++ "'"
  | .trailingInField desc => "Trailing data in field descriptor " ++ desc
  | .trailingInMethod desc => "Trailing data in method descriptor " ++ desc
  | .unopenedMethod desc => "Method descriptor must start with '(': " ++ desc
  | .unterminatedMethod desc => "Unterminated method descriptor " ++ desc
  | .poolCountZero => "Constant pool count must be at least 1"
  | .invalidText => "Invalid modified UTF-8 in constant pool"
  | .poolTag tag index =>
    "Unknown constant pool tag " ++ toString tag.toNat ++ " at index " ++ toString index
  | .wideInLastSlot => "Wide constant in the last pool slot"
  | .poolIndex index => "Invalid constant pool index " ++ toString index.toNat
  | .poolKind index expected =>
    "Constant pool entry " ++ toString index.toNat ++ " is not " ++ expected.toText
  | .bootstrapIndex index => "Invalid bootstrap method index " ++ toString index.toNat
  | .dynamicTooDeep => "Dynamic constants nested too deeply"
  | .annotationTooDeep => "Annotation nesting too deep"
  | .elementKind expected => "Annotation element is not " ++ expected.toText
  | .elementTag byte =>
    "Invalid annotation element tag '" ++ String.singleton (Char.ofNat byte.toNat) ++ "'"
  | .magic found => "Invalid magic number 0x" ++ Text.hexPaddedUpper 8 found.toNat
  | .trailingData => "Trailing data after class attributes"
  | .codeLength length => "Invalid code length " ++ toString length.toNat
  | .codeOffset offset => "Code offset " ++ toString offset ++ " outside of method body"
  | .labelOffBoundary offset =>
    "Label at offset " ++ toString offset ++ " is not on an instruction boundary"
  | .tableBounds high low =>
    "tableswitch high " ++ toString high.toInt ++ " below low " ++ toString low.toInt
  | .tableCount count => "tableswitch with " ++ toString count ++ " targets"
  | .pairCount count => "lookupswitch with " ++ toString count.toInt ++ " pairs"
  | .opcode byte offset =>
    "Invalid opcode 0x" ++ Text.hexPaddedUpper 2 byte.toNat ++ " at " ++ toString offset
  | .wideOpcode byte offset =>
    "Invalid opcode 0x" ++ Text.hexPaddedUpper 2 byte.toNat ++ " after wide at "
      ++ toString offset
  | .chopTooMany => "Chop frame removes too many locals"
  | .frameKind byte => "Reserved stack map frame type " ++ toString byte.toNat
  | .frameOffset offset => "Stack map frame at " ++ toString offset ++ " past end of code"
  | .verificationTag byte => "Invalid verification type tag " ++ toString byte.toNat

/-! ### Classes without a class file form -/

/-- Why a class cannot be encoded, or a method body not be typed. -/
inductive EncodingFault where
  -- tables
  | tooMany (what : String) (count : Nat)
  | poolFull
  | bootstrapFull
  | attributeTooLong (name : String)
  -- code
  | unplacedLabel (label : Label)
  | operandMismatch (insn : Instruction)
  | branchTooFar (distance : Int) (insn : Instruction)
  | byteRange (value : Int32)
  | shortRange (value : Int32)
  | tableTargets (low high : Int32) (count : Nat)
  | tooManyArguments (member : MemberRef)
  | bodyTooLong (length : Nat)
  | variableBackwards (name : String)
  -- operand stack and locals
  | underflowAt (insn : Instruction)
  | underflow
  | stackTooDeep
  | tooManyLocals
  | encodedOpcode (opcode : Opcode)
  | localRange (index : UInt16)
  -- stack map frames
  | labelAtEnd (label : Label)
  | stackHeights (known incoming : Nat) (insn : Instruction)
  | fallsOffEnd
  | elementType (code : Int32)
  | unknownSite
  | unsettled
  | rangeSplit

/-- The wording of an encoding fault. -/
def EncodingFault.message : EncodingFault → String
  | .tooMany what count => "Too many " ++ what ++ ": " ++ toString count
  | .poolFull => "Constant pool overflow"
  | .bootstrapFull => "Too many bootstrap methods"
  | .attributeTooLong name => "Attribute " ++ name ++ " exceeds 4GiB"
  | .unplacedLabel label => "Label " ++ label.toText ++ " is not placed in the method body"
  | .operandMismatch insn => "Operand does not match opcode in " ++ insn.toText
  | .branchTooFar distance insn =>
    "Branch offset " ++ toString distance ++ " of " ++ insn.toText ++ " does not fit 16 bits"
  | .byteRange value => "bipush value " ++ toString value.toInt ++ " out of range"
  | .shortRange value => "sipush value " ++ toString value.toInt ++ " out of range"
  | .tableTargets low high count =>
    "tableswitch " ++ toString low.toInt ++ "..=" ++ toString high.toInt ++ " has "
      ++ toString count ++ " targets"
  | .tooManyArguments member => "Too many arguments for " ++ member.toText
  | .bodyTooLong length =>
    "Method body exceeds 65535 bytes (" ++ toString length ++ " so far)"
  | .variableBackwards name => "Local variable " ++ name ++ " ends before it starts"
  | .underflowAt insn => "Operand stack underflow at " ++ insn.toText
  | .underflow => "Operand stack underflow"
  | .stackTooDeep => "Operand stack depth exceeds 65535"
  | .tooManyLocals => "Local variable index exceeds 65535 slots"
  | .encodedOpcode opcode =>
    "Opcode " ++ opcode.name ++ " can not appear in a decoded method body"
  | .localRange index => "Local variable " ++ toString index.toNat ++ " out of range"
  | .labelAtEnd label => "Label " ++ label.toText ++ " does not precede an instruction"
  | .stackHeights known incoming insn =>
    "Inconsistent stack heights " ++ toString known ++ " and " ++ toString incoming ++ " at "
      ++ insn.toText
  | .fallsOffEnd => "Execution falls off the end of the method body"
  | .elementType code => "Invalid newarray element type " ++ toString code.toInt
  | .unknownSite => "Uninitialized value without allocation site"
  | .unsettled => "Types of the method body do not settle"
  | .rangeSplit => "Exception range split outside of dead code"

/-! ### Wrong calls -/

/-- A call that a correct caller never makes. -/
inductive Misuse where
  /-- An instruction that was removed or never added. -/
  | staleInstruction (id : Nat)
  /-- One more instruction than there are identities. -/
  | arenaFull
  /-- A step of the registry's life that does not follow its stage. -/
  | registryStep (target source found : Lifecycle)
  /-- An operation that the registry does not offer at its stage. -/
  | registryOperation (operation : String) (expected found : Lifecycle)

/-- The wording of a misuse. -/
def Misuse.message : Misuse → String
  | .staleInstruction id => "stale instruction id #" ++ toString id
  | .arenaFull => "instruction arena full"
  | .registryStep target source found =>
    "Registry can only move to " ++ target.toText ++ " from " ++ source.toText ++ ", but it is "
      ++ found.toText
  | .registryOperation operation expected found =>
    "Registry::" ++ operation ++ " requires the registry to be " ++ expected.toText
      ++ ", but it is " ++ found.toText

/-! ### All failures -/

/-- Why an operation failed. -/
inductive Failure where
  /-- Bytes that are no class file. -/
  | malformed (cause : Malformation)
  /-- Bytes that end too early. -/
  | outOfBounds
  /-- A class file version beyond the supported ones. -/
  | version (major minor : UInt16)
  /-- Subroutines, which have no typing. -/
  | subroutines
  /-- A class without class file form. -/
  | encoding (cause : EncodingFault)
  /-- A rule or another collaborator gave up. -/
  | transform (text : String)
  /-- A rule failed on a class. -/
  | ruleFailed (rule : Identifier) (cause : Failure)
  /-- A text that is no identifier. -/
  | identifier (text : String)
  /-- Settings that cannot be read. -/
  | settings
  /-- A name that is no dump mode. -/
  | dumpMode (text : String)
  /-- The file tree refused an operation. -/
  | file
  | misuse (cause : Misuse)

namespace Failure

/-- The kind of a failure, in a word. -/
def kind : Failure → String
  | .malformed _ => "Malformed"
  | .outOfBounds => "OutOfBounds"
  | .version .. | .subroutines => "NotSupported"
  | .encoding _ => "Encoding"
  | .transform _ => "Transform"
  | .ruleFailed .. => "RuleFailed"
  | .identifier _ | .settings => "Config"
  | .dumpMode _ => "VariantNotFound"
  | .file => "FileError"
  | .misuse _ => "panic"

/-- The wording of a failure; the failures of settings files and of the file tree have none, and
that of a rule is the one of its cause. -/
def message? : Failure → Option String
  | .malformed cause => some cause.message
  | .outOfBounds => some "Out of Bound read would have occurred!"
  | .version major minor =>
    some ("Not supported - class file version " ++ toString major.toNat ++ "."
      ++ toString minor.toNat)
  | .subroutines => some "Not supported - subroutines while computing stack map frames"
  | .encoding cause => some ("Encoding failed - " ++ cause.message)
  | .transform text => some text
  | .ruleFailed _ cause => cause.message?
  | .identifier text =>
    some ("Configuration error - '" ++ text ++ "' is not a namespace:name identifier")
  | .settings | .dumpMode _ | .file => none
  | .misuse cause => some cause.message

end Failure

end ClassInstrument
