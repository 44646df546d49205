import ClassInstrument.ClassFile.Header
import ClassInstrument.Code.Decode

/-!
# Decoding classes

The class behind a header.  Methods are decoded last, because their bodies refer to bootstrap
methods that stand in the attributes of the class.

* `Attribute.roleInClass`, `Attribute.roleInMethod` — what becomes of an attribute;
* `ClassFile.decode` — the class that some bytes are.
-/

namespace ClassInstrument

namespace Attribute

/-- What becomes of an attribute of a class. -/
def roleInClass (options : ReadOptions) (a : Attribute) : AttributeRole :=
  if a.name == BootstrapTable.attributeName then .bootstrapMethods
  else if a.name == Annotations.visibleName then .annotations true
  else if a.name == Annotations.invisibleName then .annotations false
  else if options.skipDebug && (a.name == "SourceFile" || a.name == "SourceDebugExtension") then
    .omitted
  else .kept

/-- What becomes of an attribute of a method. -/
def roleInMethod (options : ReadOptions) (a : Attribute) : AttributeRole :=
  if a.name == Code.attributeName && !options.skipCode then .code
  else if a.name == Annotations.visibleName then .annotations true
  else if a.name == Annotations.invisibleName then .annotations false
  else if options.skipDebug && a.name == "MethodParameters" then .omitted
  else .kept

end Attribute

namespace ClassFile

/-! ### Members -/

/-- The text whose index comes next. -/
def decodeText (pool : Pool) : Decoder String := do
  let index ← Decoder.word
  Decoder.ofExcept (pool.utf8 index)

/-- A field or method, its attributes undecoded. -/
def decodeMember (pool : Pool) : Decoder Field := do
  let access ← Decoder.word
  let name ← decodeText pool
  let desc ← decodeText pool
  let attributes ← Header.decodeAttributes pool
  return { access, name, desc, attributes }

/-- Take over what an attribute says about a method. -/
def methodAttribute (pool : Pool) (bootstrap : BootstrapTable) (options : ReadOptions)
    (owner : String) (m : Method) (a : Attribute) : Except Failure Method :=
  match a.roleInMethod options with
  | .code => do
    let code ← Code.decode pool bootstrap ⟨owner, m.access, m.name, m.desc⟩ options a.body
    .ok { m with code := some code }
  | .annotations visible => do
    let annotations ← Annotation.decodeAll pool a.body
    .ok { m with annotations := m.annotations.add visible annotations }
  | _ => .ok m

/-- Decode a method from its parts.  A later body replaces an earlier one. -/
def decodeMethod (pool : Pool) (bootstrap : BootstrapTable) (options : ReadOptions)
    (owner : String) (member : Field) : Except Failure Method :=
  member.attributes.foldlM (methodAttribute pool bootstrap options owner)
    { access := member.access, name := member.name, desc := member.desc
      annotations := .empty, code := none
      attributes := member.attributes.filter fun a => a.roleInMethod options == .kept }

/-! ### The whole class -/

/-- What the attributes of a class say. -/
structure ClassAttributes where
  bootstrap : BootstrapTable
  annotations : Annotations

/-- Take over what an attribute says about the class.  A later table of bootstrap methods
replaces an earlier one. -/
def classAttribute (pool : Pool) (options : ReadOptions) (s : ClassAttributes) (a : Attribute) :
    Except Failure ClassAttributes :=
  match a.roleInClass options with
  | .bootstrapMethods => do
    let bootstrap ← BootstrapTable.decode.onBytes a.body
    .ok { s with bootstrap }
  | .annotations visible => do
    let annotations ← Annotation.decodeAll pool a.body
    .ok { s with annotations := s.annotations.add visible annotations }
  | _ => .ok s

/-- The name of a class whose index comes next. -/
def decodeClassName (pool : Pool) : Decoder String := do
  let index ← Decoder.word
  Decoder.ofExcept (pool.className index)

/-- The class behind its constant pool. -/
def bodyDecoder (options : ReadOptions) (minor major : UInt16) (pool : Pool) :
    Decoder ClassFile := do
  let access ← Decoder.word
  let name ← decodeClassName pool
  let superIndex ← Decoder.word
  let superName ← Decoder.ofExcept (pool.optionalClassName superIndex)
  let interfaces ← Decoder.table (decodeClassName pool)
  let fields ← Decoder.table (decodeMember pool)
  let members ← Decoder.table (decodeMember pool)
  let attributes ← Header.decodeAttributes pool
  let read ← Decoder.ofExcept
    (attributes.foldlM (classAttribute pool options) ⟨.empty, .empty⟩)
  let complete ← Decoder.atEnd
  if !complete then Decoder.malformed .trailingData
  else
    let methods ← Decoder.ofExcept
      (members.mapM (decodeMethod pool read.bootstrap options name))
    return {
      minor, major, access, name, superName, interfaces, fields, methods
      annotations := read.annotations
      attributes := attributes.filter fun a => a.roleInClass options == .kept
      constants := ⟨pool, read.bootstrap⟩ }

/-- The class that some bytes are. -/
def decode (options : ReadOptions) (bytes : Bytes) : Except Failure ClassFile := do
  let header ← Header.decode bytes
  (bodyDecoder options header.minor header.major header.pool).onBytes header.body

end ClassFile

end ClassInstrument
