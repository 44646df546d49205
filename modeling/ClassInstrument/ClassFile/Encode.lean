import ClassInstrument.Annotation.Codec
import ClassInstrument.ClassFile.Header
import ClassInstrument.Code.Encode
import ClassInstrument.Typing.Frames

/-!
# Encoding classes

The class file of a class.  Constants are added to the ones that the class was read with, behind
them, so that the bytes of attributes that were kept still refer to the right ones.

* `EncodeOptions` — what is computed anew in method bodies;
* `ClassFile.prepare` — a body as it is written;
* `ClassFile.encodeBody` — the bytes behind the constant pool;
* `ClassFile.encode` — all bytes.
-/

namespace ClassInstrument

/-- What is computed anew while a class is encoded. -/
structure EncodeOptions where
  /-- The sizes of operand stack and locals. -/
  sizes : Bool
  /-- The stack map frames, and with them the sizes. -/
  frames : Bool
deriving DecidableEq, Inhabited, Repr

namespace EncodeOptions

/-- Compute nothing. -/
def none : EncodeOptions := ⟨false, false⟩

/-- The options that the bits of a number set, from the lowest bit up. -/
def ofBits (bits : Nat) : EncodeOptions := ⟨bits.testBit 0, bits.testBit 1⟩

/-- The number whose bits are the options. -/
def toBits (options : EncodeOptions) : Nat := options.sizes.toNat + 2 * options.frames.toNat

end EncodeOptions

namespace ClassFile

/-! ### Methods -/

/-- The body of a method as it is written.  Where frames are not supported, only the sizes are
computed. -/
def prepare (hierarchy : Hierarchy) (options : EncodeOptions) (major : UInt16)
    (header : MethodHeader) (code : Code) : Except Failure Code :=
  if options.frames && framesSupported major header.access then
    code.withFrames hierarchy header
  else if options.frames || options.sizes then code.withSizes header
  else .ok code

/-- The attributes for annotations, as far as there are any. -/
def annotationAttributes (annotations : Annotations) : Builder (List Attribute) := do
  let visible ←
    if annotations.visible.isEmpty then pure []
    else pure [⟨Annotations.visibleName, ← Annotation.encodeAll annotations.visible⟩]
  let invisible ←
    if annotations.invisible.isEmpty then pure []
    else pure [⟨Annotations.invisibleName, ← Annotation.encodeAll annotations.invisible⟩]
  return visible ++ invisible

/-- Access bits, name and descriptor of a member. -/
def encodeHead (access : Access) (name desc : String) : Builder Bytes := do
  let name ← Builder.addUtf8 name
  let desc ← Builder.addUtf8 desc
  return Word.encode access ++ Word.encode name ++ Word.encode desc

/-- The bytes of a field. -/
def encodeField (f : Field) : Builder Bytes := do
  let head ← encodeHead f.access f.name f.desc
  let attributes ← Attribute.encodeAll f.attributes
  return head ++ attributes

/-- The bytes of a method. -/
def encodeMethod (c : ClassFile) (hierarchy : Hierarchy) (options : EncodeOptions) (m : Method) :
    Builder Bytes := do
  let head ← encodeHead m.access m.name m.desc
  let code ← match m.code with
    | none => pure []
    | some code => do
      let code ← Builder.ofExcept (prepare hierarchy options c.major (c.header m) code)
      let body ← code.encode c.major
      pure [Attribute.mk Code.attributeName body]
  let annotations ← annotationAttributes m.annotations
  let attributes ← Attribute.encodeAll (code ++ annotations ++ m.attributes)
  return head ++ attributes

/-! ### The whole class -/

/-- The attribute for bootstrap methods, if there are any. -/
def bootstrapAttribute : Builder (List Attribute) := do
  let tables ← get
  if tables.bootstrap.isEmpty then return []
  else
    let body ← Builder.ofExcept tables.bootstrap.encode
    return [⟨BootstrapTable.attributeName, body⟩]

/-- The bytes behind the constant pool. -/
def encodeBody (c : ClassFile) (hierarchy : Hierarchy) (options : EncodeOptions) :
    Builder Bytes := do
  let name ← Builder.addClass c.name
  let superName ← Builder.addOptionalClass c.superName
  let interfaceCount ← Builder.count "interfaces" c.interfaces.length
  let interfaces ← Builder.concat (fun name => Word.encode <$> Builder.addClass name) c.interfaces
  let fieldCount ← Builder.count "fields" c.fields.length
  let fields ← Builder.concat encodeField c.fields
  let methodCount ← Builder.count "methods" c.methods.length
  let methods ← Builder.concat (c.encodeMethod hierarchy options) c.methods
  let annotations ← annotationAttributes c.annotations
  let bootstrap ← bootstrapAttribute
  let attributes ← Attribute.encodeAll (annotations ++ c.attributes ++ bootstrap)
  return Word.encode c.access ++ Word.encode name ++ Word.encode superName
    ++ interfaceCount ++ interfaces ++ fieldCount ++ fields ++ methodCount ++ methods ++ attributes

/-- The class file of a class. -/
def encode (c : ClassFile) (hierarchy : Hierarchy) (options : EncodeOptions) :
    Except Failure Bytes :=
  match c.encodeBody hierarchy options c.constants with
  | .ok body tables => Header.encode ⟨c.minor, c.major, tables.pool, body⟩
  | .error e _ => .error e

end ClassFile

end ClassInstrument
