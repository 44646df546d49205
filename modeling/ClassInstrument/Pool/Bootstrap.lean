import Std.Data.HashMap
import ClassInstrument.Pool.Entry

/-!
# Bootstrap methods

The table of bootstrap methods that dynamic constants and call sites refer to.  Like the constant
pool it only grows, and adding a method that is already there gives back its index.

* `BootstrapMethod` — a handle and static arguments, as constant pool indices;
* `BootstrapTable` — the methods, and for every method the first index that holds it;
* `BootstrapTable.add`, `BootstrapTable.encode`, `BootstrapTable.decode`.
-/

namespace ClassInstrument

/-- A bootstrap method: a method handle and static arguments, all as constant pool indices. -/
structure BootstrapMethod where
  handle : UInt16
  args : List UInt16
deriving DecidableEq, Inhabited, Repr, Hashable

/-- The bootstrap methods of a class. -/
structure BootstrapTable where
  methods : Array BootstrapMethod
  /-- The first index of a method. -/
  lookup : Std.HashMap BootstrapMethod UInt16

namespace BootstrapTable

/-- No methods. -/
def empty : BootstrapTable := ⟨#[], ∅⟩

instance : Inhabited BootstrapTable := ⟨empty⟩

/-- The number of methods. -/
def size (t : BootstrapTable) : Nat := t.methods.size

def isEmpty (t : BootstrapTable) : Bool := t.methods.isEmpty

/-- The method at an index. -/
def get? (t : BootstrapTable) (index : UInt16) : Option BootstrapMethod := t.methods[index.toNat]?

/-- Append a method.  One that is there already keeps its first index. -/
def push (t : BootstrapTable) (method : BootstrapMethod) : BootstrapTable :=
  let index := UInt16.ofNat t.size
  ⟨t.methods.push method, t.lookup.insertIfNew method index⟩

/-- The index of a method, which is appended if it is absent and fits. -/
def add (method : BootstrapMethod) : EStateM Failure BootstrapTable UInt16 := fun t =>
  match t.lookup[method]? with
  | some index => .ok index t
  | none =>
    if t.size < 65535 then .ok (UInt16.ofNat t.size) (t.push method)
    else .error (.encoding .bootstrapFull) t

/-! ### Class file form -/

/-- The handle, the number of arguments and the arguments. -/
def encodeMethod (method : BootstrapMethod) : Except Failure Bytes := do
  let count ← countField "bootstrap arguments" method.args.length
  .ok (Word.encode method.handle ++ count ++ method.args.flatMap Word.encode)

/-- The number of methods and the methods. -/
def encode (t : BootstrapTable) : Except Failure Bytes := do
  let count ← countField "bootstrap methods" t.size
  let methods ← t.methods.toList.mapM encodeMethod
  .ok (count ++ methods.flatten)

/-- One method. -/
def decodeMethod : Decoder BootstrapMethod := do
  let handle ← Decoder.word
  let args ← Decoder.table Decoder.word
  return ⟨handle, args⟩

/-- The table at the front of some bytes; methods stay where they are even if they repeat. -/
def decode : Decoder BootstrapTable := do
  let methods ← Decoder.table decodeMethod
  return methods.foldl push empty

end BootstrapTable

end ClassInstrument
