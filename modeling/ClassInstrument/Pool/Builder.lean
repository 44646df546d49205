import ClassInstrument.Pool.Basic
import ClassInstrument.Pool.Bootstrap

/-!
# Adding constants

Entries that refer to others need those first.  A `Builder` adds to a pool and a bootstrap table
and gives indices; what was added before a failure stays.

* `ConstantTables` — the pool and the bootstrap table of a class;
* `Builder` — a computation that adds to them;
* `Builder.addUtf8`, `Builder.addClass`, `Builder.addNameAndType`, `Builder.addFieldRef`,
  `Builder.addMethodRef`, `Builder.addHandle` — entries and what they refer to;
* `Builder.addConstant`, `Builder.addInvokeDynamic` — values and calls of bootstrap methods.
-/

namespace ClassInstrument

/-- The tables that constants are added to. -/
structure ConstantTables where
  pool : Pool
  bootstrap : BootstrapTable
deriving Inhabited

/-- A computation that adds constants and may fail, keeping what it had added. -/
abbrev Builder (α : Type) := EStateM Failure ConstantTables α

namespace Builder

/-- Use a result that adds nothing. -/
def ofExcept {α : Type} : Except Failure α → Builder α
  | .ok value => pure value
  | .error e => throw e

/-- The index of an entry, appended if absent. -/
def add (entry : Entry) : Builder UInt16 := fun tables =>
  match tables with
  | ⟨pool, bootstrap⟩ =>
    match Pool.add entry pool with
    | .ok index pool => .ok index ⟨pool, bootstrap⟩
    | .error e pool => .error e ⟨pool, bootstrap⟩

/-- The index of a bootstrap method, appended if absent. -/
def addBootstrapMethod (method : BootstrapMethod) : Builder UInt16 := fun tables =>
  match tables with
  | ⟨pool, bootstrap⟩ =>
    match BootstrapTable.add method bootstrap with
    | .ok index bootstrap => .ok index ⟨pool, bootstrap⟩
    | .error e bootstrap => .error e ⟨pool, bootstrap⟩

/-! ### Entries with what they refer to -/

def addUtf8 (text : String) : Builder UInt16 := add (.utf8 text)

def addClass (name : String) : Builder UInt16 := do
  let name ← addUtf8 name
  add (.classRef name)

/-- The index of a class, or 0 for none. -/
def addOptionalClass : Option String → Builder UInt16
  | some name => addClass name
  | none => pure 0

def addNameAndType (name desc : String) : Builder UInt16 := do
  let name ← addUtf8 name
  let desc ← addUtf8 desc
  add (.nameAndType name desc)

/-- A member reference of a given form. -/
def addMember (form : UInt16 → UInt16 → Entry) (member : MemberRef) : Builder UInt16 := do
  let owner ← addClass member.owner
  let nameAndType ← addNameAndType member.name member.desc
  add (form owner nameAndType)

def addFieldRef (member : MemberRef) : Builder UInt16 := addMember .fieldRef member

def addMethodRef (member : MemberRef) (onInterface : Bool) : Builder UInt16 :=
  addMember (if onInterface then .interfaceMethodRef else .methodRef) member

/-- A method handle; the low reference kinds refer to a field. -/
def addHandle (handle : Handle) : Builder UInt16 := do
  let reference ←
    if handle.kind ≤ Opcode.lastFieldKind then addFieldRef handle.member
    else addMethodRef handle.member handle.onInterface
  add (.methodHandle handle.kind reference)

/-! ### Values and calls -/

mutual

/-- The index of a loadable constant. -/
def addConstant : Constant → Builder UInt16
  | .int value => add (.integer value)
  | .float bits => add (.float bits)
  | .long value => add (.long value)
  | .double bits => add (.double bits)
  | .string text => do
    let text ← addUtf8 text
    add (.string text)
  | .classRef name => addClass name
  | .methodType desc => do
    let desc ← addUtf8 desc
    add (.methodType desc)
  | .handle h => addHandle h
  | .dynamic name desc bootstrap args => do
    let handle ← addHandle bootstrap
    let args ← addConstants args
    let method ← addBootstrapMethod ⟨handle, args⟩
    let nameAndType ← addNameAndType name desc
    add (.dynamic method nameAndType)

/-- The indices of several loadable constants. -/
def addConstants : List Constant → Builder (List UInt16)
  | [] => pure []
  | c :: cs => do
    let index ← addConstant c
    let rest ← addConstants cs
    return index :: rest

end

/-- The index of a call site. -/
def addInvokeDynamic (call : DynamicCall) : Builder UInt16 := do
  let handle ← addHandle call.bootstrap
  let args ← addConstants call.args
  let method ← addBootstrapMethod ⟨handle, args⟩
  let nameAndType ← addNameAndType call.name call.desc
  add (.invokeDynamic method nameAndType)

/-- Run a computation with a bootstrap table of its own, which is forgotten afterwards. -/
def withOwnBootstrap {α : Type} (build : Builder α) : Builder α := fun tables =>
  match tables with
  | ⟨pool, bootstrap⟩ =>
    match build ⟨pool, .empty⟩ with
    | .ok value ⟨pool, _⟩ => .ok value ⟨pool, bootstrap⟩
    | .error e ⟨pool, _⟩ => .error e ⟨pool, bootstrap⟩

/-- The bytes of a table's length, which has to fit two of them. -/
def count (what : String) (count : Nat) : Builder Bytes := ofExcept (countField what count)

/-- The bytes that a computation gives for each of several values, in their order, behind chunks
already written (last first). -/
def concatOnto {α : Type} (build : α → Builder Bytes) : List Bytes → List α → Builder Bytes
  | written, [] => pure written.reverse.flatten
  | written, value :: values => do
    let chunk ← build value
    concatOnto build (chunk :: written) values

/-- The bytes that a computation gives for each of several values, in their order. -/
def concat {α : Type} (build : α → Builder Bytes) (values : List α) : Builder Bytes :=
  concatOnto build [] values

end Builder

end ClassInstrument
