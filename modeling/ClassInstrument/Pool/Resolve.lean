import ClassInstrument.Pool.Basic
import ClassInstrument.Pool.Bootstrap

/-!
# What constants mean

Following the indices of a constant pool to the names, members and values they stand for.

* `Pool.get`, `Pool.utf8`, `Pool.className`, `Pool.nameAndType`, `Pool.memberRef`, `Pool.handle`;
* `Pool.dynamicCall`, `Pool.constant` — values that may be computed by bootstrap methods, whose
  arguments may be computed in turn.  No more than `Pool.dynamicLevels` such levels are followed.

An index that is out of range, or refers to an entry of another kind, is malformed.
-/

namespace ClassInstrument.Pool

/-- Refuse what an index refers to. -/
def refuse {α : Type} (cause : Malformation) : Except Failure α := .error (.malformed cause)

/-- The entry at an index, which has to be a usable slot. -/
def get (p : Pool) (index : UInt16) : Except Failure Entry :=
  match p.slots[index.toNat]? with
  | none | some .unusable => refuse (.poolIndex index)
  | some entry => .ok entry

/-- The text at an index. -/
def utf8 (p : Pool) (index : UInt16) : Except Failure String := do
  match ← p.get index with
  | .utf8 text => .ok text
  | _ => refuse (.poolKind index .utf8)

/-- The class name at an index. -/
def className (p : Pool) (index : UInt16) : Except Failure String := do
  match ← p.get index with
  | .classRef name => p.utf8 name
  | _ => refuse (.poolKind index .classRef)

/-- The class name at an index, where index 0 stands for no class. -/
def optionalClassName (p : Pool) (index : UInt16) : Except Failure (Option String) :=
  if index == 0 then .ok none else (p.className index).map some

/-- The name and descriptor at an index. -/
def nameAndType (p : Pool) (index : UInt16) : Except Failure (String × String) := do
  match ← p.get index with
  | .nameAndType name desc =>
    let name ← p.utf8 name
    let desc ← p.utf8 desc
    .ok (name, desc)
  | _ => refuse (.poolKind index .nameAndType)

/-- A member by the indices of its class and of its name and type. -/
def member (p : Pool) (owner nameAndType : UInt16) : Except Failure MemberRef := do
  let owner ← p.className owner
  let (name, desc) ← p.nameAndType nameAndType
  .ok ⟨owner, name, desc⟩

/-- The field or method at an index, and whether it belongs to an interface. -/
def memberRef (p : Pool) (index : UInt16) : Except Failure (MemberRef × Bool) := do
  match ← p.get index with
  | .fieldRef owner member | .methodRef owner member =>
    .ok (← p.member owner member, false)
  | .interfaceMethodRef owner member => .ok (← p.member owner member, true)
  | _ => refuse (.poolKind index .memberRef)

/-- The method handle at an index. -/
def handle (p : Pool) (index : UInt16) : Except Failure Handle := do
  match ← p.get index with
  | .methodHandle kind reference =>
    let (member, onInterface) ← p.memberRef reference
    .ok ⟨kind, member.owner, member.name, member.desc, onInterface⟩
  | _ => refuse (.poolKind index .methodHandle)

/-! ### Computed values -/

/-- How many levels of computed values are followed. -/
def dynamicLevels : Nat := 33

/-- The value at an index, given how to follow a computed one. -/
def constantWith (p : Pool) (call : UInt16 → Except Failure DynamicCall) (index : UInt16) :
    Except Failure Constant := do
  match ← p.get index with
  | .integer value => .ok (.int value)
  | .float bits => .ok (.float bits)
  | .long value => .ok (.long value)
  | .double bits => .ok (.double bits)
  | .string text => .ok (.string (← p.utf8 text))
  | .classRef name => .ok (.classRef (← p.utf8 name))
  | .methodType desc => .ok (.methodType (← p.utf8 desc))
  | .methodHandle .. => .ok (.handle (← p.handle index))
  | .dynamic .. => .ok (← call index).toConstant
  | _ => refuse (.poolKind index .loadable)

/-- The bootstrap method and the name and type behind a computed value. -/
def dynamicParts (p : Pool) (index : UInt16) : Except Failure (UInt16 × UInt16) := do
  match ← p.get index with
  | .dynamic bootstrap nameAndType | .invokeDynamic bootstrap nameAndType =>
    .ok (bootstrap, nameAndType)
  | _ => refuse (.poolKind index .dynamic)

/-- The call at an index, following at most `levels` levels. -/
def dynamicCallWithin (p : Pool) (t : BootstrapTable) :
    Nat → UInt16 → Except Failure DynamicCall
  | 0, _ => refuse .dynamicTooDeep
  | levels + 1, index => do
    let (bootstrap, nameAndType) ← p.dynamicParts index
    match t.get? bootstrap with
    | none => refuse (.bootstrapIndex bootstrap)
    | some method =>
      let (name, desc) ← p.nameAndType nameAndType
      let args ← method.args.mapM (p.constantWith (p.dynamicCallWithin t levels))
      let bootstrap ← p.handle method.handle
      .ok { name, desc, bootstrap, args }

/-- The call that a call site or computed constant makes. -/
def dynamicCall (p : Pool) (t : BootstrapTable) (index : UInt16) : Except Failure DynamicCall :=
  p.dynamicCallWithin t dynamicLevels index

/-- The loadable constant at an index. -/
def constant (p : Pool) (t : BootstrapTable) (index : UInt16) : Except Failure Constant :=
  p.constantWith (p.dynamicCall t) index

end ClassInstrument.Pool
