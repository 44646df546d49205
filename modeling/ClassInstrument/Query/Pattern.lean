import ClassInstrument.Instruction.Basic

/-!
# Patterns for member accesses

Which calls or field accesses a search is after.

* `MemberPattern` — the parts of a member reference that are given;
* `MatchFlags` — parts to leave out of account;
* `Matcher` — what is left to compare, prepared once per search; `Matcher.accepts` is the test.
-/

namespace ClassInstrument

/-- The parts of a member reference that a search asks for; an absent part allows anything. -/
structure MemberPattern where
  owner : Option String
  name : Option String
  desc : Option String
deriving DecidableEq, Inhabited, Repr

/-- Exactly this member. -/
def MemberPattern.exact (member : MemberRef) : MemberPattern :=
  ⟨some member.owner, some member.name, some member.desc⟩

/-- Parts of a query that are left out of account. -/
structure MatchFlags where
  ignoreOwner : Bool
  ignoreName : Bool
  ignoreDesc : Bool
  ignoreOpcode : Bool
deriving DecidableEq, Inhabited, Repr

/-- The flags that the bits of a number set, from the lowest bit up; further bits mean nothing. -/
def MatchFlags.ofBits (bits : Nat) : MatchFlags :=
  ⟨bits.testBit 0, bits.testBit 1, bits.testBit 2, bits.testBit 3⟩

/-- The two kinds of members. -/
inductive MemberKind where
  | method
  | field
deriving DecidableEq, Inhabited, Repr

/-- The instructions that access a member of a kind. -/
def MemberKind.reserved : MemberKind → Opcode → Bool
  | .method, opcode => opcode.isInvoke
  | .field, opcode => opcode.isFieldAccess

/-- The member of a kind that an operand refers to. -/
def MemberKind.member? : MemberKind → Operand → Option MemberRef
  | .method, .method member _ => some member
  | .field, .field member => some member
  | _, _ => none

/-- The opcodes that a prepared query admits. -/
inductive OpcodeCheck where
  /-- Every instruction that accesses a member of the kind. -/
  | reserved
  | exact (opcode : Opcode)
  /-- None, because the number asked for is no such instruction. -/
  | never
deriving DecidableEq, Repr

/-- One part of a member reference to compare. -/
inductive PartCheck where
  | owner (text : String)
  | name (text : String)
  | desc (text : String)
deriving DecidableEq, Repr

/-- Whether a member has the part. -/
def PartCheck.accepts : PartCheck → MemberRef → Bool
  | .owner text, member => member.owner == text
  | .name text, member => member.name == text
  | .desc text, member => member.desc == text

/-- A query with everything left out that need not be compared. -/
structure Matcher where
  kind : MemberKind
  opcode : OpcodeCheck
  parts : List PartCheck
deriving DecidableEq, Repr

namespace Matcher

/-- Prepare a query.  No opcode stands for all those of the kind; the number given for one need
not be an opcode at all. -/
def prepare (kind : MemberKind) (flags : MatchFlags) (opcode : Option Int)
    (pattern : MemberPattern) : Matcher :=
  let opcodeCheck :=
    if flags.ignoreOpcode then OpcodeCheck.reserved
    else
      match opcode with
      | none => .reserved
      | some number =>
        match Opcode.ofInt? number with
        | some op => if kind.reserved op then .exact op else .never
        | none => .never
  let part (ignored : Bool) (text : Option String) (check : String → PartCheck) :=
    if ignored then [] else (text.map check).toList
  { kind, opcode := opcodeCheck
    parts := part flags.ignoreName pattern.name .name
      ++ part flags.ignoreOwner pattern.owner .owner
      ++ part flags.ignoreDesc pattern.desc .desc }

/-- The number that stands for no opcode. -/
def noOpcode : Int32 := -1

/-- Prepare a query from a number for the opcode, which may be the one for none. -/
def ofNumber (kind : MemberKind) (flags : MatchFlags) (number : Int32) (pattern : MemberPattern) :
    Matcher :=
  prepare kind flags (if number = noOpcode then none else some number.toInt) pattern

/-- Whether an opcode is admitted. -/
def acceptsOpcode (m : Matcher) (opcode : Opcode) : Bool :=
  match m.opcode with
  | .reserved => m.kind.reserved opcode
  | .exact expected => opcode == expected
  | .never => false

/-- Whether an instruction is one that the query is after. -/
def accepts (m : Matcher) : Instruction → Bool
  | .op opcode operand =>
    m.acceptsOpcode opcode &&
      match m.kind.member? operand with
      | some member => m.parts.all (·.accepts member)
      | none => false
  | _ => false

end Matcher

end ClassInstrument
