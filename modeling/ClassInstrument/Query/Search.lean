import ClassInstrument.Query.Pattern
import ClassInstrument.Sequence

/-!
# Searching instruction sequences

Every search is a list operation on the nodes before or behind an anchor.

* `findAll`, `findOpcode`, `findMembers`, `findReturns` — all nodes that pass a test, in order;
* `findNext`, `findPrevious` — the nearest one in a direction, within a limit;
* `window`, `leading`, `trailing`, `between` — stretches around and between nodes;
* `throwing` — the instructions that create and throw an exception.
-/

namespace ClassInstrument.Sequence

/-! ### All matches -/

/-- The nodes whose instruction passes a test. -/
def findAll (s : Sequence) (test : Instruction → Bool) : List Nat :=
  (s.nodes.filter fun node => test node.insn).map Node.id

/-- The nodes with a given opcode. -/
def findOpcode (s : Sequence) (opcode : Opcode) : List Nat :=
  s.findAll fun insn => insn.opcode? == some opcode

/-- The calls or field accesses that a query is after. -/
def findMembers (s : Sequence) (query : Matcher) : List Nat := s.findAll query.accepts

/-- Whether an instruction returns from the method. -/
def returns (insn : Instruction) : Bool := (insn.opcode?.map Opcode.isReturn).getD false

/-- The nodes that return from the method. -/
def findReturns (s : Sequence) : List Nat := s.findAll returns

/-! ### The nearest match -/

/-- The first of at most `limit` nodes that passes a test. -/
def nearest (nodes : List Node) (test : Instruction → Bool) (limit : Option Nat) : Option Nat :=
  let within := match limit with
    | some count => nodes.take count
    | none => nodes
  (within.find? fun node => test node.insn).map Node.id

/-- The nearest match behind a node, among at most `limit` nodes. -/
def findNext (s : Sequence) (start : Nat) (test : Instruction → Bool) (limit : Option Nat) :
    Except Failure (Option Nat) :=
  (s.split start).map fun parts => nearest parts.behind test limit

/-- The nearest match before a node, among at most `limit` nodes. -/
def findPrevious (s : Sequence) (start : Nat) (test : Instruction → Bool) (limit : Option Nat) :
    Except Failure (Option Nat) :=
  (s.split start).map fun parts => nearest parts.before.reverse test limit

/-! ### Stretches -/

/-- Up to `count` nodes directly before a node. -/
def leading (s : Sequence) (id count : Nat) : Except Failure (List Nat) :=
  (s.split id).map fun parts => (parts.before.drop (parts.before.length - count)).map Node.id

/-- Up to `count` nodes directly behind a node. -/
def trailing (s : Sequence) (id count : Nat) : Except Failure (List Nat) :=
  (s.split id).map fun parts => (parts.behind.take count).map Node.id

/-- A node with up to `before` nodes before it and `behind` nodes behind it. -/
def window (s : Sequence) (id before behind : Nat) : Except Failure (List Nat) := do
  let front ← s.leading id before
  let back ← s.trailing id behind
  .ok (front ++ id :: back)

/-- The nodes between two nodes, if the second comes behind the first. -/
def between (s : Sequence) (start finish : Nat) : Except Failure (Option (List Nat)) :=
  (s.split start).map fun parts =>
    if parts.behind.any (·.id == finish) then
      some ((parts.behind.takeWhile (·.id ≠ finish)).map Node.id)
    else none

/-! ### Instructions to insert -/

/-- Create an exception of a class, with a message if there is one, and throw it. -/
def throwing (type : String) (message : Option String) : List Instruction :=
  [.op Opcode.new (.type type), .simple Opcode.dup]
    ++ (message.map fun text => Instruction.ldc (.string text)).toList
    ++ [.call Opcode.invokespecial type "<init>"
          (if message.isSome then "(Ljava/lang/String;)V" else "()V") false,
        .simple Opcode.athrow]

end ClassInstrument.Sequence
