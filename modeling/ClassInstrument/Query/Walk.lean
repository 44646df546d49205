import ClassInstrument.Query.Search
import ClassInstrument.Sequence.Arena

/-!
# Searching along the links

The searches on linked cells.  `Sequence` says what they find; here is how they find it, cell by
cell along the links, with no more cells looked at than needed.

* `Arena.findAll`, `Arena.findOpcode`, `Arena.findReturns`, `Arena.findMembers` — walks over all
  cells;
* `Arena.scan` — the nearest match in a direction, within a limit; `Arena.findNext`,
  `Arena.findPrevious`, `Arena.findNextMember` and `Arena.findPreviousMember` are scans;
* `Arena.stretch` — some cells in a direction; `Arena.window`, `Arena.leading` and `Arena.trailing`
  are put together from stretches;
* `Arena.between` — the cells up to another one.
-/

namespace ClassInstrument.Arena

/-- From a cell to the one beside it, if there is one. -/
abbrev Direction := Nat → Except Failure (Option Nat)

/-! ### All matches -/

/-- The cells whose instruction passes a test. -/
def findAll (a : Arena) (test : Instruction → Bool) : Except Failure (List Nat) :=
  a.nodes.map fun nodes => (nodes.filter fun node => test node.insn).map Node.id

/-- The cells with a given opcode. -/
def findOpcode (a : Arena) (opcode : Opcode) : Except Failure (List Nat) :=
  a.findAll fun insn => insn.opcode? == some opcode

/-- The cells that return from the method. -/
def findReturns (a : Arena) : Except Failure (List Nat) := a.findAll Sequence.returns

/-- The calls or field accesses of a kind. -/
def findMembers (a : Arena) (kind : MemberKind) (flags : MatchFlags) (number : Int32)
    (pattern : MemberPattern) : Except Failure (List Nat) :=
  a.findAll (Matcher.ofNumber kind flags number pattern).accepts

/-! ### The nearest match -/

/-- The first cell that passes a test, from one on in a direction; at most `limit` cells are looked
at. -/
def scan (a : Arena) (step : Direction) (test : Instruction → Bool) :
    Nat → Option Nat → Except Failure (Option Nat)
  | limit + 1, some id => do
    if test (← a.get id) then .ok (some id) else a.scan step test limit (← step id)
  | _, _ => .ok none

/-- The nearest match behind a cell, among at most `limit` cells. -/
def findNext (a : Arena) (start : Nat) (test : Instruction → Bool) (limit : Nat) :
    Except Failure (Option Nat) := do
  a.scan a.next? test limit (← a.next? start)

/-- The nearest match before a cell, among at most `limit` cells. -/
def findPrevious (a : Arena) (start : Nat) (test : Instruction → Bool) (limit : Nat) :
    Except Failure (Option Nat) := do
  a.scan a.prev? test limit (← a.prev? start)

/-- The nearest call or field access behind a cell. -/
def findNextMember (a : Arena) (kind : MemberKind) (start : Nat) (flags : MatchFlags)
    (number : Int32) (pattern : MemberPattern) (limit : Nat) : Except Failure (Option Nat) :=
  a.findNext start (Matcher.ofNumber kind flags number pattern).accepts limit

/-- The nearest call or field access before a cell. -/
def findPreviousMember (a : Arena) (kind : MemberKind) (start : Nat) (flags : MatchFlags)
    (number : Int32) (pattern : MemberPattern) (limit : Nat) : Except Failure (Option Nat) :=
  a.findPrevious start (Matcher.ofNumber kind flags number pattern).accepts limit

/-! ### Stretches -/

/-- Up to `count` cells in a direction, from one on. -/
def stretch (step : Direction) : Nat → Option Nat → Except Failure (List Nat)
  | count + 1, some id => do .ok (id :: (← stretch step count (← step id)))
  | _, _ => .ok []

/-- A cell with up to `before` cells before it and `behind` cells behind it. -/
def window (a : Arena) (id before behind : Nat) : Except Failure (List Nat) := do
  let front ← stretch a.prev? before (← a.prev? id)
  let back ← stretch a.next? behind (← a.next? id)
  .ok (front.reverse ++ id :: back)

/-- Up to `count` cells directly before a cell. -/
def leading (a : Arena) (id count : Nat) : Except Failure (List Nat) :=
  (a.window id count 0).map List.dropLast

/-- Up to `count` cells directly behind a cell. -/
def trailing (a : Arena) (id count : Nat) : Except Failure (List Nat) :=
  (a.window id 0 count).map List.tail

/-- The cells from one on up to another, if the links lead there within `bound` steps. -/
def upTo (a : Arena) (finish : Nat) : Nat → Option Nat → Except Failure (Option (List Nat))
  | bound + 1, some id =>
    if id = finish then .ok (some [])
    else do .ok ((← a.upTo finish bound (← a.next? id)).map (id :: ·))
  | _, _ => .ok none

/-- The cells between two cells, if the second comes behind the first.  No slot is met twice. -/
def between (a : Arena) (start finish : Nat) : Except Failure (Option (List Nat)) := do
  a.upTo finish a.slots.size (← a.next? start)

end ClassInstrument.Arena
