import ClassInstrument.Sequence

/-!
# Linked sequences

How the instructions of a method body are stored: cells in slots, each with the identities of
its neighbours, so that an insertion or a removal at a known cell touches that cell and the two
beside it and nothing else.  `Sequence` is the list that this storage stands for.

* `Cell`, `Arena` — the slots, both ends, the number of live cells and the next label;
* `Arena.Operation` — what changes an arena; a failure leaves the arena as it is at that point;
* `Arena.pushBack` … `Arena.replace` — the operations, each written on the links;
* `Arena.Iter`, `Arena.nodes`, `Arena.position` — walks along the links;
* `Sequence.Call`, `Arena.run`, `Sequence.run` — the same calls served by the arena and by the
  list, one after another.

The slot of a cell is its identity.  Slots are never freed for another cell, and there are at
most `UInt32.size` of them.
-/

namespace ClassInstrument

/-- An instruction with the identities of its neighbours. -/
structure Cell where
  insn : Instruction
  prev : Option Nat
  next : Option Nat
deriving Inhabited

/-- Linked cells.  A slot is empty when its cell was removed. -/
structure Arena where
  slots : Array (Option Cell)
  first : Option Nat
  last : Option Nat
  length : Nat
  /-- The next label; labels are 32-bit numbers. -/
  labels : UInt32
deriving Inhabited

namespace Arena

/-- No cells and no labels. -/
def empty : Arena := ⟨#[], none, none, 0, 0⟩

/-! ### Looking at a cell -/

/-- The cell with an identity, unless it was removed or never added. -/
def cell? (a : Arena) (id : Nat) : Option Cell := a.slots[id]?.join

/-- The cell with an identity that has to be live. -/
def cell (a : Arena) (id : Nat) : Except Failure Cell :=
  match a.cell? id with
  | some cell => .ok cell
  | none => .error (.misuse (.staleInstruction id))

/-- Whether an identity is live. -/
def contains (a : Arena) (id : Nat) : Bool := (a.cell? id).isSome

/-- The instruction of a cell. -/
def get (a : Arena) (id : Nat) : Except Failure Instruction := (a.cell id).map Cell.insn

/-- The cell behind a cell, if it is not the last. -/
def next? (a : Arena) (id : Nat) : Except Failure (Option Nat) := (a.cell id).map Cell.next

/-- The cell before a cell, if it is not the first. -/
def prev? (a : Arena) (id : Nat) : Except Failure (Option Nat) := (a.cell id).map Cell.prev

def isEmpty (a : Arena) : Bool := a.length == 0

/-! ### Operations -/

/-- A change of an arena.  A failure keeps the arena as it is when the operation fails. -/
abbrev Operation := EStateM Failure Arena

/-- The cell with an identity that has to be live. -/
def find (id : Nat) : Operation Cell := fun a =>
  match a.cell id with
  | .ok cell => .ok cell a
  | .error failure => .error failure a

/-- Change the cell with an identity that has to be live. -/
def change (id : Nat) (f : Cell → Cell) : Operation Unit := do
  let cell ← find id
  modify fun a => { a with slots := a.slots.setIfInBounds id (some (f cell)) }

/-- A new cell, which nothing refers to yet. -/
def allocate (insn : Instruction) (prev next : Option Nat) : Operation Nat := do
  let a ← getThe Arena
  if a.slots.size < UInt32.size then
    set { a with slots := a.slots.push (some ⟨insn, prev, next⟩), length := a.length + 1 }
    return a.slots.size
  else throw (.misuse .arenaFull)

/-- Set what follows a cell, or the first cell when there is none before. -/
def setNext (prev next : Option Nat) : Operation Unit :=
  match prev with
  | some prev => change prev ({ · with next })
  | none => modify ({ · with first := next })

/-- Set what comes before a cell, or the last cell when there is none behind. -/
def setPrev (next prev : Option Nat) : Operation Unit :=
  match next with
  | some next => change next ({ · with prev })
  | none => modify ({ · with last := prev })

/-- Add an instruction at the end. -/
def pushBack (insn : Instruction) : Operation Nat := do
  let last := (← getThe Arena).last
  let id ← allocate insn last none
  setNext last (some id)
  modify ({ · with last := some id })
  return id

/-- Add an instruction at the front. -/
def pushFront (insn : Instruction) : Operation Nat := do
  let first := (← getThe Arena).first
  let id ← allocate insn none first
  setPrev first (some id)
  modify ({ · with first := some id })
  return id

/-- Insert an instruction directly behind a cell. -/
def insertAfter (anchor : Nat) (insn : Instruction) : Operation Nat := do
  let next := (← find anchor).next
  let id ← allocate insn (some anchor) next
  setNext (some anchor) (some id)
  setPrev next (some id)
  return id

/-- Insert an instruction directly before a cell. -/
def insertBefore (anchor : Nat) (insn : Instruction) : Operation Nat := do
  let prev := (← find anchor).prev
  let id ← allocate insn prev (some anchor)
  setPrev (some anchor) (some id)
  setNext prev (some id)
  return id

/-- Insert instructions behind a cell, each behind the one before it. -/
def insertAllAfter (cursor : Nat) : List Instruction → Operation (List Nat)
  | [] => return []
  | insn :: insns => do
    let id ← insertAfter cursor insn
    return id :: (← insertAllAfter id insns)

/-- Insert instructions before a cell, each directly before that cell. -/
def insertAllBefore (anchor : Nat) (insns : List Instruction) : Operation (List Nat) :=
  insns.mapM (insertBefore anchor)

/-- Add instructions at the end, one after another. -/
def extend (insns : List Instruction) : Operation Unit :=
  insns.forM fun insn => discard (pushBack insn)

/-- Take a cell out, link its neighbours to each other and give back its instruction. -/
def remove (id : Nat) : Operation Instruction := do
  let cell ← find id
  modify fun a => { a with slots := a.slots.setIfInBounds id none }
  setNext cell.prev cell.next
  setPrev cell.next cell.prev
  modify fun a => { a with length := a.length - 1 }
  return cell.insn

/-- Put an instruction in the place of another, which is given back. -/
def replace (id : Nat) (insn : Instruction) : Operation Instruction := do
  let cell ← find id
  change id ({ · with insn })
  return cell.insn

/-- Overwrite the instruction of a cell. -/
def write (id : Nat) (insn : Instruction) : Operation Unit := change id ({ · with insn })

/-- The next label. -/
def newLabel : Operation Label :=
  modifyGet fun a => (⟨a.labels.toNat⟩, { a with labels := a.labels + 1 })

/-! ### Walks -/

/-- A walk along the links from the front, with the number of cells that are still to come. -/
structure Iter where
  arena : Arena
  current : Option Nat
  remaining : Nat

/-- The walk over all cells. -/
def iter (a : Arena) : Iter := ⟨a, a.first, a.length⟩

/-- The next cell of a walk and the walk behind it. -/
def Iter.next? (it : Iter) : Except Failure (Option (Node × Iter)) :=
  match it.current with
  | none => .ok none
  | some id => do
    let cell ← it.arena.cell id
    .ok (some (⟨id, cell.insn⟩,
      { it with current := cell.next, remaining := it.remaining - 1 }))

/-- Up to `bound` further cells of a walk. -/
def Iter.collect : Nat → Iter → Except Failure (List Node)
  | 0, _ => .ok []
  | bound + 1, it => do
    match ← it.next? with
    | none => .ok []
    | some (node, it) => .ok (node :: (← it.collect bound))

/-- All cells in the order of the links.  A walk meets no slot twice, so the number of slots
bounds it. -/
def nodes (a : Arena) : Except Failure (List Node) := a.iter.collect a.slots.size

/-- The identities in order. -/
def ids (a : Arena) : Except Failure (List Nat) := a.nodes.map (·.map Node.id)

/-- The instructions in order. -/
def instructions (a : Arena) : Except Failure (List Instruction) := a.nodes.map (·.map Node.insn)

/-- How many links lead from a cell to another, at most `bound`. -/
def distance (a : Arena) (id : Nat) : Nat → Option Nat → Except Failure Nat
  | bound + 1, some current =>
    if current = id then .ok 0
    else do .ok ((← a.distance id bound (← a.next? current)) + 1)
  | _, _ => .ok 0

/-- How many cells come before a cell. -/
def position (a : Arena) (id : Nat) : Except Failure Nat := do
  let _ ← a.cell id
  a.distance id a.slots.size a.first

end Arena

/-! ### Calls -/

namespace Sequence

/-- A call that can change a sequence. -/
inductive Call where
  | pushBack (insn : Instruction)
  | pushFront (insn : Instruction)
  | insertAfter (anchor : Nat) (insn : Instruction)
  | insertBefore (anchor : Nat) (insn : Instruction)
  | insertAllAfter (anchor : Nat) (insns : List Instruction)
  | insertAllBefore (anchor : Nat) (insns : List Instruction)
  | extend (insns : List Instruction)
  | remove (id : Nat)
  | replace (id : Nat) (insn : Instruction)
  | write (id : Nat) (insn : Instruction)
  | newLabel

/-- What a call gives back. -/
inductive Answer where
  | nothing
  | node (id : Nat)
  | nodes (ids : List Nat)
  | insn (insn : Instruction)
  | label (label : Label)

/-- A call on a list of instructions. -/
def serve (s : Sequence) : Call → Except Failure (Answer × Sequence)
  | .pushBack insn => .ok (.node (s.pushBack insn).1, (s.pushBack insn).2)
  | .pushFront insn => .ok (.node (s.pushFront insn).1, (s.pushFront insn).2)
  | .insertAfter anchor insn => (s.insertAfter anchor insn).map fun (id, s) => (.node id, s)
  | .insertBefore anchor insn => (s.insertBefore anchor insn).map fun (id, s) => (.node id, s)
  | .insertAllAfter anchor insns =>
    (s.insertAllAfter anchor insns).map fun (ids, s) => (.nodes ids, s)
  | .insertAllBefore anchor insns =>
    (s.insertAllBefore anchor insns).map fun (ids, s) => (.nodes ids, s)
  | .extend insns => .ok (.nothing, s.append insns)
  | .remove id => (s.remove id).map fun (insn, s) => (.insn insn, s)
  | .replace id insn => (s.replace id insn).map fun (old, s) => (.insn old, s)
  | .write id insn => (s.replace id insn).map fun (_, s) => (.nothing, s)
  | .newLabel => .ok (.label s.newLabel.1, s.newLabel.2)

/-- One call, refused or not. -/
def step (s : Sequence) (call : Call) : Except Failure Answer × Sequence :=
  match s.serve call with
  | .ok (answer, s) => (.ok answer, s)
  | .error failure => (.error failure, s)

/-- Calls one after another, with the answer to each. -/
def run (s : Sequence) : List Call → List (Except Failure Answer) × Sequence
  | [] => ([], s)
  | call :: calls => ((s.step call).1 :: ((s.step call).2.run calls).1, ((s.step call).2.run calls).2)

end Sequence

namespace Arena

open Sequence (Call Answer)

/-- A call on linked cells. -/
def serve : Call → Operation Answer
  | .pushBack insn => .node <$> pushBack insn
  | .pushFront insn => .node <$> pushFront insn
  | .insertAfter anchor insn => .node <$> insertAfter anchor insn
  | .insertBefore anchor insn => .node <$> insertBefore anchor insn
  | .insertAllAfter anchor insns => .nodes <$> insertAllAfter anchor insns
  | .insertAllBefore anchor insns => .nodes <$> insertAllBefore anchor insns
  | .extend insns => (fun _ => .nothing) <$> extend insns
  | .remove id => .insn <$> remove id
  | .replace id insn => .insn <$> replace id insn
  | .write id insn => (fun _ => .nothing) <$> write id insn
  | .newLabel => .label <$> newLabel

/-- One call; the arena is left as the call leaves it, also when it fails. -/
def step (a : Arena) (call : Call) : Except Failure Answer × Arena :=
  match serve call a with
  | .ok answer a => (.ok answer, a)
  | .error failure a => (.error failure, a)

/-- Calls one after another, with the answer to each. -/
def run (a : Arena) : List Call → List (Except Failure Answer) × Arena
  | [] => ([], a)
  | call :: calls => ((a.step call).1 :: ((a.step call).2.run calls).1, ((a.step call).2.run calls).2)

end Arena

end ClassInstrument
