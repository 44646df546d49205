import ClassInstrument.Failure

/-!
# Instruction sequences

The instructions of one method body in order, each with an identity that stays with it while
others are inserted and removed around it.

* `Sequence` — the nodes in order, the next free identity and the number of labels handed out;
* growing: `pushBack`, `pushFront`, `insertAfter`, `insertBefore`, and the same for several;
* `remove`, `replace` — take one node out or change it, whose identity must be live;
* `insertBeforeEach`, `replaceEach` — the same wherever an instruction passes a test;
* `next?`, `prev?`, `position?` — neighbours and place of a node;
* `newLabel` — a label that no earlier call has given out.

Identities are never used twice, not even after a removal.  An operation on one that is not in
the sequence is refused as `Misuse.staleInstruction` and gives no new sequence.
-/

namespace ClassInstrument

/-- An instruction with its identity. -/
structure Node where
  id : Nat
  insn : Instruction
deriving Inhabited

/-- The instructions of a method body in order. -/
structure Sequence where
  nodes : List Node
  /-- The identity of the next node that is added; all earlier ones are smaller. -/
  nextId : Nat
  /-- The number of labels handed out; they are the ones below this number. -/
  labelCount : Nat
deriving Inhabited

namespace Sequence

/-! ### Building and viewing -/

/-- No instructions and no labels. -/
def empty : Sequence := ⟨[], 0, 0⟩

/-- Nodes for some instructions, with consecutive identities. -/
def number (first : Nat) (insns : List Instruction) : List Node :=
  insns.mapIdx fun i insn => ⟨first + i, insn⟩

/-- The instructions in order, with identities from zero and a given number of labels. -/
def ofList (insns : List Instruction) (labelCount : Nat) : Sequence :=
  ⟨number 0 insns, insns.length, labelCount⟩

/-- The instructions in order. -/
def toList (s : Sequence) : List Instruction := s.nodes.map Node.insn

/-- The identities in order. -/
def ids (s : Sequence) : List Nat := s.nodes.map Node.id

def length (s : Sequence) : Nat := s.nodes.length

def isEmpty (s : Sequence) : Bool := s.nodes.isEmpty

/-- The first node. -/
def first? (s : Sequence) : Option Nat := s.nodes.head?.map Node.id

/-- The last node. -/
def last? (s : Sequence) : Option Nat := s.nodes.getLast?.map Node.id

/-- A label that was not handed out before. -/
def newLabel (s : Sequence) : Label × Sequence :=
  (⟨s.labelCount⟩, { s with labelCount := s.labelCount + 1 })

/-! ### Finding a node -/

/-- A node with the ones before and behind it. -/
structure Split where
  before : List Node
  node : Node
  behind : List Node

/-- The sequence around a node. -/
def split? (s : Sequence) (id : Nat) : Option Split :=
  match s.nodes.dropWhile (·.id ≠ id) with
  | node :: behind => some ⟨s.nodes.takeWhile (·.id ≠ id), node, behind⟩
  | [] => none

/-- The sequence around a node that has to be there. -/
def split (s : Sequence) (id : Nat) : Except Failure Split :=
  match s.split? id with
  | some parts => .ok parts
  | none => .error (.misuse (.staleInstruction id))

/-- Whether a node is in the sequence. -/
def contains (s : Sequence) (id : Nat) : Bool := (s.split? id).isSome

/-- The instruction of a node. -/
def get (s : Sequence) (id : Nat) : Except Failure Instruction :=
  (s.split id).map (·.node.insn)

/-- The node behind a node, if it is not the last. -/
def next? (s : Sequence) (id : Nat) : Except Failure (Option Nat) :=
  (s.split id).map (·.behind.head?.map Node.id)

/-- The node before a node, if it is not the first. -/
def prev? (s : Sequence) (id : Nat) : Except Failure (Option Nat) :=
  (s.split id).map (·.before.getLast?.map Node.id)

/-- How many nodes come before a node. -/
def position (s : Sequence) (id : Nat) : Except Failure Nat :=
  (s.split id).map (·.before.length)

/-! ### Growing -/

/-- Add instructions at the end. -/
def append (s : Sequence) (insns : List Instruction) : Sequence :=
  { s with nodes := s.nodes ++ number s.nextId insns, nextId := s.nextId + insns.length }

/-- Add an instruction at the end; its identity is the one that was free. -/
def pushBack (s : Sequence) (insn : Instruction) : Nat × Sequence := (s.nextId, s.append [insn])

/-- Add an instruction at the front. -/
def pushFront (s : Sequence) (insn : Instruction) : Nat × Sequence :=
  (s.nextId, { s with nodes := ⟨s.nextId, insn⟩ :: s.nodes, nextId := s.nextId + 1 })

/-- Add instructions at the front, in their order. -/
def prepend (s : Sequence) (insns : List Instruction) : Sequence :=
  { s with nodes := number s.nextId insns ++ s.nodes, nextId := s.nextId + insns.length }

/-- Nodes with instructions inserted before each that passes a test, behind nodes already seen
(last first); new nodes are numbered from `nextId` on. -/
def insertOnto (test : Instruction → Bool) (insns : List Instruction) (seen : List Node)
    (nextId : Nat) : List Node → List Node × Nat
  | [] => (seen.reverse, nextId)
  | node :: nodes =>
    if test node.insn then
      insertOnto test insns (node :: (number nextId insns).reverse ++ seen) (nextId + insns.length)
        nodes
    else insertOnto test insns (node :: seen) nextId nodes

/-- Insert instructions directly before each one that passes a test. -/
def insertBeforeEach (s : Sequence) (test : Instruction → Bool) (insns : List Instruction) :
    Sequence :=
  let (nodes, nextId) := insertOnto test insns [] s.nextId s.nodes
  { s with nodes, nextId }

/-- Insert instructions directly behind a node, in their order.  Nothing is asked of the node
when there is nothing to insert. -/
def insertAllAfter (s : Sequence) (anchor : Nat) (insns : List Instruction) :
    Except Failure (List Nat × Sequence) :=
  if insns.isEmpty then .ok ([], s)
  else do
    let parts ← s.split anchor
    let added := number s.nextId insns
    .ok (added.map Node.id,
      { s with
        nodes := parts.before ++ parts.node :: added ++ parts.behind
        nextId := s.nextId + insns.length })

/-- Insert instructions directly before a node, in their order. -/
def insertAllBefore (s : Sequence) (anchor : Nat) (insns : List Instruction) :
    Except Failure (List Nat × Sequence) :=
  if insns.isEmpty then .ok ([], s)
  else do
    let parts ← s.split anchor
    let added := number s.nextId insns
    .ok (added.map Node.id,
      { s with
        nodes := parts.before ++ added ++ parts.node :: parts.behind
        nextId := s.nextId + insns.length })

/-- Insert an instruction directly behind a node. -/
def insertAfter (s : Sequence) (anchor : Nat) (insn : Instruction) :
    Except Failure (Nat × Sequence) :=
  (s.insertAllAfter anchor [insn]).map fun r => (s.nextId, r.2)

/-- Insert an instruction directly before a node. -/
def insertBefore (s : Sequence) (anchor : Nat) (insn : Instruction) :
    Except Failure (Nat × Sequence) :=
  (s.insertAllBefore anchor [insn]).map fun r => (s.nextId, r.2)

/-! ### Changing and removing -/

/-- Take a node out and give back its instruction. -/
def remove (s : Sequence) (id : Nat) : Except Failure (Instruction × Sequence) := do
  let parts ← s.split id
  .ok (parts.node.insn, { s with nodes := parts.before ++ parts.behind })

/-- Put an instruction in the place of another, which is given back. -/
def replace (s : Sequence) (id : Nat) (insn : Instruction) :
    Except Failure (Instruction × Sequence) := do
  let parts ← s.split id
  .ok (parts.node.insn, { s with nodes := parts.before ++ ⟨id, insn⟩ :: parts.behind })

/-- Put an instruction in the place of each one that passes a test. -/
def replaceEach (s : Sequence) (test : Instruction → Bool) (insn : Instruction) : Sequence :=
  { s with nodes := s.nodes.map fun node => if test node.insn then { node with insn } else node }

/-! ### Small laws of the views -/

@[simp] theorem length_number (first : Nat) (insns : List Instruction) :
    (number first insns).length = insns.length := by simp [number]

@[simp] theorem map_insn_number (first : Nat) (insns : List Instruction) :
    (number first insns).map Node.insn = insns := by
  apply List.ext_getElem <;> simp [number]

@[simp] theorem toList_ofList (insns : List Instruction) (labelCount : Nat) :
    (ofList insns labelCount).toList = insns := by simp [ofList, toList]

@[simp] theorem toList_prepend (s : Sequence) (insns : List Instruction) :
    (s.prepend insns).toList = insns ++ s.toList := by simp [prepend, toList]

theorem insertOnto_insns (test : Instruction → Bool) (insns : List Instruction)
    (seen : List Node) (nextId : Nat) (nodes : List Node) :
    (insertOnto test insns seen nextId nodes).1.map Node.insn
      = seen.reverse.map Node.insn
        ++ (nodes.map Node.insn).flatMap fun insn => if test insn then insns ++ [insn] else [insn] := by
  fun_induction insertOnto test insns seen nextId nodes <;> simp_all [List.map_reverse]

@[simp] theorem toList_insertBeforeEach (s : Sequence) (test : Instruction → Bool)
    (insns : List Instruction) :
    (s.insertBeforeEach test insns).toList
      = s.toList.flatMap fun insn => if test insn then insns ++ [insn] else [insn] := by
  simp [insertBeforeEach, toList, insertOnto_insns]

@[simp] theorem toList_replaceEach (s : Sequence) (test : Instruction → Bool)
    (insn : Instruction) :
    (s.replaceEach test insn).toList
      = s.toList.map fun old => if test old then insn else old := by
  simp only [replaceEach, toList, List.map_map]
  refine List.map_congr_left fun node _ => ?_
  simp only [Function.comp_apply]
  split <;> rfl

@[simp] theorem toList_append (s : Sequence) (insns : List Instruction) :
    (s.append insns).toList = s.toList ++ insns := by simp [append, toList]

/-- A split loses nothing, and the node it names is the one that was asked for. -/
theorem split?_eq_some {s : Sequence} {id : Nat} {parts : Split} (h : s.split? id = some parts) :
    s.nodes = parts.before ++ parts.node :: parts.behind ∧ parts.node.id = id := by
  have whole := List.takeWhile_append_dropWhile (p := fun n : Node => decide (n.id ≠ id))
    (l := s.nodes)
  have head := List.head?_dropWhile_not (fun n : Node => decide (n.id ≠ id)) s.nodes
  unfold split? at h
  generalize s.nodes.dropWhile (fun n => decide (n.id ≠ id)) = dropped at h whole head
  cases dropped with
  | nil => simp at h
  | cons node behind =>
    cases Option.some.inj h
    exact ⟨whole.symm, by simpa using head⟩

end Sequence

end ClassInstrument
