import Std.Data.HashMap
import ClassInstrument.Pool.Entry

/-!
# The constant pool

The numbered constants of a class.  A pool only ever grows, so an index stays good for ever, and
adding an entry that is already there gives back its index.

* `Pool` — the slots, and for every entry the first slot that holds it;
* `Pool.add` — the index of an entry, appended if it was absent; a pool has at most 65535 slots;
* `Pool.encode`, `Pool.decode` — the form in a class file.
-/

namespace ClassInstrument

/-- The constants of a class. -/
structure Pool where
  slots : Array Entry
  /-- The first slot that holds an entry. -/
  lookup : Std.HashMap Entry UInt16

namespace Pool

/-- Only the first slot, which holds nothing. -/
def empty : Pool := ⟨#[.unusable], ∅⟩

instance : Inhabited Pool := ⟨empty⟩

/-- The number of slots, the first one included. -/
def size (p : Pool) : Nat := p.slots.size

/-- Whether no constant is there. -/
def isEmpty (p : Pool) : Bool := p.size ≤ 1

/-- Append an entry, with the slot behind it if it takes two.  An entry that is there already
keeps its first index. -/
def push (p : Pool) (entry : Entry) : Pool :=
  let index := UInt16.ofNat p.size
  let slots := p.slots.push entry
  { slots := if entry.isWide then slots.push .unusable else slots
    lookup := p.lookup.insertIfNew entry index }

theorem size_push (p : Pool) (entry : Entry) : (p.push entry).size = p.size + entry.width := by
  unfold push size Entry.width
  split <;> simp

/-- The index of an entry, which is appended if it is absent and fits. -/
def add (entry : Entry) : EStateM Failure Pool UInt16 := fun p =>
  match p.lookup[entry]? with
  | some index => .ok index p
  | none =>
    if p.size + entry.width ≤ 65535 then .ok (UInt16.ofNat p.size) (p.push entry)
    else .error (.encoding .poolFull) p

/-! ### Class file form -/

/-- The number of slots and the entries. -/
def encode (p : Pool) : Except Failure Bytes := do
  let count ← countField "constant pool entries" p.size
  let entries ← p.slots.toList.mapM Entry.encode
  .ok (count ++ entries.flatten)

/-- Entries up to a given number of slots, behind those already there. -/
def decodeUpTo (count : Nat) (p : Pool) (c : Cursor) : Except Failure (Pool × Cursor) :=
  if p.size < count then
    match Entry.decode p.size c with
    | .error e => .error e
    | .ok (entry, rest) =>
      if entry.isWide && count ≤ p.size + 1 then .error (.malformed .wideInLastSlot)
      else decodeUpTo count (p.push entry) rest
  else .ok (p, c)
termination_by count - p.size
decreasing_by
  rw [size_push, Entry.width]
  split <;> omega

/-- The pool at the front of some bytes. -/
def decode : Decoder Pool := do
  let count ← Decoder.word (α := UInt16)
  if count == 0 then Decoder.malformed .poolCountZero
  else decodeUpTo count.toNat empty

end Pool

end ClassInstrument
