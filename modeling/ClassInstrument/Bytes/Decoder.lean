import ClassInstrument.Bytes.Basic
import ClassInstrument.Failure

/-!
# Decoders

Reading bytes from front to back, with the position kept for formats whose padding depends on it.

* `Cursor` — what is still to be read, and how many bytes came before;
* `Decoder` — a computation that reads from a cursor or fails;
* `Decoder.word`, `Decoder.take`, `Decoder.skip`, `Decoder.align`, `Decoder.peek` — the
  primitives, each refusing with `Failure.outOfBounds` what is not there;
* `Decoder.times`, `Decoder.table`, `Decoder.iterate` — the same decoder over and over, as
  counted tables need it.
-/

namespace ClassInstrument

/-- What is still to be read of some bytes, and how many came before it. -/
structure Cursor where
  position : Nat
  rest : Bytes
deriving Inhabited

namespace Cursor

/-- At the front of some bytes. -/
def start (bytes : Bytes) : Cursor := ⟨0, bytes⟩

/-- At an absolute position of some bytes; the end is allowed. -/
def at? (bytes : Bytes) (position : Nat) : Except Failure Cursor :=
  if position ≤ bytes.length then .ok ⟨position, bytes.drop position⟩ else .error .outOfBounds

end Cursor

/-- A computation that reads bytes and may fail. -/
abbrev Decoder (α : Type) := StateT Cursor (Except Failure) α

namespace Decoder

/-- Fail because of the bytes read so far. -/
def malformed {α : Type} (cause : Malformation) : Decoder α := fun _ => .error (.malformed cause)

/-- The next fixed-width number. -/
def word {α : Type} [Word α] : Decoder α := fun c =>
  match Word.read? c.rest with
  | some (value, rest) => .ok (value, ⟨c.position + Word.width α, rest⟩)
  | none => .error .outOfBounds

/-- The next `count` bytes. -/
def take (count : Nat) : Decoder Bytes := fun c =>
  match c.rest.split? count with
  | some (front, rest) => .ok (front, ⟨c.position + count, rest⟩)
  | none => .error .outOfBounds

/-- Leave out the next `count` bytes. -/
def skip (count : Nat) : Decoder Unit := fun c =>
  match c.rest.split? count with
  | some (_, rest) => .ok ((), ⟨c.position + count, rest⟩)
  | none => .error .outOfBounds

/-- Leave out bytes up to the next multiple of `alignment`, counted from the position `base`. -/
def align (base alignment : Nat) : Decoder Unit := fun c =>
  skip ((alignment - (c.position - base) % alignment) % alignment) c

/-- The next byte, which stays unread. -/
def peek : Decoder UInt8 := fun c =>
  match c.rest with
  | byte :: _ => .ok (byte, c)
  | [] => .error .outOfBounds

/-- Whether nothing is left to read. -/
def atEnd : Decoder Bool := fun c => .ok (c.rest.isEmpty, c)

/-- A decoder `count` times over, behind the values already read (last first). -/
def timesOnto {α : Type} (d : Decoder α) : Nat → List α → Decoder (List α)
  | 0, read => fun c => .ok (read.reverse, c)
  | count + 1, read => fun c =>
    match d c with
    | .ok (value, rest) => timesOnto d count (value :: read) rest
    | .error e => .error e

/-- The values of a decoder run `count` times. -/
def times {α : Type} (count : Nat) (d : Decoder α) : Decoder (List α) := timesOnto d count []

/-- A table with a two-byte count in front. -/
def table {α : Type} (d : Decoder α) : Decoder (List α) := do
  let count ← word (α := UInt16)
  times count.toNat d

/-- A step `count` times over, each starting from what the last one gave. -/
def iterate {α : Type} (step : α → Decoder α) : Nat → α → Decoder α
  | 0, state => fun c => .ok (state, c)
  | count + 1, state => fun c =>
    match step state c with
    | .ok (state, rest) => iterate step count state rest
    | .error e => .error e

/-- Run a decoder on some bytes, not minding what it leaves. -/
def onBytes {α : Type} (d : Decoder α) (bytes : Bytes) : Except Failure α :=
  match d (.start bytes) with
  | .ok (value, _) => .ok value
  | .error e => .error e

/-- Use what a lookup gave. -/
def ofExcept {α : Type} : Except Failure α → Decoder α
  | .ok value => fun c => .ok (value, c)
  | .error e => fun _ => .error e

/-! ### Laws of the primitives -/

/-- A number at the front is read, and what follows is left. -/
theorem word_encode {α : Type} [Word α] (value : α) (position : Nat) (rest : Bytes) :
    word ⟨position, Word.encode value ++ rest⟩
      = Except.ok (value, Cursor.mk (position + Word.width α) rest) := by
  simp [word]

/-- Bytes at the front are read, and what follows is left. -/
theorem take_append (front : Bytes) (position : Nat) (rest : Bytes) :
    take front.length ⟨position, front ++ rest⟩
      = Except.ok (front, Cursor.mk (position + front.length) rest) := by
  simp [take, Bytes.split?_append rfl]

theorem timesOnto_eq {α : Type} (d : Decoder α) (count : Nat) (read : List α) (c : Cursor) :
    timesOnto d count read c = (timesOnto d count [] c).map fun r => (read.reverse ++ r.1, r.2) := by
  induction count generalizing read c with
  | zero => simp [timesOnto, Except.map]
  | succ count ih =>
    unfold timesOnto
    cases d c with
    | error e => rfl
    | ok r =>
      simp only
      rw [ih (r.1 :: read), ih [r.1]]
      cases timesOnto d count [] r.2 <;> simp [Except.map]

/-- One run first, then the others. -/
theorem times_succ {α : Type} (d : Decoder α) (count : Nat) (c : Cursor) :
    times (count + 1) d c = (match d c with
      | .ok (value, rest) => (times count d rest).map fun r => (value :: r.1, r.2)
      | .error e => .error e) := by
  simp only [times, timesOnto]
  cases d c with
  | error e => rfl
  | ok r => exact timesOnto_eq d count [r.1] r.2

end Decoder

end ClassInstrument
