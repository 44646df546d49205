
/-!
# Big-endian bytes

Every quantity of a class file is stored most significant byte first.  Bytes are a
`List UInt8`: lists are what proofs take apart, and reading is peeling off a front.

* `Bytes.ofNat` / `Bytes.toNat` — a number in a given width, and the number some bytes spell;
  `toNat_ofNat` says that a number reads back modulo what its width can hold.
* `Bytes.split?` — the first `count` bytes and the rest, when there are that many.
* `Word` — the fixed-width numbers, signed ones in two's complement; `Word.read?_encode` is
  the round trip, whatever follows the number.
-/

namespace ClassInstrument

-- Powers of numbers are those of the core library, whatever algebra is imported beside them.
attribute [local instance (high)] instPowNat

/-- A run of bytes. -/
abbrev Bytes := List UInt8

namespace Bytes

/-! ### Numbers in a fixed width -/

/-- The low `width` bytes of a number, most significant first. -/
def ofNat : Nat → Nat → Bytes
  | 0, _ => []
  | width + 1, value => UInt8.ofNat (value / 256 ^ width) :: ofNat width value

/-- The number that bytes spell, most significant first. -/
def toNat (bytes : Bytes) : Nat :=
  bytes.foldl (fun acc byte => acc * 256 + byte.toNat) 0

@[simp] theorem length_ofNat (width value : Nat) : (ofNat width value).length = width := by
  induction width with
  | zero => rfl
  | succ width ih => simp [ofNat, ih]

theorem foldl_toNat (bytes : Bytes) (acc : Nat) :
    bytes.foldl (fun acc byte => acc * 256 + byte.toNat) acc
      = acc * 256 ^ bytes.length + toNat bytes := by
  induction bytes generalizing acc with
  | nil => simp [toNat]
  | cons byte rest ih =>
    simp only [toNat, List.foldl_cons, List.length_cons]
    rw [ih, ih (0 * 256 + byte.toNat), Nat.pow_succ]
    grind

/-- The first byte counts for as many as the bytes behind it can tell apart. -/
theorem toNat_cons (byte : UInt8) (rest : Bytes) :
    toNat (byte :: rest) = byte.toNat * 256 ^ rest.length + toNat rest := by
  rw [toNat, List.foldl_cons, foldl_toNat]
  simp

/-- A number reads back, reduced to what its width can hold. -/
theorem toNat_ofNat (width value : Nat) : toNat (ofNat width value) = value % 256 ^ width := by
  induction width with
  | zero => simp [ofNat, toNat, Nat.mod_one]
  | succ width ih =>
    have byte : (UInt8.ofNat (value / 256 ^ width)).toNat = value / 256 ^ width % 256 := by simp
    have high : value % 256 ^ (width + 1)
        = value % 256 ^ width + 256 ^ width * (value / 256 ^ width % 256) := by
      rw [Nat.pow_succ, Nat.mod_mul]
    rw [ofNat, toNat_cons, ih, length_ofNat, byte, high, Nat.mul_comm, Nat.add_comm]

/-! ### Splitting off a front -/

/-- The first `count` bytes and what follows them, when there are that many. -/
def split? (count : Nat) (bytes : Bytes) : Option (Bytes × Bytes) :=
  let front := bytes.take count
  if front.length = count then some (front, bytes.drop count) else none

/-- Splitting at the end of a known front gives that front back. -/
theorem split?_append {front : Bytes} {count : Nat} (width : front.length = count)
    (rest : Bytes) : split? count (front ++ rest) = some (front, rest) := by
  subst width
  simp [split?]

/-- A split loses nothing, and its front is as long as was asked. -/
theorem split?_eq_some_iff {count : Nat} {bytes front rest : Bytes} :
    split? count bytes = some (front, rest) ↔ bytes = front ++ rest ∧ front.length = count := by
  constructor
  · intro h
    simp only [split?] at h
    split at h
    · next hlen =>
      obtain ⟨rfl, rfl⟩ : bytes.take count = front ∧ bytes.drop count = rest := by simpa using h
      exact ⟨(List.take_append_drop ..).symm, hlen⟩
    · cases h
  · rintro ⟨rfl, hlen⟩
    exact split?_append hlen rest

/-! ### Overwriting in place -/

/-- Replace the bytes from `offset` on by `new`, when they all lie inside. -/
def overwrite? (offset : Nat) (new bytes : Bytes) : Option Bytes :=
  if new.length + offset ≤ bytes.length then
    some (bytes.take offset ++ new ++ bytes.drop (offset + new.length))
  else none

end Bytes

/-! ### Fixed-width numbers -/

/-- A number of `width` bytes.  Its code is the number its bytes spell; the two laws say that
codes fit the width and determine the number. -/
class Word (α : Type) where
  /-- How many bytes the number takes. -/
  width : Nat
  /-- The number its bytes spell. -/
  code : α → Nat
  /-- The number that a code stands for. -/
  ofCode : Nat → α
  code_lt : ∀ a, code a < 256 ^ width
  ofCode_code : ∀ a, ofCode (code a) = a

instance : Word UInt8 := ⟨1, UInt8.toNat, UInt8.ofNat, UInt8.toNat_lt, by simp⟩
instance : Word UInt16 := ⟨2, UInt16.toNat, UInt16.ofNat, UInt16.toNat_lt, by simp⟩
instance : Word UInt32 := ⟨4, UInt32.toNat, UInt32.ofNat, UInt32.toNat_lt, by simp⟩
instance : Word UInt64 := ⟨8, UInt64.toNat, UInt64.ofNat, UInt64.toNat_lt, by simp⟩
instance : Word Int8 :=
  ⟨1, (·.toUInt8.toNat), (UInt8.ofNat · |>.toInt8), fun a => a.toUInt8.toNat_lt, by simp⟩
instance : Word Int16 :=
  ⟨2, (·.toUInt16.toNat), (UInt16.ofNat · |>.toInt16), fun a => a.toUInt16.toNat_lt, by simp⟩
instance : Word Int32 :=
  ⟨4, (·.toUInt32.toNat), (UInt32.ofNat · |>.toInt32), fun a => a.toUInt32.toNat_lt, by simp⟩
instance : Word Int64 :=
  ⟨8, (·.toUInt64.toNat), (UInt64.ofNat · |>.toInt64), fun a => a.toUInt64.toNat_lt, by simp⟩

namespace Word

variable {α : Type} [Word α]

/-- The bytes of a number, most significant first. -/
def encode (a : α) : Bytes := Bytes.ofNat (width α) (code a)

/-- The number at the front of some bytes, and what follows it. -/
def read? (bytes : Bytes) : Option (α × Bytes) :=
  (bytes.split? (width α)).map fun (front, rest) => (ofCode front.toNat, rest)

@[simp] theorem length_encode (a : α) : (encode a).length = width α := Bytes.length_ofNat ..

/-- A number reads back, and what follows it is left alone. -/
@[simp] theorem read?_encode (a : α) (rest : Bytes) :
    read? (encode a ++ rest) = some (a, rest) := by
  have code : (encode a).toNat = Word.code a :=
    (Bytes.toNat_ofNat ..).trans (Nat.mod_eq_of_lt (code_lt a))
  rw [read?, Bytes.split?_append (length_encode a)]
  simp [code, ofCode_code]

end Word

end ClassInstrument
