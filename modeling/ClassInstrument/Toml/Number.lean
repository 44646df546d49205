
/-!
# Numbers in TOML

A value without quotes is read as one word first; here is which words are numbers.

* `Toml.integer?` — decimal, hexadecimal, octal or binary, in sixty-four bits;
* `Toml.Scientific` — a number with a point or an exponent, as it is written;
* `Toml.isFloat` — one that sixty-four bits have room for, infinite, or not a number.
-/

namespace ClassInstrument.Toml

-- Powers of numbers are those of the core library, whatever algebra is imported beside them.
attribute [local instance (high)] instPowNat

/-- The value of a digit in a base, if it is one. -/
def digit? (base : Nat) (c : Char) : Option Nat :=
  let value :=
    if '0' ≤ c ∧ c ≤ '9' then c.toNat - '0'.toNat
    else if 'a' ≤ c ∧ c ≤ 'f' then c.toNat - 'a'.toNat + 10
    else if 'A' ≤ c ∧ c ≤ 'F' then c.toNat - 'A'.toNat + 10
    else base
  if value < base then some value else none

def isDigit (c : Char) : Bool := (digit? 10 c).isSome

/-- The number that digits spell behind a number already read; an underscore stands between two
digits only. -/
def digits? (base : Nat) (read : Nat) : List Char → Option Nat
  | [] => some read
  | '_' :: c :: cs => do
    let value ← digit? base c
    digits? base (read * base + value) cs
  | c :: cs => do
    let value ← digit? base c
    digits? base (read * base + value) cs

/-- The number that a word of digits spells. -/
def natural? (base : Nat) : List Char → Option Nat
  | [] => none
  | '_' :: _ => none
  | cs => digits? base 0 cs

/-- A decimal number without zeros in front. -/
def decimal? : List Char → Option Nat
  | '0' :: c :: _ => if c == '_' || isDigit c then none else none
  | cs => natural? 10 cs

/-- A number in sixty-four bits. -/
def inRange (value : Int) : Option Int :=
  if -(2 ^ (63 : Nat)) ≤ value ∧ value < 2 ^ (63 : Nat) then some value else none

/-- A word without its sign, and whether the sign is a minus. -/
def unsigned : List Char → Bool × List Char
  | '+' :: cs => (false, cs)
  | '-' :: cs => (true, cs)
  | cs => (false, cs)

/-- The integer that a word is. -/
def integer? (word : List Char) : Option Int :=
  match word with
  | '0' :: 'x' :: cs => (natural? 16 cs).bind (inRange ·)
  | '0' :: 'o' :: cs => (natural? 8 cs).bind (inRange ·)
  | '0' :: 'b' :: cs => (natural? 2 cs).bind (inRange ·)
  | word =>
    let (negative, cs) := unsigned word
    (decimal? cs).bind fun value => inRange (if negative then -value else value)

/-! ### Numbers with a point or an exponent -/

/-- A number as it is written: a sign, a whole number and the power of ten that scales it. -/
structure Scientific where
  negative : Bool
  mantissa : Nat
  exponent : Int
deriving DecidableEq, Inhabited, Repr

/-- The power of ten that a word is behind its letter. -/
def exponent? (word : List Char) : Option Int :=
  let (negative, cs) := unsigned word
  (natural? 10 cs).map fun value => if negative then -value else value

/-- The power of ten at the end of a word, behind one of two letters; nothing is the power zero. -/
def exponentEnd? : List Char → Option Int
  | [] => some 0
  | 'e' :: cs | 'E' :: cs => exponent? cs
  | _ => none

/-- Whether a character belongs to a run of digits. -/
def isWhole (c : Char) : Bool := isDigit c || c == '_'

/-- The number that a word is, if it has a point or an exponent. -/
def scientific? (word : List Char) : Option Scientific := do
  let (negative, cs) := unsigned word
  let whole ← decimal? (cs.takeWhile isWhole)
  match cs.dropWhile isWhole with
  | '.' :: cs =>
    let digits := cs.takeWhile isWhole
    let fraction ← natural? 10 digits
    let scale := digits.countP isDigit
    let exponent ← exponentEnd? (cs.dropWhile isWhole)
    some ⟨negative, whole * 10 ^ scale + fraction, exponent - scale⟩
  | [] => none
  | cs => (exponentEnd? cs).map fun exponent => ⟨negative, whole, exponent⟩

/-- The least number that rounds to infinity in sixty-four bits: half a step above the greatest
number that does not. -/
def infinityStart : Nat := 2 ^ (1024 : Nat) - 2 ^ (970 : Nat)

/-- Whether a number, sign aside, rounds to infinity in sixty-four bits.  The first tests keep the
powers of ten small: a mantissa of `n` bits is below `10 ^ n`. -/
def Scientific.isHuge (x : Scientific) : Bool :=
  match x.exponent with
  | .ofNat e =>
    x.mantissa != 0 && (decide (309 ≤ e) || decide (infinityStart ≤ x.mantissa * 10 ^ e))
  | .negSucc e => decide (e < x.mantissa.log2)
    && decide (infinityStart * 10 ^ (e + 1) ≤ x.mantissa)

/-- Whether a word is a number that is no integer.  A number too great for sixty-four bits is
refused, while one too far below zero is taken for minus infinity. -/
def isFloat (word : List Char) : Bool :=
  let cs := (unsigned word).2
  cs == "inf".toList || cs == "nan".toList
    || (scientific? word).any fun x => x.negative || !x.isHuge

end ClassInstrument.Toml
