
/-!
# Binary floating-point words

What the bits of a 32- or 64-bit floating-point word stand for.  Constants keep their bits; this
module reads them only where a number has to be compared or shown.

* `Binary.Format` — the field widths, `Binary.single` and `Binary.double`;
* `Binary.Value`, `Binary.decode` — a word as not-a-number, infinity or `mantissa · 2 ^ exponent`;
* `Binary.sameNumber` — equality of the numbers that two words stand for.
-/

namespace ClassInstrument.Binary

-- Powers of numbers are those of the core library, whatever algebra is imported beside them.
attribute [local instance (high)] instPowNat

/-- The widths of the two fields behind the sign bit. -/
structure Format where
  /-- Bits of the fraction field. -/
  fractionBits : Nat
  /-- Bits of the exponent field. -/
  exponentBits : Nat

namespace Format

/-- The exponent field of infinities and not-a-numbers. -/
def topExponent (f : Format) : Nat := 2 ^ f.exponentBits - 1

/-- The power of two of the last fraction bit when the exponent field is 1. -/
def leastExponent (f : Format) : Int :=
  2 - (2 ^ (f.exponentBits - 1) : Nat) - (f.fractionBits : Nat)

end Format

/-- 32-bit words. -/
def single : Format := ⟨23, 8⟩

/-- 64-bit words. -/
def double : Format := ⟨52, 11⟩

/-- A number that a word stands for.  In the finite case the number is `mantissa · 2 ^ exponent`,
and `closeBelow` says that the next smaller number is only half as far away as the next larger. -/
inductive Value where
  | nan
  | infinite (negative : Bool)
  | finite (negative : Bool) (mantissa : Nat) (exponent : Int) (closeBelow : Bool)
deriving DecidableEq, Repr

/-- The exponent field of a word. -/
def exponentField (f : Format) (word : Nat) : Nat := word / 2 ^ f.fractionBits % 2 ^ f.exponentBits

/-- The fraction field of a word. -/
def fractionField (f : Format) (word : Nat) : Nat := word % 2 ^ f.fractionBits

/-- The sign bit of a word. -/
def isNegative (f : Format) (word : Nat) : Bool :=
  word / 2 ^ (f.fractionBits + f.exponentBits) % 2 == 1

/-- The number a word stands for. -/
def decode (f : Format) (word : Nat) : Value :=
  let fraction := fractionField f word
  let exponent := exponentField f word
  if exponent = f.topExponent then
    if fraction = 0 then .infinite (isNegative f word) else .nan
  else if exponent = 0 then
    .finite (isNegative f word) fraction f.leastExponent false
  else
    .finite (isNegative f word) (fraction + 2 ^ f.fractionBits)
      (f.leastExponent + exponent - 1) (fraction == 0 && 1 < exponent)

/-- Whether two words stand for the same number: no word that is not-a-number equals any, the
two zeros are equal, and all others are equal when their bits are. -/
def sameNumber (f : Format) (a b : Nat) : Bool :=
  match decode f a, decode f b with
  | .nan, _ | _, .nan => false
  | .finite _ 0 _ _, .finite _ 0 _ _ => true
  | _, _ => a == b

end ClassInstrument.Binary
