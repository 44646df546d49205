import ClassInstrument.Decimal.Binary

/-!
# Shortest decimal text

The fewest digits that read back as the same floating-point number, and of those the nearest.
All arithmetic is exact and over `Nat`.

* `Decimal.Interval` — a positive number with the numbers that round to it, over a common
  denominator;
* `Decimal.candidate?` — the point of a decimal grid nearest to the number, if it reads back;
* `Decimal.shortest` — the first grid with such a point, from coarse to fine;
* `Decimal.Layout`, `Decimal.toText` — how digits and a power of ten are written down.
-/

namespace ClassInstrument.Decimal

-- Powers of numbers are those of the core library, whatever algebra is imported beside them.
attribute [local instance (high)] instPowNat

/-- A positive number `middle / denominator`, and the bounds of the numbers that round to it;
the bounds themselves do if `closed`. -/
structure Interval where
  low : Nat
  middle : Nat
  high : Nat
  denominator : Nat
  closed : Bool

/-- The numbers that round to `mantissa · 2 ^ exponent`: half way to either neighbour, the lower
one being at half the distance if `closeBelow`; the ends belong to an even mantissa. -/
def Interval.ofBinary (mantissa : Nat) (exponent : Int) (closeBelow : Bool) : Interval :=
  let scale := 2 ^ (exponent - 2).toNat
  { low := (4 * mantissa - if closeBelow then 1 else 2) * scale
    middle := 4 * mantissa * scale
    high := (4 * mantissa + 2) * scale
    denominator := 2 ^ (2 - exponent).toNat
    closed := mantissa % 2 == 0 }

/-- Whether `numerator / denominator` rounds to the number, the denominator being that of the
interval. -/
def Interval.contains (i : Interval) (numerator : Nat) : Bool :=
  if i.closed then i.low ≤ numerator && numerator ≤ i.high
  else i.low < numerator && numerator < i.high

/-- Multiply through by `10 ^ power`, so that a negative power only enlarges the denominator. -/
def Interval.scaled (i : Interval) (power : Int) : Interval :=
  let up := 10 ^ power.toNat
  { i with
    low := i.low * up, middle := i.middle * up, high := i.high * up
    denominator := i.denominator * 10 ^ (-power).toNat }

/-- The largest power of ten that is at most the number.  No number of interest lies below
`10 ^ (-400)`, so scaling by that power leaves an integer part with the right number of digits. -/
def Interval.magnitude (i : Interval) : Int :=
  (Nat.toDigits 10 (i.middle * 10 ^ (400 : Nat) / i.denominator)).length - 401

/-- The nearest multiple of `10 ^ power` that rounds to the number, a tie going upwards: the
neighbour below or above on that grid. -/
def candidate? (i : Interval) (power : Int) : Option Nat :=
  let s := i.scaled (-power)
  let below := s.middle / s.denominator
  let above := below + 1
  let belowFits := s.contains (below * s.denominator)
  let aboveFits := s.contains (above * s.denominator)
  let belowIsNearer := s.middle - below * s.denominator < above * s.denominator - s.middle
  if belowFits && (belowIsNearer || !aboveFits) then some below
  else if aboveFits then some above
  else none

/-- Digits without zeros at the end, and the power of ten they count. -/
def dropZeros : Nat → Nat → Int → Nat × Int
  | 0, digits, power => (digits, power)
  | fuel + 1, digits, power =>
    if digits ≠ 0 ∧ digits % 10 = 0 then dropZeros fuel (digits / 10) (power + 1)
    else (digits, power)

/-- The shortest digits, with the power of ten they count: grids of one digit, two digits and so
on are tried up to seventeen, which always suffices for a 64-bit word. -/
def shortest (i : Interval) : Nat × Int :=
  let magnitude := i.magnitude
  let grid (count : Nat) : Option (Nat × Int) :=
    let power := magnitude - count
    (candidate? i power).map fun digits => dropZeros 20 digits power
  ((List.range 17).findSome? grid).getD (i.middle / i.denominator, 0)

/-! ### Writing digits down -/

/-- How a number is laid out: positional notation for magnitudes from `positionalFrom` up to but
excluding `positionalBelow`, a power of ten behind a mark otherwise. -/
structure Layout where
  /-- The least magnitude in positional notation. -/
  positionalFrom : Int
  /-- The first magnitude beyond positional notation. -/
  positionalBelow : Int
  /-- What ends an integral number in positional notation. -/
  integralSuffix : String
  /-- What stands before the power of ten. -/
  exponentMark : String
  nanText : String
  infinityText : String

/-- Positional notation: the point stands `point` digits from the left. -/
def positional (layout : Layout) (digits : List Char) (point : Int) : String :=
  if point ≤ 0 then
    "0." ++ String.ofList (List.replicate (-point).toNat '0' ++ digits)
  else
    let whole := point.toNat
    if digits.length ≤ whole then
      String.ofList (digits ++ List.replicate (whole - digits.length) '0') ++ layout.integralSuffix
    else
      String.ofList (digits.take whole) ++ "." ++ String.ofList (digits.drop whole)

/-- One digit, a point if more follow, the other digits, and the power of ten of the first. -/
def scientific (layout : Layout) (digits : List Char) (magnitude : Int) : String :=
  let fraction := digits.drop 1
  String.ofList (digits.take 1) ++ (if fraction.isEmpty then "" else "." ++ String.ofList fraction)
    ++ layout.exponentMark ++ toString magnitude

/-- The text of a number, without its sign. -/
def magnitudeText (layout : Layout) (mantissa : Nat) (exponent : Int) (closeBelow : Bool) :
    String :=
  if mantissa = 0 then positional layout ['0'] 1
  else
    let (number, power) := shortest (.ofBinary mantissa exponent closeBelow)
    let digits := Nat.toDigits 10 number
    let magnitude := digits.length - 1 + power
    if layout.positionalFrom ≤ magnitude ∧ magnitude < layout.positionalBelow then
      positional layout digits (magnitude + 1)
    else scientific layout digits magnitude

/-- The text of a number; a sign stands before negative ones, zero included. -/
def toText (layout : Layout) : Binary.Value → String
  | .nan => layout.nanText
  | .infinite negative => (if negative then "-" else "") ++ layout.infinityText
  | .finite negative mantissa exponent closeBelow =>
    (if negative then "-" else "") ++ magnitudeText layout mantissa exponent closeBelow

end ClassInstrument.Decimal
