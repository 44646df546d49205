import ClassInstrument.Toml.Number
import ClassInstrument.Toml.Text

/-!
# Dates and times in TOML

* `Toml.Date`, `Toml.Clock`, `Toml.Offset` — a day, a time of day, a distance from Greenwich;
* `Toml.Time` — a day, a time of day, or both;
* `Toml.Time.toText` — how one is written: no zeros at the end of a fraction of a second, and a
  distance of nothing goes east;
* `Toml.Time.ofChars?` — reading one: days that the calendar has, hours up to 23, and up to one more
  second in a minute.
-/

namespace ClassInstrument.Toml

/-! ### What is told -/

/-- A day. -/
structure Date where
  year : Nat
  month : Nat
  day : Nat
deriving DecidableEq, Inhabited, Repr

/-- A time of day. -/
structure Clock where
  hour : Nat
  minute : Nat
  second : Nat
  nanosecond : Nat
deriving DecidableEq, Inhabited, Repr

/-- Where a time of day is meant. -/
inductive Offset where
  /-- At Greenwich. -/
  | zulu
  /-- So many minutes east of Greenwich. -/
  | east (minutes : Int)
deriving DecidableEq, Inhabited, Repr

/-- A day, a time of day, or both. -/
inductive Time where
  | date (date : Date)
  | clock (clock : Clock)
  | full (date : Date) (clock : Clock) (offset : Option Offset)
deriving DecidableEq, Inhabited, Repr

/-! ### Writing -/

/-- The decimal digits of a number, with zeros in front up to a given count. -/
def padded (count value : Nat) : List Char :=
  let digits := Nat.toDigits 10 value
  List.replicate (count - digits.length) '0' ++ digits

def Date.toChars (d : Date) : List Char :=
  padded 4 d.year ++ '-' :: padded 2 d.month ++ '-' :: padded 2 d.day

/-- A fraction of a second behind its point; a whole second has none. -/
def fractionChars (nanosecond : Nat) : List Char :=
  if nanosecond = 0 then []
  else '.' :: ((padded 9 nanosecond).reverse.dropWhile (· == '0')).reverse

def Clock.toChars (c : Clock) : List Char :=
  padded 2 c.hour ++ ':' :: padded 2 c.minute ++ ':' :: padded 2 c.second
    ++ fractionChars c.nanosecond

def Offset.toChars : Offset → List Char
  | .zulu => ['Z']
  | .east minutes =>
    (if minutes < 0 then '-' else '+') :: padded 2 (minutes.natAbs / 60)
      ++ ':' :: padded 2 (minutes.natAbs % 60)

/-- A time as text. -/
def Time.toText : Time → String
  | .date d => String.ofList d.toChars
  | .clock c => String.ofList c.toChars
  | .full d c offset =>
    String.ofList (d.toChars ++ 'T' :: c.toChars ++ (offset.map Offset.toChars).getD [])

/-! ### Reading -/

/-- A number of exactly so many digits at the front of a word, and what follows. -/
def fixed? (count : Nat) (cs : List Char) : Option (Nat × List Char) :=
  let front := cs.take count
  if front.length = count ∧ front.all isDigit then
    (digits? 10 0 front).map fun value => (value, cs.drop count)
  else none

/-- The days of a month. -/
def daysIn (year month : Nat) : Nat :=
  if month = 2 then (if year % 4 = 0 ∧ (year % 100 ≠ 0 ∨ year % 400 = 0) then 29 else 28)
  else if [4, 6, 9, 11].contains month then 30
  else 31

/-- A day at the front of a word, and what follows. -/
def date? (cs : List Char) : Option (Date × List Char) := do
  let (year, cs) ← fixed? 4 cs
  let cs ← after? '-' cs
  let (month, cs) ← fixed? 2 cs
  let cs ← after? '-' cs
  let (day, cs) ← fixed? 2 cs
  if 1 ≤ month ∧ month ≤ 12 ∧ 1 ≤ day ∧ day ≤ daysIn year month then
    some (⟨year, month, day⟩, cs)
  else none

/-- The nanoseconds that a fraction of a second has, and what follows.  Digits behind the ninth do
not count. -/
def fraction? : List Char → Option (Nat × List Char)
  | '.' :: cs => do
    let front := cs.takeWhile isDigit
    if front.isEmpty then none
    else
      let value ← digits? 10 0 ((front ++ List.replicate 9 '0').take 9)
      some (value, cs.dropWhile isDigit)
  | cs => some (0, cs)

/-- A time of day at the front of a word, and what follows. -/
def clock? (cs : List Char) : Option (Clock × List Char) := do
  let (hour, cs) ← fixed? 2 cs
  let cs ← after? ':' cs
  let (minute, cs) ← fixed? 2 cs
  let cs ← after? ':' cs
  let (second, cs) ← fixed? 2 cs
  let (nanosecond, cs) ← fraction? cs
  if hour ≤ 23 ∧ minute ≤ 59 ∧ second ≤ 60 then
    some (⟨hour, minute, second, nanosecond⟩, cs)
  else none

/-- The minutes that a word is as a distance from Greenwich, behind its sign. -/
def distance? (cs : List Char) : Option Nat := do
  let (hours, cs) ← fixed? 2 cs
  let cs ← after? ':' cs
  let (minutes, cs) ← fixed? 2 cs
  if cs.isEmpty ∧ hours ≤ 23 ∧ minutes ≤ 59 then some (hours * 60 + minutes) else none

/-- The place that a word is; it need not be told. -/
def offset? : List Char → Option (Option Offset)
  | [] => some none
  | ['Z'] | ['z'] => some (some .zulu)
  | '+' :: cs => (distance? cs).map fun minutes => some (.east minutes)
  | '-' :: cs => (distance? cs).map fun minutes => some (.east (-minutes))
  | _ => none

/-- The time that a word is.  Between a day and a time of day stands a letter or a space. -/
def Time.ofChars? (word : List Char) : Option Time :=
  match clock? word with
  | some (c, []) => some (.clock c)
  | _ => do
    let (d, rest) ← date? word
    match rest with
    | [] => some (.date d)
    | mark :: rest =>
      if mark == 'T' || mark == 't' || mark == ' ' then
        let (c, rest) ← clock? rest
        (offset? rest).map fun offset => .full d c offset
      else none

end ClassInstrument.Toml
