import ClassInstrument.Text.Unprintable

/-!
# Quoted text

How a text stands inside a message: between double quotes, with backslash escapes.

* `Text.hex` — a number in lower-case hexadecimal digits, without leading zeros;
* `Text.escape` — one character: the six short escapes, the number of an unprintable character
  in braces, and every other character as it is;
* `Text.quote` — the whole text.
-/

namespace ClassInstrument.Text

/-- The digits of a number in a base up to sixteen, lower case, without leading zeros. -/
def digits (base value : Nat) : List Char := Nat.toDigits base value

/-- A number in lower-case hexadecimal. -/
def hex (value : Nat) : String := String.ofList (digits 16 value)

/-- A number in hexadecimal, padded with zeros to a given count of digits. -/
def hexPadded (count value : Nat) : String :=
  let spelled := digits 16 value
  String.ofList (List.replicate (count - spelled.length) '0' ++ spelled)

/-- The same in upper case. -/
def hexPaddedUpper (count value : Nat) : String := (hexPadded count value).map Char.toUpper

/-- The form of one character between the quotes. -/
def escape (c : Char) : List Char :=
  if c = '\x00' then ['\\', '0']
  else if c = '\t' then ['\\', 't']
  else if c = '\r' then ['\\', 'r']
  else if c = '\n' then ['\\', 'n']
  else if c = '"' then ['\\', '"']
  else if c = '\\' then ['\\', '\\']
  else if isUnprintable c then ['\\', 'u', '\x7b'] ++ digits 16 c.toNat ++ ['\x7d']
  else [c]

/-- A text in double quotes, with every character escaped that needs it. -/
def quote (text : String) : String :=
  String.ofList ('"' :: text.toList.flatMap escape ++ ['"'])

end ClassInstrument.Text
