import ClassInstrument.Bytes.Basic
import ClassInstrument.Text.Quoted

/-!
# Bytes in hexadecimal

* `Hexadecimal.encode` — two lower-case digits for every byte;
* `Hexadecimal.decode?` — the bytes that digits in either case spell.
-/

namespace ClassInstrument.Hexadecimal

/-- The value of a digit in either case. -/
def digit? (c : Char) : Option Nat :=
  if '0' ≤ c ∧ c ≤ '9' then some (c.toNat - '0'.toNat)
  else if 'a' ≤ c ∧ c ≤ 'f' then some (c.toNat - 'a'.toNat + 10)
  else if 'A' ≤ c ∧ c ≤ 'F' then some (c.toNat - 'A'.toNat + 10)
  else none

/-- Two digits for every byte. -/
def encode (bytes : Bytes) : String :=
  String.join (bytes.map fun byte => Text.hexPadded 2 byte.toNat)

/-- The bytes that digits spell, behind bytes already read (last first). -/
def decodeOnto (found : Bytes) : List Char → Option Bytes
  | [] => some found.reverse
  | [_] => none
  | high :: low :: rest =>
    match digit? high, digit? low with
    | some high, some low => decodeOnto (UInt8.ofNat (16 * high + low) :: found) rest
    | _, _ => none

/-- The bytes that a text spells. -/
def decode? (text : String) : Option Bytes := decodeOnto [] text.toList

end ClassInstrument.Hexadecimal
