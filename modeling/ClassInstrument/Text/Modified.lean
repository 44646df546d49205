import ClassInstrument.Bytes.Basic

/-!
# Modified UTF-8

The text form of class files.  It differs from standard UTF-8 in two places: NUL is written as the
two bytes `C0 80`, and a supplementary character as the two three-byte forms of its surrogates.

* `Text.encode` — the modified form of a text;
* `Text.Dialect.next?` — one character in the standard or in the modified form;
* `Text.decode?` — reading is lenient in one way: bytes that are standard UTF-8 as a whole are
  taken for that, everything else has to be in modified form.
-/

namespace ClassInstrument.Text

/-! ### Writing -/

/-- The byte of a continuation: six bits behind the marker `10`. -/
def continuation (value : Nat) : UInt8 := UInt8.ofNat (0x80 + value % 64)

/-- The three-byte form of a code unit. -/
def threeBytes (value : Nat) : Bytes :=
  [UInt8.ofNat (0xE0 + value / 4096), continuation (value / 64), continuation value]

/-- The modified form of one character. -/
def encodeChar (c : Char) : Bytes :=
  let code := c.toNat
  if code = 0 then [0xC0, 0x80]
  else if code < 0x80 then [UInt8.ofNat code]
  else if code < 0x800 then [UInt8.ofNat (0xC0 + code / 64), continuation code]
  else if code < 0x10000 then threeBytes code
  else
    let above := code - 0x10000
    threeBytes (0xD800 + above / 1024) ++ threeBytes (0xDC00 + above % 1024)

/-- The modified form of a text. -/
def encode (text : String) : Bytes := text.toList.flatMap encodeChar

/-! ### Reading -/

/-- The two forms that are read. -/
inductive Dialect where
  | standard
  | modified
deriving DecidableEq, Repr

/-- Whether a byte continues a character. -/
def isContinuation (byte : UInt8) : Bool := 0x80 ≤ byte && byte ≤ 0xBF

/-- The six bits of a continuation byte. -/
def payload (byte : UInt8) : Nat := byte.toNat % 64

/-- The value of a three-byte form. -/
def threeByteValue (first second third : UInt8) : Nat :=
  first.toNat % 16 * 4096 + payload second * 64 + payload third

/-- Whether the second byte of a three-byte character is neither overlong nor a surrogate. -/
def threeByteOpens (first second : UInt8) : Bool :=
  isContinuation second && (first ≠ 0xE0 || 0xA0 ≤ second) && (first ≠ 0xED || second ≤ 0x9F)

/-- A supplementary character in standard form. -/
def fourByteChar? (first : UInt8) : Bytes → Option (Char × Bytes)
  | second :: third :: fourth :: rest =>
    if isContinuation second && isContinuation third && isContinuation fourth
        && (first ≠ 0xF0 || 0x90 ≤ second) && (first ≠ 0xF4 || second ≤ 0x8F)
        && first ≤ 0xF4 then
      some (Char.ofNat (first.toNat % 8 * 0x40000 + payload second * 4096 + payload third * 64
        + payload fourth), rest)
    else none
  | _ => none

/-- A supplementary character as two surrogates, behind the byte `ED` of the first. -/
def surrogateChar? : Bytes → Option (Char × Bytes)
  | second :: third :: fourth :: fifth :: sixth :: rest =>
    if 0xA0 ≤ second && second ≤ 0xAF && isContinuation third && fourth == 0xED
        && 0xB0 ≤ fifth && fifth ≤ 0xBF && isContinuation sixth then
      let high := second.toNat % 16 * 64 + payload third
      let low := fifth.toNat % 16 * 64 + payload sixth
      some (Char.ofNat (0x10000 + high * 1024 + low), rest)
    else none
  | _ => none

/-- A character of two or more bytes. -/
def Dialect.nextLong? (d : Dialect) (first : UInt8) (rest : Bytes) : Option (Char × Bytes) :=
  if 0xC2 ≤ first && first ≤ 0xDF then
    match rest with
    | second :: rest =>
      if isContinuation second then
        some (Char.ofNat (first.toNat % 32 * 64 + payload second), rest)
      else none
    | [] => none
  else if 0xE0 ≤ first && first ≤ 0xEF then
    match rest with
    | second :: third :: more =>
      if threeByteOpens first second && isContinuation third then
        some (Char.ofNat (threeByteValue first second third), more)
      else if first == 0xED && d == .modified then surrogateChar? rest
      else none
    | _ => none
  else
    match d with
    | .standard => if 0xF0 ≤ first then fourByteChar? first rest else none
    | .modified =>
      match rest with
      | 0x80 :: rest => if first == 0xC0 then some ('\x00', rest) else none
      | _ => none

/-- The first character and what follows it. -/
def Dialect.next? (d : Dialect) : Bytes → Option (Char × Bytes)
  | [] => none
  | first :: rest =>
    if first == 0 && d == .modified then none
    else if first < 0x80 then some (Char.ofNat first.toNat, rest)
    else d.nextLong? first rest

theorem fourByteChar?_length {first : UInt8} {bytes rest : Bytes} {c : Char}
    (h : fourByteChar? first bytes = some (c, rest)) : rest.length ≤ bytes.length := by
  unfold fourByteChar? at h
  grind

theorem surrogateChar?_length {bytes rest : Bytes} {c : Char}
    (h : surrogateChar? bytes = some (c, rest)) : rest.length ≤ bytes.length := by
  unfold surrogateChar? at h
  grind

theorem Dialect.nextLong?_length {d : Dialect} {first : UInt8} {bytes rest : Bytes} {c : Char}
    (h : d.nextLong? first bytes = some (c, rest)) : rest.length ≤ bytes.length := by
  have pair := @surrogateChar?_length bytes rest c
  have four := @fourByteChar?_length first bytes rest c
  unfold Dialect.nextLong? at h
  grind

/-- A character takes at least one byte. -/
theorem Dialect.next?_length {d : Dialect} {bytes rest : Bytes} {c : Char}
    (h : d.next? bytes = some (c, rest)) : rest.length < bytes.length := by
  cases bytes with
  | nil => simp [Dialect.next?] at h
  | cons first more =>
    have long := @Dialect.nextLong?_length d first more rest c
    unfold Dialect.next? at h
    grind

/-- All characters in one dialect, behind those already read (last first). -/
def Dialect.chars? (d : Dialect) (read : List Char) (bytes : Bytes) : Option (List Char) :=
  if bytes.isEmpty then some read.reverse
  else
    match _h : d.next? bytes with
    | none => none
    | some (c, rest) => d.chars? (c :: read) rest
termination_by bytes.length
decreasing_by exact Dialect.next?_length ‹_›

/-- The text of some bytes: standard UTF-8 if they are that as a whole, modified otherwise. -/
def decode? (bytes : Bytes) : Option String :=
  ((Dialect.standard.chars? [] bytes).or (Dialect.modified.chars? [] bytes)).map String.ofList

end ClassInstrument.Text
