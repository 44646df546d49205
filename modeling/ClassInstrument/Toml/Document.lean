import ClassInstrument.Toml.Number
import ClassInstrument.Toml.Text
import ClassInstrument.Toml.Time
import ClassInstrument.Toml.Value

/-!
# TOML documents

Reading the tables of a whole document.  Keys, values and headers are read from the front of the
characters that are left; `none` is a document that is not well formed.

* `Toml.key?` — a key, dotted or not, of at most `Toml.nestingLevels` parts;
* `Toml.value?` — a value, at most `Toml.nestingLevels` levels deep;
* `Toml.Progress.line?` — one line of a document;
* `Toml.parse?` — the whole document.
-/

namespace ClassInstrument.Toml

/-- How many levels are followed: of arrays and inline tables, and of tables by one key. -/
def nestingLevels : Nat := 79

/-! ### Keys -/

/-- The characters of a key without quotes. -/
def isKeyChar (c : Char) : Bool :=
  ('a' ≤ c && c ≤ 'z') || ('A' ≤ c && c ≤ 'Z') || isDigit c || c == '-' || c == '_'

/-- One part of a key, and what follows. -/
def keyPart? (cs : List Char) : Option (String × List Char) :=
  match cs with
  | '"' :: rest => oneLine? '"' true (rest.length + 1) [] rest
  | '\'' :: rest => oneLine? '\'' false (rest.length + 1) [] rest
  | cs =>
    let front := cs.takeWhile isKeyChar
    if front.isEmpty then none else some (String.ofList front, cs.dropWhile isKeyChar)

/-- The parts of a key behind those already read (last first), and what follows.  Every part but
the last has a point behind it, so the characters bound the rounds. -/
def keyOnto? : Nat → List String → List Char → Option (List String × List Char)
  | 0, _, _ => none
  | rounds + 1, read, cs => do
    let (part, rest) ← keyPart? (skipBlank cs)
    match skipBlank rest with
    | '.' :: rest => keyOnto? rounds (part :: read) rest
    | rest => some ((part :: read).reverse, rest)

/-- A key, and what follows it and the blanks behind it. -/
def key? (cs : List Char) : Option (List String × List Char) := do
  let (parts, rest) ← keyOnto? (cs.length + 1) [] cs
  if parts.length ≤ nestingLevels then some (parts, rest) else none

/-! ### Values -/

/-- The characters of a value without quotes and brackets. -/
def isWordChar (c : Char) : Bool := isKeyChar c || c == '+' || c == '.' || c == ':'

/-- The value that a word is. -/
def word? (word : List Char) : Option Value :=
  if word == "true".toList then some (.boolean true)
  else if word == "false".toList then some (.boolean false)
  else
    match integer? word with
    | some value => some (.integer value)
    | none =>
      if isFloat word then some .float
      else (Time.ofChars? word).map .time

/-- A word and what follows.  A date may have its time behind a space. -/
def wordValue? (cs : List Char) : Option (Value × List Char) :=
  let word := cs.takeWhile isWordChar
  let rest := cs.dropWhile isWordChar
  let longer :=
    match rest with
    | ' ' :: more => word ++ ' ' :: more.takeWhile isWordChar
    | _ => []
  match Time.ofChars? longer with
  | some time => some (.time time, (rest.drop 1).dropWhile isWordChar)
  | none => (word? word).map fun value => (value, rest)

/-- The values of an array behind those already read (last first), given how to read one. -/
def itemsOnto? (item? : List Char → Option (Value × List Char)) :
    Nat → List Value → List Char → Option (Value × List Char)
  | 0, _, _ => none
  | rounds + 1, read, cs =>
    match skipSpace cs.length cs with
    | ']' :: rest => some (.array read.reverse, rest)
    | start => do
      let (value, rest) ← item? start
      match skipSpace rest.length rest with
      | ',' :: rest => itemsOnto? item? rounds (value :: read) rest
      | ']' :: rest => some (.array (value :: read).reverse, rest)
      | _ => none

/-- The entries of an inline table behind those already read, given how to read a value. -/
def pairsOnto? (item? : List Char → Option (Value × List Char)) :
    Nat → Entries → List Char → Option (Value × List Char)
  | 0, _, _ => none
  | rounds + 1, read, cs => do
    let (key, rest) ← key? cs
    let rest ← after? '=' rest
    let (value, rest) ← item? (skipBlank rest)
    let read ← read.insert? key value
    match skipBlank rest with
    | ',' :: rest => pairsOnto? item? rounds read rest
    | '}' :: rest => some (.table (Item.toValues read), rest)
    | _ => none

/-- A value at most so many levels deep, and what follows. -/
def valueWithin? : Nat → List Char → Option (Value × List Char)
  | levels, cs =>
    match cs with
    | '"' :: _ | '\'' :: _ => (string? cs).map fun (text, rest) => (.string text, rest)
    | '[' :: rest =>
      match levels with
      | 0 => none
      | levels + 1 => itemsOnto? (valueWithin? levels) (rest.length + 1) [] rest
    | '{' :: rest =>
      match levels, skipBlank rest with
      | 0, _ => none
      | _, '}' :: rest => some (.table [], rest)
      | levels + 1, start => pairsOnto? (valueWithin? levels) (start.length + 1) [] start
    | cs => wordValue? cs

/-- A value, and what follows. -/
def value? (cs : List Char) : Option (Value × List Char) := valueWithin? nestingLevels cs

/-! ### Lines -/

/-- What was read of a document. -/
structure Progress where
  /-- The tables that are complete. -/
  document : Entries
  /-- The header of the table that lines belong to, and whether it is one of an array. -/
  header : List String
  inArray : Bool
  /-- The entries of that table. -/
  table : Entries

namespace Progress

/-- Nothing read. -/
def start : Progress := ⟨[], [], false, []⟩

/-- The document with the last table put where it belongs. -/
def finish? (p : Progress) : Option Entries :=
  if p.inArray then p.document.append? p.header p.table else p.document.close? p.header p.table

/-- Begin a table by its header, behind its bracket. -/
def tableHeader? (p : Progress) (cs : List Char) : Option (Progress × List Char) := do
  let (header, rest) ← key? cs
  let rest ← after? ']' rest
  let document ← p.finish?
  let (table, document) ← document.open? header
  some (⟨document, header, false, table⟩, rest)

/-- Begin one more table of an array by its header, behind its two brackets. -/
def arrayHeader? (p : Progress) (cs : List Char) : Option (Progress × List Char) := do
  let (header, rest) ← key? cs
  let rest ← after? ']' rest
  let rest ← after? ']' rest
  let document ← p.finish?
  let document ← document.reserve? header
  some (⟨document, header, true, []⟩, rest)

/-- Add an entry to the table. -/
def entry? (p : Progress) (cs : List Char) : Option (Progress × List Char) := do
  let (key, rest) ← key? cs
  let rest ← after? '=' rest
  let (value, rest) ← value? (skipBlank rest)
  let table ← p.table.insert? key value
  some ({ p with table }, rest)

/-- Read one line, up to its end. -/
def line? (p : Progress) (cs : List Char) : Option (Progress × List Char) := do
  let (p, rest) ← match skipBlank cs with
    | '[' :: '[' :: rest => p.arrayHeader? rest
    | '[' :: rest => p.tableHeader? rest
    | [] => some (p, [])
    | c :: rest =>
      if c == '#' || (afterNewline? (c :: rest)).isSome then some (p, c :: rest)
      else p.entry? (c :: rest)
  let rest ← skipLine? rest
  some (p, rest)

/-- Read all lines.  Each of them but the last has an end, so the characters bound the rounds. -/
def lines? : Nat → Progress → List Char → Option Progress
  | _, p, [] => some p
  | 0, _, _ :: _ => none
  | rounds + 1, p, cs => do
    let (p, rest) ← p.line? cs
    lines? rounds p rest

end Progress

/-- The entries of the table that a document is. -/
def parse? (text : String) : Option (List (String × Value)) := do
  let cs := text.toList
  let cs := if cs.head? = some '\uFEFF' then cs.drop 1 else cs
  let p ← Progress.start.lines? (cs.length + 1) cs
  let entries ← p.finish?
  Value.withTimesEach? (Item.toValues entries)

end ClassInstrument.Toml
