/-!
# Text in TOML

The characters of a document outside of values, and its strings.

* `Toml.skipBlank`, `Toml.skipLine?`, `Toml.skipSpace?` — what stands between values;
* `Toml.string?` — a string in one of its four forms, at the front of some characters;
* `Toml.quote` — the form in which a string is written: in double quotes unless it has a
  character that would have to be escaped for its own sake.
-/

namespace ClassInstrument.Toml

/-! ### Between values -/

def isBlank (c : Char) : Bool := c == ' ' || c == '\t'

/-- Leave out spaces and tabs. -/
def skipBlank (cs : List Char) : List Char := cs.dropWhile isBlank

/-- What follows a character. -/
def after? (c : Char) : List Char → Option (List Char)
  | d :: cs => if d = c then some cs else none
  | [] => none

/-- What follows the end of a line. -/
def afterNewline? : List Char → Option (List Char)
  | '\n' :: cs | '\r' :: '\n' :: cs => some cs
  | _ => none

/-- The characters that may stand in comments and strings. -/
def isPlain (c : Char) : Bool := c == '\t' || (' ' ≤ c && c != '\x7f')

/-- Leave out a comment. -/
def skipComment : List Char → List Char
  | '#' :: cs => cs.dropWhile isPlain
  | cs => cs

/-- Leave out the rest of a line, on which nothing but a comment may follow. -/
def skipLine? (cs : List Char) : Option (List Char) :=
  match skipComment (skipBlank cs) with
  | [] => some []
  | rest => afterNewline? rest

/-- Leave out blanks, comments and ends of lines, as many as there are.  Each round leaves out at
least one character, so the characters bound the rounds. -/
def skipSpace : Nat → List Char → List Char
  | 0, cs => cs
  | rounds + 1, cs =>
    let rest := skipComment (skipBlank cs)
    match afterNewline? rest with
    | some rest => skipSpace rounds rest
    | none => rest

/-! ### Reading strings -/

/-- The character with a number of so many hexadecimal digits, and what follows. -/
def codePoint? (count : Nat) (cs : List Char) : Option (Char × List Char) :=
  let front := cs.take count
  let value? := front.foldl (fun (read : Option Nat) c => do
    let read ← read
    let value ←
      if '0' ≤ c ∧ c ≤ '9' then some (c.toNat - '0'.toNat)
      else if 'a' ≤ c ∧ c ≤ 'f' then some (c.toNat - 'a'.toNat + 10)
      else if 'A' ≤ c ∧ c ≤ 'F' then some (c.toNat - 'A'.toNat + 10)
      else none
    some (read * 16 + value)) (some 0)
  if front.length ≠ count then none
  else
    match value? with
    | some value => if value.isValidChar then some (Char.ofNat value, cs.drop count) else none
    | none => none

/-- The character behind a backslash, and what follows. -/
def escape? : List Char → Option (Char × List Char)
  | 'b' :: cs => some ('\x08', cs)
  | 't' :: cs => some ('\t', cs)
  | 'n' :: cs => some ('\n', cs)
  | 'f' :: cs => some ('\x0c', cs)
  | 'r' :: cs => some ('\r', cs)
  | '"' :: cs => some ('"', cs)
  | '\\' :: cs => some ('\\', cs)
  | 'u' :: cs => codePoint? 4 cs
  | 'U' :: cs => codePoint? 8 cs
  | _ => none

/-- The rest of a string on one line up to its quote, behind what was read (last first).  The
number bounds the characters. -/
def oneLine? (quote : Char) (escapes : Bool) :
    Nat → List Char → List Char → Option (String × List Char)
  | 0, _, _ => none
  | _, _, [] => none
  | rounds + 1, read, c :: cs =>
    if c = quote then some (String.ofList read.reverse, cs)
    else if c = '\\' ∧ escapes then do
      let (d, cs) ← escape? cs
      oneLine? quote escapes rounds (d :: read) cs
    else if isPlain c then oneLine? quote escapes rounds (c :: read) cs
    else none

/-- Leave out blanks and ends of lines. -/
def skipLines : Nat → List Char → List Char
  | 0, cs => cs
  | rounds + 1, cs =>
    match afterNewline? (skipBlank cs) with
    | some rest => skipLines rounds rest
    | none => skipBlank cs

/-- What follows a backslash at the end of a line, up to the next character that counts. -/
def continued? (cs : List Char) : Option (List Char) :=
  (afterNewline? (skipBlank cs)).map fun rest => skipLines cs.length rest

/-- The rest of a string on several lines up to its three quotes, behind what was read (last
first).  One or two more quotes directly before the three belong to the string. -/
def manyLines? (quote : Char) (escapes : Bool) :
    Nat → List Char → List Char → Option (String × List Char)
  | 0, _, _ => none
  | _, _, [] => none
  | rounds + 1, read, c :: cs =>
    if c = quote then
      let run := (c :: cs).takeWhile (· = quote)
      let rest := (c :: cs).dropWhile (· = quote)
      if run.length < 3 then manyLines? quote escapes rounds (run ++ read) rest
      else
        let inside := min (run.length - 3) 2
        some (String.ofList (read.reverse ++ List.replicate inside quote),
          (c :: cs).drop (inside + 3))
    else
      match afterNewline? (c :: cs) with
      | some rest => manyLines? quote escapes rounds ('\n' :: read) rest
      | none =>
        if c = '\\' ∧ escapes then
          match continued? cs with
          | some rest => manyLines? quote escapes rounds read rest
          | none => do
            let (d, cs) ← escape? cs
            manyLines? quote escapes rounds (d :: read) cs
        else if isPlain c then manyLines? quote escapes rounds (c :: read) cs
        else none

/-- The string at the front of some characters, and what follows. -/
def string? (cs : List Char) : Option (String × List Char) :=
  let onLines (quote : Char) (escapes : Bool) (cs : List Char) :=
    manyLines? quote escapes (cs.length + 1) [] ((afterNewline? cs).getD cs)
  match cs with
  | '"' :: '"' :: '"' :: cs => onLines '"' true cs
  | '\'' :: '\'' :: '\'' :: cs => onLines '\'' false cs
  | '"' :: cs => oneLine? '"' true (cs.length + 1) [] cs
  | '\'' :: cs => oneLine? '\'' false (cs.length + 1) [] cs
  | _ => none

/-! ### Writing strings -/

/-- The longest run of a character in a text. -/
def longestRun (c : Char) (cs : List Char) : Nat :=
  (cs.foldl (fun (current, longest) d =>
    if d = c then (current + 1, max longest (current + 1)) else (0, longest)) (0, 0)).2

/-- Whether a character can only be written by its number or a letter. -/
def isControl (c : Char) : Bool := (c < ' ' && c != '\t' && c != '\n') || c == '\x7f'

/-- The four upper-case hexadecimal digits of a number. -/
def fourDigits (value : Nat) : List Char :=
  let digits := (Nat.toDigits 16 value).map Char.toUpper
  List.replicate (4 - digits.length) '0' ++ digits

/-- A character as it stands in a string with escapes. -/
def escapeChar (keepsLines : Bool) (c : Char) : List Char :=
  if c = '\x08' then ['\\', 'b']
  else if c = '\t' then ['\\', 't']
  else if c = '\n' then (if keepsLines then ['\n'] else ['\\', 'n'])
  else if c = '\x0c' then ['\\', 'f']
  else if c = '\r' then ['\\', 'r']
  else if c = '\\' then ['\\', '\\']
  else if isControl c then '\\' :: 'u' :: fourDigits c.toNat
  else [c]

/-- The characters of a string with escapes; a double quote is escaped when so many of them would
stand side by side that they could end the string. -/
def escapeAll (keepsLines : Bool) (quotesAllowed : Nat) (cs : List Char) : List Char :=
  ((cs.foldl (fun (quotes, written) c =>
    if c = '"' then
      if quotes < quotesAllowed then (quotes + 1, '"' :: written)
      else (0, '"' :: '\\' :: written)
    else (0, (escapeChar keepsLines c).reverse ++ written))
    ((0 : Nat), ([] : List Char))).2).reverse

/-- A string as it is written: in double quotes if nothing has to be escaped, otherwise in single
quotes if possible, otherwise on several lines. -/
def quote (text : String) : String :=
  let cs := text.toList
  let control := cs.any isControl
  let backslash := cs.contains '\\'
  let lines := cs.contains '\n'
  let start := if lines then "\n" else ""
  if !control && !backslash && !cs.contains '"' && !lines then
    "\"" ++ String.ofList (escapeAll false 0 cs) ++ "\""
  else if !control && !cs.contains '\'' && !lines then "'" ++ text ++ "'"
  else if !control && !backslash && longestRun '"' cs ≤ 2 then
    "\"\"\"" ++ start ++ String.ofList (escapeAll true 2 cs) ++ "\"\"\""
  else if !control && longestRun '\'' cs ≤ 2 then "'''" ++ start ++ text ++ "'''"
  else if lines then "\"\"\"" ++ start ++ String.ofList (escapeAll true 2 cs) ++ "\"\"\""
  else "\"" ++ String.ofList (escapeAll false 0 cs) ++ "\""

end ClassInstrument.Toml
