import ClassInstrument.Toml.Time

/-!
# TOML values

What a TOML document says.

* `Toml.Value` — a value; numbers with a point are only told apart from the rest;
* `Toml.Value.withTimes?` — a value whose tables that stand for times are times;
* `Toml.Item` — an entry of a table that is still being put together;
* `Toml.Entries.insert?` — add a value under a dotted key;
* `Toml.Entries.open?`, `Toml.Entries.append?`, `Toml.Entries.close?` — what table headers do.

No key is defined twice, no table has two headers, and what was written inline is complete.
-/

namespace ClassInstrument.Toml

/-- A value. -/
inductive Value where
  | string (text : String)
  | integer (value : Int)
  | boolean (value : Bool)
  /-- A number with a point or an exponent. -/
  | float
  | time (time : Time)
  | array (values : List Value)
  | table (entries : List (String × Value))
deriving Inhabited

/-- The key of a table that stands for a time. -/
def timeKey : String := "$__toml_private_datetime"

mutual

/-- A value with a time in the place of each table whose first key is `timeKey`.  The string under
that key spells the time, and nothing behind it counts. -/
def Value.withTimes? : Value → Option Value
  | .table ((key, value) :: entries) =>
    if key == timeKey then
      match value with
      | .string text => (Time.ofChars? text.toList).map .time
      | _ => none
    else do
      let value ← value.withTimes?
      let entries ← Value.withTimesEach? entries
      some (.table ((key, value) :: entries))
  | .array values => (Value.withTimesAll? values).map .array
  | value => some value

/-- The same for the values of entries. -/
def Value.withTimesEach? : List (String × Value) → Option (List (String × Value))
  | [] => some []
  | (key, value) :: entries => do
    let value ← value.withTimes?
    let entries ← Value.withTimesEach? entries
    some ((key, value) :: entries)

/-- The same for the values of an array. -/
def Value.withTimesAll? : List Value → Option (List Value)
  | [] => some []
  | value :: values => do
    let value ← value.withTimes?
    let values ← Value.withTimesAll? values
    some (value :: values)

end

/-- How a table came to be. -/
inductive TableKind where
  /-- Named by its own header, or the whole document. -/
  | explicit
  /-- Named in the header of a table below it. -/
  | implied
  /-- Named in a dotted key. -/
  | dotted
deriving DecidableEq, Inhabited, Repr

/-- An entry of a table. -/
inductive Item where
  | value (value : Value)
  | table (kind : TableKind) (entries : List (String × Item))
  /-- Tables of one name, the last first. -/
  | tables (list : List (List (String × Item)))
deriving Inhabited

/-- The entries of a table. -/
abbrev Entries := List (String × Item)

mutual

/-- The value that an item is. -/
def Item.toValue : Item → Value
  | .value v => v
  | .table _ entries => .table (Item.toValues entries)
  | .tables list => .array (Item.toTables list).reverse

/-- The values of entries. -/
def Item.toValues : List (String × Item) → List (String × Value)
  | [] => []
  | (key, item) :: entries => (key, item.toValue) :: Item.toValues entries

/-- The values of tables. -/
def Item.toTables : List (List (String × Item)) → List Value
  | [] => []
  | entries :: list => .table (Item.toValues entries) :: Item.toTables list

end

namespace Entries

/-- Put an item in the place of another one, or behind all. -/
def set (entries : Entries) (key : String) (item : Item) : Entries :=
  if (entries.lookup key).isSome then
    entries.map fun (k, old) => if k == key then (k, item) else (k, old)
  else entries ++ [(key, item)]

/-- Change the table that a path of keys leads to, whose kind the change is told.  Tables on the way
are created; behind an array of tables the way goes on in its last one. -/
def descend? (new : TableKind) (change : TableKind → Entries → Option Entries) :
    List String → TableKind → Entries → Option Entries
  | [], kind, entries => change kind entries
  | key :: path, _, entries =>
    match entries.lookup key with
    | none => do
      let below ← descend? new change path new []
      some (entries.set key (.table new below))
    | some (.value _) => none
    | some (.table kind below) =>
      if new = .dotted ∧ kind = .explicit then none
      else do
        let below ← descend? new change path kind below
        some (entries.set key (.table kind below))
    | some (.tables []) => none
    | some (.tables (last :: before)) => do
      let last ← descend? new change path .explicit last
      some (entries.set key (.tables (last :: before)))

/-- Add an entry to a table, which has to be reached by the same kind of key that made it. -/
def define? (plain : Bool) (key : String) (item : Item) (kind : TableKind) (entries : Entries) :
    Option Entries :=
  if decide (kind = .dotted) == plain then none
  else if (entries.lookup key).isSome then none
  else some (entries ++ [(key, item)])

/-- Add a value under a dotted key. -/
def insert? (entries : Entries) (key : List String) (value : Value) : Option Entries :=
  match key.getLast? with
  | none => none
  | some last =>
    let path := key.dropLast
    descend? .dotted (define? path.isEmpty last (.value value)) path .explicit entries

/-- Begin a table by its header: nothing may be there yet but a table that was implied, whose
entries are taken out. -/
def open? (entries : Entries) (header : List String) : Option (Entries × Entries) :=
  match header.getLast? with
  | none => none
  | some last => do
    let found (table : Entries) : Option Entries :=
      match table.lookup last with
      | none => some []
      | some (.table .implied below) => some below
      | some _ => none
    let rest ← descend? .implied
      (fun _ table => (found table).map fun _ => table.filter (·.1 != last))
      header.dropLast .explicit entries
    let taken ← lookupAt header.dropLast entries found
    some (taken, rest)
where
  /-- Look into the table that a path leads to; one that is missing is empty. -/
  lookupAt : List String → Entries → (Entries → Option Entries) → Option Entries
    | [], table, found => found table
    | key :: path, table, found =>
      match table.lookup key with
      | none => found []
      | some (.value _) | some (.tables []) => none
      | some (.table _ below) => lookupAt path below found
      | some (.tables (last :: _)) => lookupAt path last found

/-- Put a table that is complete where its header says. -/
def close? (entries : Entries) (header : List String) (table : Entries) : Option Entries :=
  match header.getLast? with
  | none => some table
  | some last =>
    descend? .implied (fun _ outer =>
        match outer.lookup last with
        | none | some (.table .implied _) => some (outer.set last (.table .explicit table))
        | some _ => none)
      header.dropLast .explicit entries

/-- Begin one more table of an array: nothing else may have its name. -/
def reserve? (entries : Entries) (header : List String) : Option Entries :=
  match header.getLast? with
  | none => none
  | some last =>
    descend? .implied (fun _ outer =>
        match outer.lookup last with
        | none => some (outer ++ [(last, .tables [])])
        | some (.tables _) => some outer
        | some _ => none)
      header.dropLast .explicit entries

/-- Put one more table behind the others of an array. -/
def append? (entries : Entries) (header : List String) (table : Entries) : Option Entries :=
  match header.getLast? with
  | none => none
  | some last =>
    descend? .implied (fun _ outer =>
        match outer.lookup last with
        | some (.tables list) => some (outer.set last (.tables (table :: list)))
        | none => some (outer.set last (.tables [table]))
        | some _ => none)
      header.dropLast .explicit entries

end Entries

end ClassInstrument.Toml
