import ClassInstrument.Settings.Basic
import ClassInstrument.Storage.FileTree
import ClassInstrument.Toml.Document

/-!
# Settings files

Settings are kept in a small TOML document with one key for each of them.

* `Settings.toText` — the document;
* `Settings.ofText?` — reading one; keys that are missing have their default, others are ignored;
* `Settings.load` — from a file, which is completed if it lacks a key, and created if it is missing;
* `Settings.save` — to a file, if something changed.
-/

namespace ClassInstrument.Settings

/-! ### The document -/

/-- A list of texts; two or more stand on lines of their own. -/
def listText (texts : List String) : String :=
  match texts with
  | [] => "[]"
  | [text] => "[" ++ Toml.quote text ++ "]"
  | texts => "[\n" ++ String.join (texts.map fun text => "    " ++ Toml.quote text ++ ",\n") ++ "]"

/-- A line for a key. -/
def lineText (key value : String) : String := key ++ " = " ++ value ++ "\n"

/-- The document with all settings. -/
def toText (s : Settings) : String :=
  ((s.cache.map fun cache => lineText "cache" (Toml.quote cache)).getD "")
    ++ lineText "dump" (Toml.quote s.dump.toText)
    ++ lineText "denylist" (listText s.denylist)
    ++ lineText "dump_dir" (Toml.quote s.dumpDirectory)
    ++ lineText "cache_dir" (Toml.quote s.cacheDirectory)

/-- The keys that are always written. -/
def requiredKeys : List String := ["dump", "denylist", "dump_dir", "cache_dir"]

/-- The text that a value is.  A time is the text that spells it. -/
def text? : Toml.Value → Option String
  | .string text => some text
  | .time time => some time.toText
  | _ => none

/-- The mode that a value is: its name, or a table whose only key is the name and holds nothing. -/
def mode? : Toml.Value → Option DumpMode
  | .string text => DumpMode.ofText? text
  | .table [(text, .table [])] | .table [(text, .array [])] => DumpMode.ofText? text
  | _ => none

/-- The list of texts that a value is. -/
def texts? : Toml.Value → Option (List String)
  | .array values => values.mapM text?
  | _ => none

/-- What a key says, or its default; none if it says something else. -/
def entry? {α : Type} (entries : List (String × Toml.Value)) (key : String) (missing : α)
    (read? : Toml.Value → Option α) : Option α :=
  match entries.lookup key with
  | none => some missing
  | some value => read? value

/-- The settings that the entries of a document say. -/
def ofEntries? (entries : List (String × Toml.Value)) : Option Settings := do
  let cache ← entry? entries "cache" none fun value => (text? value).map some
  let dump ← entry? entries "dump" default.dump mode?
  let denylist ← entry? entries "denylist" default.denylist texts?
  let dumpDirectory ← entry? entries "dump_dir" default.dumpDirectory text?
  let cacheDirectory ← entry? entries "cache_dir" default.cacheDirectory text?
  some { cache, dump, denylist, dumpDirectory, cacheDirectory, dirty := false }

/-- The settings in a document, and whether it has all keys. -/
def ofText? (text : String) : Option (Settings × Bool) := do
  let entries ← Toml.parse? text
  let settings ← ofEntries? entries
  some (settings, requiredKeys.all fun key => (entries.lookup key).isSome)

/-! ### Files -/

/-- The bytes of a text. -/
def textBytes (text : String) : Bytes := text.toUTF8.toList

/-- The text that bytes are. -/
def bytesText? (bytes : Bytes) : Option String := String.fromUTF8? ⟨bytes.toArray⟩

/-- Write the settings to a file in any case. -/
def write (s : Settings) (path : String) : FileAction Settings := do
  FileAction.write path (textBytes s.toText)
  return s.markClean

/-- Write the settings to a file if they changed, or if that is asked for; tell whether they were
written. -/
def save (s : Settings) (path : String) (force : Bool) : FileAction (Bool × Settings) := do
  if force || s.dirty then
    let s ← s.write path
    return (true, s)
  else return (false, s)

/-- The settings in a file that is there. -/
def read (path : String) : FileAction (Settings × Bool) := do
  let bytes ← FileAction.read path
  match bytesText? bytes with
  | none => throw .file
  | some text =>
    match ofText? text with
    | some found => return found
    | none => throw .settings

/-- The settings in a file.  A missing file is created, and one that lacks a key is completed. -/
def load (path : String) : FileAction Settings := do
  let tree ← get
  if !tree.hasPath path then default.write path
  else
    let (s, complete) ← read path
    if complete then return s else s.write path

end ClassInstrument.Settings
