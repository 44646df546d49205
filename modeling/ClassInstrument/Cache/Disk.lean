import ClassInstrument.Bytes.Hexadecimal
import ClassInstrument.Digest.Sha1
import ClassInstrument.Identifier
import ClassInstrument.Storage.FileTree

/-!
# The cache on disk

A cache with one file for each entry.  Bytes are known by their digest, whose hexadecimal digits are
the name of the file.

* `DiskCache` — the entries held in memory, and the keys that are not saved yet;
* `DiskCache.fileName`, `DiskCache.keyOfFileName?` — between keys and names of files;
* `DiskCache.get?`, `DiskCache.put` — looking up and adding;
* `DiskCache.saveWith` — write what is not saved; it stops where a file cannot be written;
* `DiskCache.loadWith` — take over the files with some names;
* `DiskCache.save`, `DiskCache.load` — the same in the directory.
-/

namespace ClassInstrument

/-- A cache with one file for each entry. -/
structure DiskCache where
  name : Identifier
  directory : String
  /-- The entries by key; no key is listed twice. -/
  entries : List (Bytes × Bytes)
  /-- The keys whose entry is not saved yet. -/
  unsaved : List Bytes
deriving Inhabited

namespace DiskCache

/-- The name of a cache that is given none. -/
def defaultName : Identifier := ⟨"classweave", "disk"⟩

/-- A cache that holds nothing yet. -/
def new (name : Identifier) (directory : String) : DiskCache := ⟨name, directory, [], []⟩

def size (c : DiskCache) : Nat := c.entries.length

/-! ### Names of files -/

/-- How the name of a file ends. -/
def fileExtension : List Char := ['b', 'i', 'n']

/-- The number of bytes of a key. -/
def keyLength : Nat := 20

/-- The name of the file for a key. -/
def fileName (key : Bytes) : String :=
  Hexadecimal.encode key ++ "." ++ String.ofList fileExtension

/-- The byte that two characters spell: two digits, or a plus sign and one. -/
def byte? (first second : Char) : Option UInt8 := do
  let low ← Hexadecimal.digit? second
  if first = '+' then some (UInt8.ofNat low)
  else
    let high ← Hexadecimal.digit? first
    some (UInt8.ofNat (16 * high + low))

/-- The bytes that characters spell, two for each. -/
def bytes? : List Char → Option Bytes
  | [] => some []
  | [_] => none
  | first :: second :: rest => do
    let byte ← byte? first second
    let bytes ← bytes? rest
    some (byte :: bytes)

/-- A name before and behind its last point; a name that starts with its only point has nothing
behind it. -/
def splitExtension (name : String) : List Char × Option (List Char) :=
  let backwards := name.toList.reverse
  match backwards.dropWhile (· ≠ '.') with
  | [] | ['.'] => (name.toList, none)
  | _ :: stem => (stem.reverse, some (backwards.takeWhile (· ≠ '.')).reverse)

/-- The key for which a name is taken. -/
def keyOfFileName? (name : String) : Option Bytes :=
  match splitExtension name with
  | (stem, some ending) =>
    if ending = fileExtension ∧ stem.length = 2 * keyLength then bytes? stem else none
  | (_, none) => none

/-! ### Entries -/

/-- The key of some bytes. -/
def key (bytes : Bytes) : Bytes := Sha1.digest bytes

/-- Put an entry in the place of the one with its key, or before all. -/
def setEntry (entries : List (Bytes × Bytes)) (key value : Bytes) : List (Bytes × Bytes) :=
  (key, value) :: entries.filter (·.1 != key)

/-- What was made from some bytes, if that is known. -/
def get? (c : DiskCache) (bytes : Bytes) : Option Bytes := c.entries.lookup (key bytes)

/-- Remember what was made from some bytes. -/
def put (c : DiskCache) (bytes made : Bytes) : DiskCache :=
  let k := key bytes
  { c with
    entries := setEntry c.entries k made
    unsaved := if c.unsaved.contains k then c.unsaved else c.unsaved ++ [k] }

/-! ### Saving and loading -/

/-- Write the entries that are not saved, given how to write a file with a name.  A key is saved
once its file is written; the first file that cannot be written ends it. -/
def saveWith {φ : Type} (write : String → Bytes → EStateM Failure φ Unit) (c : DiskCache) :
    φ → (Except Failure Unit × DiskCache) × φ :=
  save c.unsaved
where
  /-- Write the entries of some keys, the first of those that are not saved. -/
  save : List Bytes → φ → (Except Failure Unit × DiskCache) × φ
    | [], files => ((.ok (), { c with unsaved := [] }), files)
    | key :: keys, files =>
      match c.entries.lookup key with
      | none => save keys files
      | some value =>
        match write (fileName key) value files with
        | .ok _ files => save keys files
        | .error e files => ((.error e, { c with unsaved := key :: keys }), files)

/-- Write the entries that are not saved into the directory. -/
def save (c : DiskCache) : FileTree → (Except Failure Unit × DiskCache) × FileTree :=
  c.saveWith fun name bytes => FileAction.write (Path.join c.directory name) bytes

/-- The names that are taken for those of entries, with their keys. -/
def entriesAmong (names : List String) : List (Bytes × String) :=
  names.filterMap fun name => (keyOfFileName? name).map fun key => (key, name)

/-- Take over the files with some names, given how to read the file with a name.  Those that are no
entries are left alone; if one of the others cannot be read, none is taken over. -/
def loadWith (names : List String) (read : String → Except Failure Bytes) (c : DiskCache) :
    Except Failure DiskCache := do
  let loaded ← (entriesAmong names).mapM fun (key, name) =>
    (read name).map fun bytes => (key, bytes)
  .ok { c with
    entries := loaded.foldl (fun entries (key, bytes) => setEntry entries key bytes) c.entries }

/-- Take over the files of the directory, if there is one. -/
def load (c : DiskCache) (t : FileTree) : Except Failure DiskCache :=
  let directory := Path.components c.directory
  if c.directory == "" || !t.isDirectory directory then .ok c
  else c.loadWith (t.names directory) fun name => t.read (directory ++ [name])

end DiskCache

end ClassInstrument
