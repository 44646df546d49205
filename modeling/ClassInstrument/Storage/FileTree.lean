import ClassInstrument.Failure
import ClassInstrument.Bytes.Basic
import ClassInstrument.Storage.Path

/-!
# File trees

The files and directories below one directory.  Creating a directory or a file succeeds unless a
component on the way is a file or is no name to the file system, or a file is to take the place of a
directory.

* `FileNode` — a directory, or a file with its bytes;
* `FileTree` — the nodes by their components, below a root that is always there, and the names that
  can be given to new ones;
* `FileTree.get?`, `FileTree.names`, `FileTree.listing` — looking at it;
* `FileAction` — a change that may fail;
* `FileTree.createDirectories`, `FileTree.write`, `FileTree.read`, `FileTree.removeAll`.
-/

namespace ClassInstrument

/-- What a path names. -/
inductive FileNode where
  | directory
  | file (bytes : Bytes)
deriving DecidableEq, Inhabited, Repr

/-- Files and directories by their components.  No components are listed twice. -/
structure FileTree where
  nodes : List (List String × FileNode)
  /-- The names that the file system takes. -/
  takes : String → Bool

namespace FileTree

-- Places are listed in the order that the core library has on lists.
attribute [local instance (high)] List.instLE List.decidableLE

/-- Nothing but the root, with the usual limit on names. -/
def empty : FileTree := ⟨[], Path.isName⟩

instance : Inhabited FileTree := ⟨empty⟩

/-! ### Looking -/

/-- What is at some components. -/
def get? (t : FileTree) (place : List String) : Option FileNode :=
  if place.isEmpty then some .directory else t.nodes.lookup place

/-- Whether a directory is there. -/
def isDirectory (t : FileTree) (place : List String) : Bool := t.get? place == some .directory

/-- Whether a file is there. -/
def isFile (t : FileTree) (place : List String) : Bool :=
  match t.get? place with
  | some (.file _) => true
  | _ => false

/-- Whether a path that can only name a directory leads to a file. -/
def mistakesFile (t : FileTree) (path : String) : Bool :=
  Path.namesDirectory path && t.isFile (Path.components path)

/-- Whether something is at a path; the empty path names nothing. -/
def hasPath (t : FileTree) (path : String) : Bool :=
  path != "" && (t.get? (Path.components path)).isSome && !t.mistakesFile path

/-- The names in a directory, sorted. -/
def names (t : FileTree) (directory : List String) : List String :=
  let names := t.nodes.filterMap fun (components, _) =>
    match components.getLast? with
    | some name => if components.dropLast = directory then some name else none
    | none => none
  names.mergeSort fun a b => a ≤ b

/-- Everything that is there: each directory before what is in it, names in their order. -/
def listing (t : FileTree) : List (List String × FileNode) :=
  t.nodes.mergeSort fun a b => a.1 ≤ b.1

/-- The bytes of a file. -/
def read (t : FileTree) (place : List String) : Except Failure Bytes :=
  match t.get? place with
  | some (.file bytes) => .ok bytes
  | _ => .error .file

/-! ### Changing -/

/-- Put a node at some components, in place of what was there. -/
def set (t : FileTree) (place : List String) (node : FileNode) : FileTree :=
  if (t.nodes.lookup place).isSome then
    { t with nodes := t.nodes.map fun (components, old) =>
        if components = place then (components, node) else (components, old) }
  else { t with nodes := t.nodes ++ [(place, node)] }

/-- Create a directory in one that is there; none may be missing on the way, and it may be there
already. -/
def createDirectory (t : FileTree) (place : List String) : Except Failure FileTree :=
  match t.get? place with
  | some .directory => .ok t
  | some (.file _) => .error .file
  | none => if place.all t.takes then .ok (t.set place .directory) else .error .file

/-- The leading parts of some components, the shortest first, behind a part already taken. -/
def leading (taken : List String) : List String → List (List String)
  | [] => []
  | component :: components =>
    (taken ++ [component]) :: leading (taken ++ [component]) components

/-- Create a directory with all the directories above it. -/
def createDirectories (t : FileTree) (place : List String) : Except Failure FileTree :=
  (leading [] place).foldlM createDirectory t

/-- Write a file into a directory that is there. -/
def writeFile (t : FileTree) (place : List String) (bytes : Bytes) : Except Failure FileTree :=
  if t.isDirectory place || !t.isDirectory place.dropLast || !place.all t.takes then
    .error .file
  else .ok (t.set place (.file bytes))

/-- Write a file, with all the directories above it. -/
def write (t : FileTree) (place : List String) (bytes : Bytes) : Except Failure FileTree := do
  let t ← t.createDirectories place.dropLast
  t.writeFile place bytes

/-- The tree with some nodes, each given with its path, and the directories above them. -/
def ofList (nodes : List (String × FileNode)) : Except Failure FileTree :=
  nodes.foldlM (fun t (path, node) =>
    match node with
    | .directory => t.createDirectories (Path.components path)
    | .file bytes => t.write (Path.components path) bytes) empty

/-- Everything but a node and what is below it. -/
def without (t : FileTree) (place : List String) : FileTree :=
  { t with nodes := t.nodes.filter fun (components, _) => !place.isPrefixOf components }

end FileTree

/-! ### At paths -/

/-- A change of a file tree that may fail. -/
abbrev FileAction (α : Type) := EStateM Failure FileTree α

namespace FileAction

/-- A change that happens as a whole or not at all. -/
def change (f : FileTree → Except Failure FileTree) : FileAction Unit := fun t =>
  match f t with
  | .ok t => .ok () t
  | .error e => .error e t

/-- Look at the tree. -/
def look {α : Type} (f : FileTree → Except Failure α) : FileAction α := fun t =>
  match f t with
  | .ok value => .ok value t
  | .error e => .error e t

/-- Create the directory that a path is in, with all the directories above it. -/
def createParents (path : String) : FileAction Unit :=
  change (·.createDirectories (Path.components path).dropLast)

/-- Write a file into a directory that is there. -/
def writeFile (path : String) (bytes : Bytes) : FileAction Unit :=
  if Path.namesDirectory path then throw .file
  else change (·.writeFile (Path.components path) bytes)

/-- Write a file, with all the directories above it. -/
def write (path : String) (bytes : Bytes) : FileAction Unit := do
  createParents path
  writeFile path bytes

/-- The bytes of a file. -/
def read (path : String) : FileAction Bytes := look (·.read (Path.components path))

/-- Whether a component above a path is a file. -/
def isBelowFile (t : FileTree) (components : List String) : Bool :=
  (FileTree.leading [] components).dropLast.any t.isFile

/-- Remove a file, or a directory with all that is below it.  It is no failure if there is nothing
to remove.  The root cannot be removed, but what is in it is. -/
def removeAll (path : String) : FileAction Unit := fun t =>
  let components := Path.components path
  if path == "" then .ok () t
  else if components.isEmpty then .error .file .empty
  else if !components.all t.takes || isBelowFile t components || t.mistakesFile path then
    .error .file t
  else .ok () (t.without components)

end FileAction

end ClassInstrument
