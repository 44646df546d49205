/-!
# Paths

Files are named by paths relative to one directory.  A path is a text whose components are separated
by slashes.

* `Path.components` — the components; empty ones and dots say nothing, two dots go back;
* `Path.isName` — the components that a file or directory can have as its name;
* `Path.join` — a path with one more component;
* `Path.ofClass` — where the file of a class belongs below a directory.
-/

namespace ClassInstrument.Path

/-- The parts of a text between characters that pass a test; there is one more than there are such
characters.  Parts already found come last first. -/
def splitOnto (test : Char → Bool) (found : List (List Char)) (part : List Char) :
    List Char → List (List Char)
  | [] => (part.reverse :: found).reverse
  | c :: cs =>
    if test c then splitOnto test (part.reverse :: found) [] cs
    else splitOnto test found (c :: part) cs

/-- The parts of a text between characters that pass a test. -/
def split (test : Char → Bool) (text : String) : List String :=
  (splitOnto test [] [] text.toList).map String.ofList

/-- Follow one component from a directory, whose own components are given last first. -/
def follow (directory : List String) (component : String) : List String :=
  if component == "" || component == "." then directory
  else if component == ".." then directory.tail
  else component :: directory

/-- The components of a path. -/
def components (path : String) : List String :=
  ((split (· == '/') path).foldl follow []).reverse

/-- Whether a file or directory can have a name: it has at most 255 bytes, none of them zero. -/
def isName (name : String) : Bool := name.utf8ByteSize ≤ 255 && !name.toList.contains '\x00'

/-- Whether a path can only name a directory. -/
def namesDirectory (path : String) : Bool :=
  match (split (· == '/') path).getLast? with
  | some last => last == "" || last == "." || last == ".."
  | none => true

/-- A path with one more component. -/
def join (path component : String) : String :=
  if path == "" || path.toList.getLast? == some '/' then path ++ component
  else path ++ "/" ++ component

/-- The packages and the simple name in the name of a class, which dots and slashes separate. -/
def classSegments (name : String) : List String :=
  (split (fun c => c == '.' || c == '/') name).filter (· != "")

/-- The components of the file of a class: its packages as directories, then the file. -/
def classComponents (name : String) : List String :=
  let segments := classSegments name
  segments.dropLast ++ segments.getLast?.toList.map (· ++ ".class")

/-- The file of a class below a directory. -/
def ofClass (root name : String) : String := (classComponents name).foldl join root

end ClassInstrument.Path
