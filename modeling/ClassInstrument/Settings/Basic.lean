import ClassInstrument.Failure

/-!
# Settings

What can be set about the transformation of classes.

* `DumpMode` — which classes are written out for inspection;
* `Settings` — all settings, and whether they changed since they were saved;
* the setters, each of which notes a change.
-/

namespace ClassInstrument

/-- Which classes are written out for inspection. -/
inductive DumpMode where
  | off
  /-- The classes that a rule changed. -/
  | on
  /-- Every class. -/
  | force
deriving DecidableEq, Inhabited, Repr

namespace DumpMode

/-- The name of a mode. -/
def toText : DumpMode → String
  | .off => "off"
  | .on => "on"
  | .force => "force"

/-- The mode with a name. -/
def ofText? (text : String) : Option DumpMode :=
  [off, on, force].find? (·.toText == text)

/-- The mode with a name, in letters of any case. -/
def parse (text : String) : Except Failure DumpMode :=
  match ofText? (text.map Char.toLower) with
  | some mode => .ok mode
  | none => .error (.dumpMode text)

end DumpMode

/-- All settings. -/
structure Settings where
  /-- The cache to use, by the text of its identifier. -/
  cache : Option String
  dump : DumpMode
  /-- Prefixes of the names of classes that no rule sees. -/
  denylist : List String
  /-- The directory that classes are written to. -/
  dumpDirectory : String
  /-- The directory of the cache on disk. -/
  cacheDirectory : String
  /-- Whether a setting changed since the settings were saved. -/
  dirty : Bool
deriving DecidableEq, Inhabited, Repr

namespace Settings

/-- The settings where nothing was set. -/
def default : Settings := ⟨none, .off, [], "classweave/dump", "classweave/cache", false⟩

/-- Choose a cache, or none. -/
def setCache (s : Settings) (cache : Option String) : Settings :=
  if s.cache = cache then s else { s with cache, dirty := true }

def setDump (s : Settings) (dump : DumpMode) : Settings :=
  if s.dump = dump then s else { s with dump, dirty := true }

/-- Keep rules from the classes with a prefix. -/
def deny (s : Settings) (start : String) : Settings :=
  if s.denylist.contains start then s
  else { s with denylist := s.denylist ++ [start], dirty := true }

def setDumpDirectory (s : Settings) (dumpDirectory : String) : Settings :=
  { s with dumpDirectory, dirty := true }

def setCacheDirectory (s : Settings) (cacheDirectory : String) : Settings :=
  { s with cacheDirectory, dirty := true }

/-- Forget that something changed. -/
def markClean (s : Settings) : Settings := { s with dirty := false }

end Settings

end ClassInstrument
