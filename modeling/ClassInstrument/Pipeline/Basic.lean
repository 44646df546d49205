import ClassInstrument.Cache.Basic
import ClassInstrument.ClassFile.Decode
import ClassInstrument.Rule.Relocation
import ClassInstrument.Settings.Basic
import ClassInstrument.Shared.Claims

/-!
# The pipeline

What happens to a class between the bytes that were found for it and those that are defined.  Early
rules run first, then the host's own transformation, then late rules; a class that asks for
relocation is handed out instead of being returned.

* `Pipeline` — the rules and collaborators;
* `Pipeline.runPhase` — run the rules of a phase; a class that no rule changes keeps its bytes;
* `Pipeline.process` — the way of a class that is seen for the first time;
* `Pipeline.transform` — the same with the names claimed so far: every later call for a name gives
  back the bytes it is given.
-/

namespace ClassInstrument

/-- What became of a class. -/
inductive Outcome where
  /-- The loader defines these bytes. -/
  | bytes (bytes : Bytes)
  /-- The class was handed out, and the loader must not define it. -/
  | redirected
deriving DecidableEq, Inhabited, Repr

/-- Where classes are written out for inspection. -/
structure DumpSink (σ : Type) where
  mode : DumpMode
  /-- Take over a class; it never fails. -/
  write : String → Bytes → σ → σ

/-- Rules and collaborators. -/
structure Pipeline (σ : Type) where
  early : List (Rule σ)
  late : List (Rule σ)
  /-- The host's own transformation, given both names of the class and its bytes. -/
  mandatory : String → String → Bytes → Call σ Bytes
  cache : Option (Cache σ)
  /-- Take over a class that is relocated. -/
  escape : Bytes → σ → σ
  dump : Option (DumpSink σ)
  /-- Prefixes of names of classes that no rule sees, besides those that are built in. -/
  denylist : List String
  hierarchy : Hierarchy

namespace Pipeline

variable {σ : Type} (p : Pipeline σ)

/-- Whether a text starts with another. -/
def startsWith (text start : String) : Bool := start.toList.isPrefixOf text.toList

/-- Whether no rule sees the class with a name. -/
def isDenied (name : String) : Bool :=
  (Relocation.builtinDenylist ++ p.denylist).any (startsWith name)

/-! ### Collaborators -/

/-- Write out a class for inspection, if the mode is one of some. -/
def dumpIn (modes : List DumpMode) (name : String) (bytes : Bytes) : Call σ Unit :=
  match p.dump with
  | none => pure ()
  | some sink => if modes.contains sink.mode then modify (sink.write name bytes) else pure ()

/-- What the cache knows; a cache that fails knows nothing. -/
def lookup (bytes : Bytes) : Call σ (Option Bytes) :=
  match p.cache with
  | none => pure none
  | some cache => do
    match ← (cache.get bytes).attempt with
    | .ok found => return found
    | .error _ => return none

/-- Tell the cache what was made from some bytes; it does not matter if that fails. -/
def remember (original made : Bytes) : Call σ Unit :=
  match p.cache with
  | none => pure ()
  | some cache => do
    let _ ← (cache.put original made).attempt

/-- Return a class, or hand it out. -/
def finish (bytes : Bytes) (relocate : Bool) : Call σ Outcome :=
  if relocate then do
    modify (p.escape bytes)
    return .redirected
  else return .bytes bytes

/-! ### Rules -/

/-- The rules that ask for a class. -/
def applicable (rules : List (Rule σ)) (name loader : String) : Call σ (List (Rule σ)) :=
  rules.filterM fun rule => rule.handles name loader

/-- Run a rule on a draft that others may have changed. -/
def runRule (result : Bool × Draft) (rule : Rule σ) : Call σ (Bool × Draft) := do
  let (changed, draft) ← (rule.rewrite result.2).withReason (.ruleFailed rule.name)
  return (result.1 || changed, draft)

/-- Run the rules of a phase, and tell whether any of them changed the class. -/
def runPhase (rules : List (Rule σ)) (name loader : String) (bytes : Bytes) :
    Call σ (Bool × Bytes) := do
  let asking ← applicable rules name loader
  if asking.isEmpty then return (false, bytes)
  else
    let unit ← Call.ofExcept (ClassFile.decode .all bytes)
    let (changed, draft) ← asking.foldlM runRule (false, Draft.ofClass unit)
    if changed then
      let bytes ← Call.ofExcept (draft.encode p.hierarchy)
      return (true, bytes)
    else return (false, bytes)

/-! ### The way of a class -/

/-- The way of a class that no rule sees. -/
def processDenied (name loader : String) (bytes : Bytes) : Call σ Outcome := do
  p.dumpIn [.force] name bytes
  let bytes ← p.mandatory name loader bytes
  let relocate ← Call.ofExcept (Relocation.isMarked bytes)
  p.finish bytes relocate

/-- The way of a class that the cache does not know. -/
def processFresh (name loader : String) (original : Bytes) : Call σ Outcome := do
  let relocate ← Call.ofExcept (Relocation.isMarked original)
  let (early, bytes) ← p.runPhase p.early name loader original
  let bytes ← p.mandatory name loader bytes
  let rules := if relocate then p.late ++ [Relocation.rule] else p.late
  let (late, bytes) ← p.runPhase rules name loader bytes
  if !relocate then p.remember original bytes
  p.dumpIn (if early || late then [.on, .force] else [.force]) name bytes
  p.finish bytes relocate

/-- The way of a class that is seen for the first time. -/
def process (name loader : String) (bytes : Bytes) : Call σ Outcome := do
  if bytes.isEmpty then return .bytes bytes
  else if p.isDenied name then p.processDenied name loader bytes
  else
    match ← p.lookup bytes with
    | some known => return .bytes known
    | none => p.processFresh name loader bytes

/-- What becomes of a class.  Only the first call for a name does anything. -/
def transform (name loader : String) (bytes : Bytes) (claims : Claims) (state : σ) :
    Except Failure Outcome × Claims × σ :=
  match claims.claim name with
  | (true, claims) =>
    let (result, state) := (p.process name loader bytes).outcome state
    (result, claims, state)
  | (false, claims) => (.ok (.bytes bytes), claims, state)

end Pipeline

end ClassInstrument
