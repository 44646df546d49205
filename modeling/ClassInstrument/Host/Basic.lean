import ClassInstrument.Cache.Disk
import ClassInstrument.Dump.Service
import ClassInstrument.Pipeline.Basic
import ClassInstrument.Rule.Edit

/-!
# Hosts

A host is the program whose classes are transformed.  Here it is one that keeps a record of what it
is called for, with rules put together from edits and caches in memory or on disk.

* `Event` — a call that reached the host;
* `Host` — its files, caches and record;
* `RuleScript`, `MandatoryScript`, `CacheScript` — collaborators as data;
* `RuleScript.toRule`, `MandatoryScript.run`, `CacheScript.install` — the collaborators themselves.
-/

namespace ClassInstrument

/-! ### The record -/

/-- The calls of a cache. -/
inductive CacheCall where
  | get
  | put
  | load
  | save
deriving DecidableEq, Inhabited, Repr

/-- The name of a call. -/
def CacheCall.toText : CacheCall → String
  | .get => "get"
  | .put => "put"
  | .load => "load"
  | .save => "save"

/-- A call that reached the host. -/
inductive Event where
  /-- A rule was asked for a class. -/
  | asked (rule : Identifier)
  /-- A rule rewrote a class. -/
  | rewrote (rule : Identifier) (className : String)
  /-- The host's own transformation ran. -/
  | mandatory (name loader : String) (length : Nat)
  /-- A cache was looked up, and knew the bytes or not. -/
  | cacheGet (hit : Bool)
  | cachePut (original made : Nat)
  | cacheFailed (call : CacheCall)
  | dumped (name : String) (bytes : Bytes)
  | escaped (bytes : Bytes)

/-- A cache in memory, some of whose calls fail. -/
structure MemoryCache where
  /-- The entries by their bytes; no bytes are listed twice. -/
  entries : List (Bytes × Bytes)
  failing : List CacheCall
deriving Inhabited

/-- A host with its record. -/
structure Host where
  files : FileTree
  /-- The caches in memory, by number. -/
  memories : List MemoryCache
  /-- The caches on disk, by number. -/
  disks : List DiskCache
  /-- The service that writes out classes, if there is one. -/
  dump : Option DumpService
  /-- The calls so far, last first. -/
  events : List Event
deriving Inhabited

namespace Host

/-- A host with some files. -/
def ofFiles (files : FileTree) : Host := ⟨files, [], [], none, []⟩

/-- Note a call. -/
def note (event : Event) (h : Host) : Host := { h with events := event :: h.events }

/-- The calls since the record was read last, in their order. -/
def takeEvents (h : Host) : List Event × Host := (h.events.reverse, { h with events := [] })

/-- Change the files of a host. -/
def onFiles {α : Type} (action : FileAction α) : Call Host α := fun h =>
  match action h.files with
  | .ok value files => .ok value { h with files }
  | .error e files => .error e { h with files }

end Host

/-! ### Rules -/

/-- A rule put together from edits. -/
structure RuleScript where
  name : Identifier
  /-- How the names of its classes start. -/
  start : String
  /-- Whether the name that the loader knows counts. -/
  byLoader : Bool
  edits : List Edit
deriving Inhabited

/-- The rule that a script describes. -/
def RuleScript.toRule (script : RuleScript) : Rule Host where
  name := script.name
  handles name loader := do
    modify (Host.note (.asked script.name))
    return Pipeline.startsWith (if script.byLoader then loader else name) script.start
  rewrite draft := do
    modify (Host.note (.rewrote script.name draft.unit.name))
    Call.ofExcept (Edit.applyAll script.edits draft)

/-! ### The host's own transformation -/

/-- The host's own transformation of classes. -/
inductive MandatoryScript where
  /-- Leave every class as it is. -/
  | passThrough
  /-- Add an interface. -/
  | interface (name : String)
  | fail (text : String)
  /-- Add bytes at the end. -/
  | append (bytes : Bytes)
  /-- Put bytes in the place of all others. -/
  | replace (bytes : Bytes)
deriving Inhabited

namespace MandatoryScript

/-- What a script makes of the bytes of a class. -/
def apply (bytes : Bytes) : MandatoryScript → Except Failure Bytes
  | .passThrough => .ok bytes
  | .interface name => do
    let unit ← ClassFile.decode .all bytes
    { unit with interfaces := unit.interfaces ++ [name] }.encode .flat .none
  | .fail text => .error (.transform text)
  | .append more => .ok (bytes ++ more)
  | .replace others => .ok others

/-- The transformation; it is noted unless it leaves everything as it is. -/
def run (script : MandatoryScript) (name loader : String) (bytes : Bytes) : Call Host Bytes := do
  match script with
  | .passThrough => return bytes
  | script =>
    modify (Host.note (.mandatory name loader bytes.length))
    Call.ofExcept (script.apply bytes)

end MandatoryScript

/-! ### Caches -/

/-- A cache in memory or on disk. -/
inductive CacheScript where
  | memory (name : Identifier) (cache : MemoryCache)
  | disk (name : Identifier) (directory : String)

namespace CacheScript

/-- A call of a cache in memory, which may be one that fails. -/
def memoryCall {α : Type} (number : Nat) (call : CacheCall)
    (action : MemoryCache → Host → α × Host) : Call Host α := fun h =>
  match h.memories[number]? with
  | none => .error (.transform (call.toText ++ " failed")) h
  | some cache =>
    if cache.failing.contains call then
      .error (.transform (call.toText ++ " failed")) (h.note (.cacheFailed call))
    else
      let (value, h) := action cache h
      .ok value h

/-- Look up bytes in a cache in memory. -/
def memoryGet (bytes : Bytes) (cache : MemoryCache) (h : Host) : Option Bytes × Host :=
  let found := cache.entries.lookup bytes
  (found, h.note (.cacheGet found.isSome))

/-- Add to a cache in memory. -/
def memoryPut (number : Nat) (bytes made : Bytes) (cache : MemoryCache) (h : Host) :
    Unit × Host :=
  let entries := (bytes, made) :: cache.entries.filter (·.1 != bytes)
  let h := h.note (.cachePut bytes.length made.length)
  ((), { h with memories := h.memories.set number { cache with entries } })

/-- The cache in memory with a number. -/
def memoryCache (name : Identifier) (number : Nat) : Cache Host where
  name := name
  load := memoryCall number .load fun _ h => ((), h)
  save := memoryCall number .save fun _ h => ((), h)
  get bytes := memoryCall number .get (memoryGet bytes)
  put bytes made := memoryCall number .put (memoryPut number bytes made)

/-- The state of the cache on disk with a number. -/
def diskState (h : Host) (number : Nat) : DiskCache := (h.disks[number]?).getD default

/-- The host with another state of the cache on disk with a number. -/
def setDisk (h : Host) (number : Nat) (cache : DiskCache) : Host :=
  { h with disks := h.disks.set number cache }

/-- The cache on disk with a number. -/
def diskCache (name : Identifier) (number : Nat) : Cache Host where
  name := name
  load h :=
    match (diskState h number).load h.files with
    | .ok cache => .ok () (setDisk h number cache)
    | .error e => .error e h
  save h :=
    let ((result, cache), files) := (diskState h number).save h.files
    let h := setDisk { h with files } number cache
    match result with
    | .ok _ => .ok () h
    | .error e => .error e h
  get bytes h := .ok ((diskState h number).get? bytes) h
  put bytes made h := .ok () (setDisk h number ((diskState h number).put bytes made))

/-- Give the host a cache. -/
def install (script : CacheScript) (h : Host) : Cache Host × Host :=
  match script with
  | .memory name cache =>
    (memoryCache name h.memories.length, { h with memories := h.memories ++ [cache] })
  | .disk name directory =>
    (diskCache name h.disks.length, { h with disks := h.disks ++ [.new name directory] })

/-- Give the host several caches. -/
def installAll (scripts : List CacheScript) (h : Host) : List (Cache Host) × Host :=
  scripts.foldl (fun (caches, h) script =>
    let (cache, h) := script.install h
    (caches ++ [cache], h)) ([], h)

end CacheScript

/-! ### Sinks -/

namespace Host

/-- Take over a class that is relocated. -/
def escape (bytes : Bytes) (h : Host) : Host := h.note (.escaped bytes)

/-- A sink that only notes what it is given. -/
def recordingSink (mode : DumpMode) : DumpSink Host :=
  ⟨mode, fun name bytes h => h.note (.dumped name bytes)⟩

/-- A sink that hands everything to the service that writes out classes. -/
def serviceSink (mode : DumpMode) : DumpSink Host :=
  ⟨mode, fun name bytes h => { h with dump := h.dump.map (·.write name bytes) }⟩

end Host

end ClassInstrument
