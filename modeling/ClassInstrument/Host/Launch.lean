import ClassInstrument.Host.Basic
import ClassInstrument.Registry.Basic
import ClassInstrument.Settings.File

/-!
# Starting and stopping

What a host does before the first class, and after the last.

* `Initializer` — a module that contributes rules and caches, and may fail;
* `Launch` — what a host starts with;
* `Launch.start` — register everything, bring in the cache, clear the directory for classes that are
  written out, and set up the pipeline;
* `Instrumentation` — a host that was started;
* `Instrumentation.shutdown` — write what is queued, save the cache and then the settings.
-/

namespace ClassInstrument

/-- A module that contributes rules and caches.  It may fail in the end; what it registered before
stays registered. -/
structure Initializer where
  early : List (Rule Host)
  late : List (Rule Host)
  caches : List CacheScript
  failure : Option String

/-- What a host starts with. -/
structure Launch where
  settings : Settings
  /-- The file that the settings are from, if they are from one. -/
  settingsPath : Option String
  initializers : List Initializer
  /-- Whether the cache on disk is registered behind all others. -/
  withDiskCache : Bool
  hierarchy : Hierarchy
  mandatory : MandatoryScript

/-- A host that was started. -/
structure Instrumentation where
  pipeline : Pipeline Host
  registry : Registry Host
  settings : Settings
  settingsPath : Option String

namespace Launch

/-- Register what an initializer contributes.  Its failure changes nothing about it. -/
def contribute (state : Registry Host × Host) (i : Initializer) :
    Except Failure (Registry Host × Host) := do
  let (registry, host) := state
  let registry ← i.early.foldlM Registry.registerEarly registry
  let registry ← i.late.foldlM Registry.registerLate registry
  let (caches, host) := CacheScript.installAll i.caches host
  let registry ← caches.foldlM Registry.registerCache registry
  .ok (registry, host)

/-- Register everything. -/
def register (l : Launch) (host : Host) : Except Failure (Registry Host × Host) := do
  let registry ← Registry.new.begin
  let (registry, host) ← l.initializers.foldlM contribute (registry, host)
  if l.withDiskCache then
    let (cache, host) :=
      CacheScript.install (.disk DiskCache.defaultName l.settings.cacheDirectory) host
    let registry ← registry.registerCache cache
    let registry ← registry.freeze
    .ok (registry, host)
  else
    let registry ← registry.freeze
    .ok (registry, host)

/-- Bring in what a cache saved.  A cache that cannot be brought in is not used. -/
def loadCache (cache : Option (Cache Host)) (host : Host) : Option (Cache Host) × Host :=
  match cache with
  | none => (none, host)
  | some cache =>
    match cache.load.outcome host with
    | (.ok _, host) => (some cache, host)
    | (.error _, host) => (none, host)

/-- Clear the directory for classes that are written out, and start the service that does it. -/
def startDump (s : Settings) (host : Host) : Option (DumpSink Host) × Host :=
  if s.dump = .off then (none, host)
  else
    let ((_, host) : Except Failure Unit × Host) :=
      (Host.onFiles (FileAction.removeAll s.dumpDirectory)).outcome host
    (some (Host.serviceSink s.dump), { host with dump := some (.start s.dumpDirectory) })

/-- Start a host. -/
def start (l : Launch) (host : Host) : Except Failure (Instrumentation × Host) := do
  let (registry, host) ← l.register host
  let (cache, registry, settings) ← registry.select l.settings
  let (cache, host) := loadCache cache host
  let (dump, host) := startDump settings host
  let early ← registry.earlyRules
  let late ← registry.lateRules
  .ok (
    { pipeline :=
        { early, late, cache, dump
          mandatory := l.mandatory.run
          escape := Host.escape
          denylist := settings.denylist
          hierarchy := l.hierarchy }
      registry, settings
      settingsPath := l.settingsPath },
    host)

end Launch

namespace Instrumentation

/-- Write the classes that are queued. -/
def drain (host : Host) : Host :=
  match host.dump with
  | none => host
  | some service =>
    let (service, files) := service.shutdown host.files
    { host with files, dump := some service }

/-- Save the cache, if there is one. -/
def saveCache (i : Instrumentation) : Call Host Unit :=
  match i.pipeline.cache with
  | some cache => cache.save
  | none => pure ()

/-- Save the settings, if they are from a file. -/
def saveSettings (i : Instrumentation) : Call Host Unit :=
  match i.settingsPath with
  | none => pure ()
  | some path => do
    let _ ← Host.onFiles (i.settings.save path false)

/-- Stop a host.  All steps are taken, and the first failure is the result. -/
def shutdown (i : Instrumentation) (host : Host) : Except Failure Unit × Host :=
  let (cacheResult, host) := i.saveCache.outcome (drain host)
  let (settingsResult, host) := i.saveSettings.outcome host
  match cacheResult with
  | .error e => (.error e, host)
  | .ok _ => (settingsResult, host)

end Instrumentation

end ClassInstrument
