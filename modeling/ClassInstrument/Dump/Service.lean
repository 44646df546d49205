import ClassInstrument.Storage.FileTree

/-!
# Writing out classes

Classes are written out for inspection in the background: they are queued when they come, and
written before the service is gone.  A class that cannot be written is left out.

* `DumpService` — the directory, and the queue while the service takes classes;
* `DumpService.write`, `DumpService.shutdown`.
-/

namespace ClassInstrument

/-- A service that writes classes into a directory. -/
structure DumpService where
  root : String
  /-- Names and bytes, the last first; none once the service was shut down. -/
  queue : Option (List (String × Bytes))
deriving Inhabited

namespace DumpService

/-- A service with nothing to write. -/
def start (root : String) : DumpService := ⟨root, some []⟩

/-- Queue a class.  One that comes after the end is left out. -/
def write (s : DumpService) (name : String) (bytes : Bytes) : DumpService :=
  { s with queue := s.queue.map ((name, bytes) :: ·) }

/-- Write a class into its file, if that is possible. -/
def writeClass (root : String) (t : FileTree) (item : String × Bytes) : FileTree :=
  match FileAction.write (Path.ofClass root item.1) item.2 t with
  | .ok _ t => t
  | .error _ t => t

/-- Write everything that is queued, and take no more. -/
def shutdown (s : DumpService) (t : FileTree) : DumpService × FileTree :=
  ({ s with queue := none }, ((s.queue.getD []).reverse).foldl (writeClass s.root) t)

end DumpService

end ClassInstrument
