import ClassInstrument.Cache.Basic
import ClassInstrument.Registry.Lifecycle
import ClassInstrument.Settings.Basic

/-!
# The registry

Rules and caches are registered while the registry is open, and read once it is frozen.  At most one
cache is used; which one is decided once.

* `Registry` — what was registered, and the decision;
* `Registry.begin`, `Registry.freeze` — the steps of its life;
* `Registry.registerEarly`, `Registry.registerLate`, `Registry.registerCache`;
* `Registry.earlyRules`, `Registry.lateRules`, `Registry.cacheNames`;
* `Registry.select` — the cache that the settings name, or else the first one.
-/

namespace ClassInstrument

/-- Rules and caches that were registered. -/
structure Registry (σ : Type) where
  stage : Lifecycle
  /-- The rules that run before the host's own transformation. -/
  early : List (Rule σ)
  /-- The rules that run after it. -/
  late : List (Rule σ)
  caches : List (Cache σ)
  /-- The decision about the cache, once it was made. -/
  selected : Option (Option (Cache σ))

namespace Registry

variable {σ : Type}

/-- Nothing registered, and not open yet. -/
def new : Registry σ := ⟨.unopened, [], [], [], none⟩

/-! ### Stages -/

/-- Go on to a stage from the one before it. -/
def moveTo (r : Registry σ) (source target : Lifecycle) : Except Failure (Registry σ) :=
  if r.stage = source then .ok { r with stage := target }
  else .error (.misuse (.registryStep target source r.stage))

/-- Begin the registration. -/
def begin (r : Registry σ) : Except Failure (Registry σ) := r.moveTo .unopened .opened

/-- End the registration. -/
def freeze (r : Registry σ) : Except Failure (Registry σ) := r.moveTo .opened .frozen

/-- Require a stage for an operation. -/
def require (r : Registry σ) (expected : Lifecycle) (operation : String) : Except Failure Unit :=
  if r.stage = expected then .ok ()
  else .error (.misuse (.registryOperation operation expected r.stage))

/-! ### Registration -/

/-- Register a rule for the time before the host's own transformation. -/
def registerEarly (r : Registry σ) (rule : Rule σ) : Except Failure (Registry σ) := do
  r.require .opened "register_early"
  .ok { r with early := r.early ++ [rule] }

/-- Register a rule for the time after it. -/
def registerLate (r : Registry σ) (rule : Rule σ) : Except Failure (Registry σ) := do
  r.require .opened "register_late"
  .ok { r with late := r.late ++ [rule] }

/-- Register a cache that may be used. -/
def registerCache (r : Registry σ) (cache : Cache σ) : Except Failure (Registry σ) := do
  r.require .opened "register_cache"
  .ok { r with caches := r.caches ++ [cache] }

/-! ### Reading -/

/-- The rules before the host's own transformation, in the order of their registration. -/
def earlyRules (r : Registry σ) : Except Failure (List (Rule σ)) := do
  r.require .frozen "early_rules"
  .ok r.early

/-- The rules after it, in the order of their registration. -/
def lateRules (r : Registry σ) : Except Failure (List (Rule σ)) := do
  r.require .frozen "late_rules"
  .ok r.late

/-- The names of the caches, in the order of their registration. -/
def cacheNames (r : Registry σ) : List Identifier := r.caches.map Cache.name

/-- The cache to use according to some settings.  If they name none that is registered, it is the
first one, which they name from then on. -/
def choose (r : Registry σ) (s : Settings) : Option (Cache σ) × Settings :=
  match r.caches with
  | [] => (none, s)
  | first :: _ =>
    match s.cache.bind fun name => r.caches.find? fun cache => cache.name.toText == name with
    | some cache => (some cache, s)
    | none => (some first, s.setCache (some first.name.toText))

/-- The cache to use.  The first call decides, and later settings are left as they are. -/
def select (r : Registry σ) (s : Settings) :
    Except Failure (Option (Cache σ) × Registry σ × Settings) := do
  r.require .frozen "select_cache"
  match r.selected with
  | some cache => .ok (cache, r, s)
  | none =>
    let (cache, s) := r.choose s
    .ok (cache, { r with selected := some cache }, s)

end Registry

end ClassInstrument
