import ClassInstrument.ClassFile.Encode

/-!
# Rules

A rule rewrites classes.  It is asked first whether it might change a class, by name only; a class
that no rule asks for is not even decoded.

* `Call` — a call to a collaborator, which has a state of its own and may fail;
* `Draft` — a class that is being rewritten, with what has to be computed anew afterwards;
* `Rule` — a named rewriting of drafts.
-/

namespace ClassInstrument

/-- A call to a collaborator: it may change the state `σ` of the world around it, and it may fail;
what it changed before it failed stays changed. -/
abbrev Call (σ α : Type) := EStateM Failure σ α

namespace Call

variable {σ α : Type}

/-- Use a result that needs no collaborator. -/
def ofExcept : Except Failure α → Call σ α
  | .ok value => pure value
  | .error e => throw e

/-- The outcome of a call as a value, with the state it left. -/
def outcome (call : Call σ α) (state : σ) : Except Failure α × σ :=
  match call state with
  | .ok value state => (.ok value, state)
  | .error e state => (.error e, state)

/-- Make a call, and go on if it fails. -/
def attempt (call : Call σ α) : Call σ (Except Failure α) := fun state =>
  let (result, state) := call.outcome state
  .ok result state

/-- Change the reason of a failure. -/
def withReason (reason : Failure → Failure) (call : Call σ α) : Call σ α := fun state =>
  match call state with
  | .ok value state => .ok value state
  | .error e state => .error (reason e) state

end Call

/-- A class that is being rewritten. -/
structure Draft where
  unit : ClassFile
  /-- What the rewriting asks to be computed anew. -/
  requests : EncodeOptions
deriving Inhabited

namespace Draft

/-- A class as it was decoded. -/
def ofClass (c : ClassFile) : Draft := ⟨c, .none⟩

/-- Ask for the sizes of operand stack and locals. -/
def requestSizes (d : Draft) : Draft := { d with requests := { d.requests with sizes := true } }

/-- Ask for stack map frames. -/
def requestFrames (d : Draft) : Draft := { d with requests := { d.requests with frames := true } }

/-- The class file of the class as it stands. -/
def encode (d : Draft) (hierarchy : Hierarchy) : Except Failure Bytes :=
  d.unit.encode hierarchy d.requests

end Draft

/-- A named rewriting of classes. -/
structure Rule (σ : Type) where
  name : Identifier
  /-- Whether the rule might change a class, given the name it is requested under and the name that
  its loader knows. -/
  handles : String → String → Call σ Bool
  /-- Rewrite a class, and tell whether anything changed. -/
  rewrite : Draft → Call σ (Bool × Draft)

end ClassInstrument
