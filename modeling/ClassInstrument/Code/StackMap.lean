import ClassInstrument.Code.Bytecode

/-!
# Stack map tables

The frames of a method body in their compressed form: each is given as a change to the one before
it, the first as a change to the frame at the start of the body.

* `FrameChange` — the six ways to describe a frame by the one before it;
* `FrameChange.decode`, `FrameChange.next?` — reading a change, and making it;
* `StackMap` — the frames read so far, with the offsets that were mentioned on the way;
* `StackMap.decode` — a whole table.
-/

namespace ClassInstrument

/-! ### Verification types -/

/-- The type whose tag comes next; labels are byte offsets. -/
def BytecodeContext.verificationType (ctx : BytecodeContext) : Decoder VerificationType := do
  let tag ← Decoder.word (α := UInt8)
  match tag with
  | 0 => return .top
  | 1 => return .integer
  | 2 => return .float
  | 3 => return .double
  | 4 => return .long
  | 5 => return .null
  | 6 => return .uninitializedThis
  | 7 =>
    let name ← ctx.typeOperand
    return .object name
  | 8 =>
    let site ← ctx.targetAt
    return .uninitialized site
  | tag => Decoder.malformed (.verificationTag tag)

/-- The allocation site a type refers to. -/
def VerificationType.site? : VerificationType → Option Label
  | .uninitialized site => some site
  | _ => none

/-! ### Changes from frame to frame -/

/-- A frame in terms of the one before it. -/
inductive FrameChange where
  /-- The same locals, nothing on the stack. -/
  | same
  /-- The same locals, one entry on the stack. -/
  | item (entry : VerificationType)
  /-- Fewer locals by some at the end, nothing on the stack. -/
  | chop (count : Nat)
  /-- More locals at the end, nothing on the stack. -/
  | append (locals : List VerificationType)
  /-- Anything. -/
  | full (locals stack : List VerificationType)
deriving DecidableEq, Inhabited, Repr

namespace FrameChange

/-- The types that a change names, in the order in which it names them. -/
def types : FrameChange → List VerificationType
  | .same | .chop _ => []
  | .item entry => [entry]
  | .append locals => locals
  | .full locals stack => locals ++ stack

/-- The frame after a change; only locals that are there can be taken away. -/
def next? (frame : Frame) : FrameChange → Option Frame
  | .same => some { frame with stack := [] }
  | .item entry => some { frame with stack := [entry] }
  | .chop count =>
    if count ≤ frame.locals.length then
      some ⟨frame.locals.take (frame.locals.length - count), []⟩
    else none
  | .append locals => some ⟨frame.locals ++ locals, []⟩
  | .full locals stack => some ⟨locals, stack⟩

/-- A change with the distance from the frame before, in the form that starts with a given byte. -/
def decodeBody (ctx : BytecodeContext) (kind : UInt8) : Decoder (Nat × FrameChange) := do
  if kind ≤ 63 then return (kind.toNat, .same)
  else if kind ≤ 127 then
    let entry ← ctx.verificationType
    return (kind.toNat - 64, .item entry)
  else if kind < 247 then Decoder.malformed (.frameKind kind)
  else
    let delta ← Decoder.word (α := UInt16)
    if kind == 247 then
      let entry ← ctx.verificationType
      return (delta.toNat, .item entry)
    else if kind ≤ 250 then return (delta.toNat, .chop (251 - kind.toNat))
    else if kind == 251 then return (delta.toNat, .same)
    else if kind ≤ 254 then
      let locals ← Decoder.times (kind.toNat - 251) ctx.verificationType
      return (delta.toNat, .append locals)
    else
      let locals ← Decoder.table ctx.verificationType
      let stack ← Decoder.table ctx.verificationType
      return (delta.toNat, .full locals stack)

/-- The next change. -/
def decode (ctx : BytecodeContext) : Decoder (Nat × FrameChange) := do
  let kind ← Decoder.word (α := UInt8)
  decodeBody ctx kind

end FrameChange

/-! ### Whole tables -/

/-- The part of a stack map table that was read. -/
structure StackMap where
  /-- The frame that the next change refers to. -/
  current : Frame
  /-- The offset of the last frame. -/
  previous : Option Nat
  /-- The frames with their offsets, last first. -/
  frames : List (Nat × Frame)
  /-- The offsets that were mentioned, last first. -/
  mentioned : List Nat
deriving Inhabited

namespace StackMap

/-- Nothing read, at the start of a body. -/
def start (entry : Frame) : StackMap := ⟨entry, none, [], []⟩

/-- Where the next frame is: the first at its distance from the start, every other one behind
the frame before it. -/
def offset (m : StackMap) (delta : Nat) : Nat :=
  match m.previous with
  | none => delta
  | some previous => previous + delta + 1

/-- Add the frame that a change leads to. -/
def extend (m : StackMap) (length delta : Nat) (change : FrameChange) : Except Failure StackMap :=
  match change.next? m.current with
  | none => .error (.malformed .chopTooMany)
  | some frame =>
    let offset := m.offset delta
    if length ≤ offset then .error (.malformed (.frameOffset offset))
    else .ok
      { current := frame
        previous := some offset
        frames := (offset, frame) :: m.frames
        mentioned := offset ::
          ((change.types.filterMap VerificationType.site?).map Label.index).reverse
            ++ m.mentioned }

/-- Read one more frame. -/
def decodeNext (ctx : BytecodeContext) (m : StackMap) : Decoder StackMap := do
  let (delta, change) ← FrameChange.decode ctx
  Decoder.ofExcept (m.extend ctx.length delta change)

/-- The table at the front of some bytes. -/
def decode (ctx : BytecodeContext) (entry : Frame) : Decoder StackMap := do
  let count ← Decoder.word (α := UInt16)
  Decoder.iterate (decodeNext ctx) count.toNat (start entry)

end StackMap

end ClassInstrument
