import ClassInstrument.Query.Search
import ClassInstrument.Rule.Relocation

/-!
# Edits

Small rewritings of classes as data, from which rules are put together.

* `Edit` — one rewriting;
* `Edit.apply` — make it, and tell whether it changed the class;
* `Edit.applyAll` — several in order; the first failure ends it.
-/

namespace ClassInstrument

/-- A small rewriting of a class. -/
inductive Edit where
  /-- Change nothing, but say that something changed. -/
  | touch
  /-- Change nothing. -/
  | nothing
  /-- Remove annotations of the class. -/
  | strip (desc : String)
  /-- Remove annotations of all methods. -/
  | stripMethods (desc : String)
  /-- Change the type of annotations of the class. -/
  | rename (desc target : String)
  /-- Add annotations to the class. -/
  | annotate (visible : Bool) (annotations : List Annotation)
  /-- Add an interface. -/
  | interface (name : String)
  /-- Throw an exception instead of returning. -/
  | throwing (type : String) (message : Option String)
  /-- Do nothing instead of certain calls. -/
  | dropCalls (query : Matcher)
  /-- Insert instructions at the start of a method; their labels are made new ones. -/
  | insertFirst (name desc : String) (labels : Nat) (insns : List Instruction)
  /-- Prepare for relocation. -/
  | relocate
  /-- Ask for the sizes of operand stack and locals. -/
  | requestSizes
  /-- Ask for stack map frames. -/
  | requestFrames
  /-- Give up. -/
  | fail (cause : Failure)

namespace Edit

/-! ### Changing bodies -/

/-- Change the instructions of a method that has a body, and tell whether anything changed. -/
def onBody (f : Sequence → Bool × Sequence) (m : Method) : Bool × Method :=
  match m.code with
  | none => (false, m)
  | some code =>
    let (changed, instructions) := f code.instructions
    (changed, { m with code := some { code with instructions } })

/-- Change methods, and tell whether anything changed. -/
def onMethods (f : Method → Bool × Method) (d : Draft) : Bool × Draft :=
  let methods := d.unit.methods.map f
  (methods.any (·.1), { d with unit := { d.unit with methods := methods.map (·.2) } })

/-- Throw an exception before each return. -/
def throwBeforeReturns (type : String) (message : Option String) (s : Sequence) : Bool × Sequence :=
  (!s.findReturns.isEmpty, s.insertBeforeEach Sequence.returns (Sequence.throwing type message))

/-- Put an instruction that does nothing in the place of each call that a query is after. -/
def dropMatches (query : Matcher) (s : Sequence) : Bool × Sequence :=
  (!(s.findMembers query).isEmpty, s.replaceEach query.accepts (.simple Opcode.nop))

/-- Insert instructions before all others, their labels counted from the first free one.  A body
without instructions stays as it is. -/
def insertAtStart (labels : Nat) (insns : List Instruction) (s : Sequence) : Bool × Sequence :=
  if s.isEmpty then (false, s)
  else
    let fresh := insns.map (·.mapLabels fun l => ⟨l.index + s.labelCount⟩)
    (true, { s.prepend fresh with labelCount := s.labelCount + labels })

/-! ### All edits -/

/-- The draft with other annotations of the class. -/
def withAnnotations (d : Draft) (annotations : Annotations) : Draft :=
  { d with unit := { d.unit with annotations } }

/-- Make an edit, and tell whether it changed the class. -/
def apply (d : Draft) : Edit → Except Failure (Bool × Draft)
  | .touch => .ok (true, d)
  | .nothing => .ok (false, d)
  | .strip desc =>
    let (changed, annotations) := d.unit.annotations.removeType desc
    .ok (changed, withAnnotations d annotations)
  | .stripMethods desc =>
    .ok (onMethods (fun m =>
      let (changed, annotations) := m.annotations.removeType desc
      (changed, { m with annotations })) d)
  | .rename desc target =>
    let (changed, annotations) := d.unit.annotations.renameType desc target
    .ok (changed, withAnnotations d annotations)
  | .annotate visible annotations =>
    .ok (true, withAnnotations d (d.unit.annotations.add visible annotations))
  | .interface name =>
    .ok (true, { d with unit := { d.unit with interfaces := d.unit.interfaces ++ [name] } })
  | .throwing type message => .ok (onMethods (onBody (throwBeforeReturns type message)) d)
  | .dropCalls query => .ok (onMethods (onBody (dropMatches query)) d)
  | .insertFirst name desc labels insns =>
    match d.unit.methodIndex? name desc with
    | none => .ok (false, d)
    | some index =>
      match d.unit.methods[index]? with
      | none => .ok (false, d)
      | some m =>
        let (changed, m) := onBody (insertAtStart labels insns) m
        .ok (changed, { d with unit := d.unit.modifyMethod index fun _ => m })
  | .relocate => .ok (Relocation.rewrite d)
  | .requestSizes => .ok (false, d.requestSizes)
  | .requestFrames => .ok (false, d.requestFrames)
  | .fail cause => .error cause

/-- Make edits in order, and tell whether any of them changed the class. -/
def applyAll (edits : List Edit) (d : Draft) : Except Failure (Bool × Draft) :=
  edits.foldlM (fun (changed, d) edit => do
    let (more, d) ← edit.apply d
    .ok (changed || more, d)) (false, d)

end Edit

end ClassInstrument
