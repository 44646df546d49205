import ClassInstrument.Rule.Basic

/-!
# Relocation

A class can ask to be defined outside of the loader that requested it.  The annotation that asks
for it is taken off on the way, and methods that ask to be inlined get the annotation that the
virtual machine knows.

* `Relocation.marker` — the annotation of the class;
* `Relocation.rewrite` — taking it off.
-/

namespace ClassInstrument.Relocation

/-- The class annotation that asks for relocation. -/
def marker : String := "Lclassweave/api/ForceRelocation;"

/-- The method annotation that asks for inlining. -/
def inlineMarker : String := "Lclassweave/api/ForceInline;"

/-- The annotation by which the virtual machine knows methods to inline. -/
def machineInlineMarker : String := "Ljdk/internal/vm/annotation/ForceInline;"

/-- Classes with these prefixes never see a rule. -/
def builtinDenylist : List String := ["classweave."]

/-- Promote the inlining annotation of a method. -/
def promote (m : Method) : Bool × Method :=
  let (changed, annotations) := m.annotations.renameType inlineMarker machineInlineMarker
  (changed, { m with annotations })

/-- Take the marker off a class, and promote the inlining annotations of its methods. -/
def rewrite (d : Draft) : Bool × Draft :=
  let (unmarked, annotations) := d.unit.annotations.removeType marker
  let methods := d.unit.methods.map promote
  (unmarked || methods.any (·.1),
    { d with unit := { d.unit with annotations, methods := methods.map (·.2) } })

/-- The rule for classes that are relocated. -/
def rule {σ : Type} : Rule σ where
  name := ⟨"classweave", "relocation"⟩
  handles _ _ := pure true
  rewrite d := pure (rewrite d)

/-- Whether the bytes of a class carry the marker. -/
def isMarked (bytes : Bytes) : Except Failure Bool := do
  let header ← Header.decode bytes
  let types ← header.annotationTypes
  .ok (types.any (· == marker))

end ClassInstrument.Relocation
