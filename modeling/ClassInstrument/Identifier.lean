/-!
# Identifiers of rules and caches

A rule or a cache is known by a namespace, usually the contributing module, and a name within it.

* `Identifier` — the pair; `toText` writes it as `namespace:name`.
* `Identifier.ofText?` — reads that form back: the first colon separates the parts, and neither
  part may be empty.
-/

namespace ClassInstrument

/-- A `namespace:name` pair. -/
structure Identifier where
  /-- The contributing module. -/
  namespaceName : String
  /-- The name within the namespace. -/
  name : String
deriving DecidableEq, Inhabited, Repr

namespace Identifier

/-- The written form, with a colon between the parts. -/
def toText (id : Identifier) : String := id.namespaceName ++ ":" ++ id.name

/-- Split at the first colon; both parts have to be non-empty. -/
def ofText? (text : String) : Option Identifier :=
  let namespaceName := text.toList.takeWhile (· ≠ ':')
  match text.toList.dropWhile (· ≠ ':') with
  | _ :: name =>
    if namespaceName.isEmpty || name.isEmpty then none
    else some ⟨String.ofList namespaceName, String.ofList name⟩
  | [] => none

end Identifier

end ClassInstrument
