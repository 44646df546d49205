import ClassInstrument.Rule.Basic

/-!
# Caches

A cache remembers what became of the bytes of a class.

* `Cache` — a named collaborator with four calls, each of which may fail.
-/

namespace ClassInstrument

/-- A store of finished classes by the bytes they were made from. -/
structure Cache (σ : Type) where
  name : Identifier
  /-- Bring in what was saved. -/
  load : Call σ Unit
  /-- Save what was added. -/
  save : Call σ Unit
  /-- What was made from some bytes, if that is known. -/
  get : Bytes → Call σ (Option Bytes)
  /-- Remember what was made from some bytes. -/
  put : Bytes → Bytes → Call σ Unit

end ClassInstrument
