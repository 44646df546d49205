import ClassInstrument.Proofs.Annotation.RoundTrip
import ClassInstrument.Proofs.Bytes.Gives

/-!
# Annotations that were read

What is read fits its tags and is no deeper than is followed, so it can be written and read again.

* `ElementValue.gives_decode` — a value, and an annotation, by the levels that are followed;
* `Annotation.readable_of_decodeAll` — every annotation of a counted list.
-/

namespace ClassInstrument

open Decoder

namespace ElementValue

theorem wellTaggedAll_iff {values : List ElementValue} :
    WellTaggedAll values ↔ ∀ value ∈ values, value.WellTagged := by
  induction values with
  | nil => simp [WellTaggedAll]
  | cons value values ih => simp [WellTaggedAll, ih]

theorem wellTaggedNamed_iff {values : List (String × ElementValue)} :
    WellTaggedNamed values ↔ ∀ named ∈ values, named.2.WellTagged := by
  induction values with
  | nil => simp [WellTaggedNamed]
  | cons named values ih => simp [WellTaggedNamed, ih]

theorem depthAll_le_iff {values : List ElementValue} {levels : Nat} :
    depthAll values ≤ levels ↔ ∀ value ∈ values, value.depth ≤ levels := by
  rw [depthAll_eq]
  exact deepest_le_iff

theorem depthNamed_le_iff {values : List (String × ElementValue)} {levels : Nat} :
    depthNamed values ≤ levels ↔ ∀ named ∈ values, named.2.depth ≤ levels := by
  rw [depthNamed_eq]
  exact deepest_le_iff

/-- A number is of the kind that its tag stands for. -/
theorem gives_decodeNumber (pool : Pool) {t : UInt8} {kind : NumberKind}
    (known : numberKind? t = some kind) :
    Gives (decodeNumber pool kind) fun value => tagFits t value = true := by
  refine (Gives.any _).bind fun entry _ => ?_
  cases kind <;> cases entry <;>
    first
    | exact Gives.malformed
    | exact Gives.pure (by simp [tagFits, known])

/-- A value that was read, and an annotation, is no deeper than the levels that were followed. -/
theorem gives_decode (pool : Pool) (levels : Nat) :
    Gives (decode pool levels) (fun v => v.WellTagged ∧ v.depth ≤ levels) ∧
      Gives ( decodeAnnotation pool levels)
        (fun a => WellTaggedNamed a.values ∧ depthNamed a.values < levels) := by
  induction levels with
  | zero =>
    unfold decode decodeAnnotation
    exact ⟨Gives.malformed, Gives.malformed⟩
  | succ levels ih =>
    obtain ⟨value, annotation⟩ := ih
    constructor
    · unfold decode
      refine (Gives.any _).bind fun t _ => ?_
      split
      · next kind known =>
        exact (gives_decodeNumber pool known).bind fun value fits =>
          Gives.pure ⟨fits, Nat.le_add_left 1 levels⟩
      refine Gives.ite (fun string => ?_) fun _ => Gives.ite (fun _ => ?_) fun _ =>
        Gives.ite (fun _ => ?_) fun _ => Gives.ite (fun _ => ?_) fun _ =>
        Gives.ite (fun _ => ?_) fun _ => Gives.malformed
      · exact (Gives.any _).bind fun text _ => Gives.pure ⟨string, Nat.le_add_left 1 levels⟩
      · exact (Gives.any _).bind fun desc _ => (Gives.any _).bind fun name _ =>
          Gives.pure ⟨trivial, Nat.le_add_left 1 levels⟩
      · exact (Gives.any _).bind fun desc _ => Gives.pure ⟨trivial, Nat.le_add_left 1 levels⟩
      · exact annotation.bind fun nested ⟨tagged, deep⟩ =>
          Gives.pure ⟨tagged, Nat.succ_le_succ deep⟩
      · refine value.table.bind fun values each => Gives.pure ⟨?_, Nat.succ_le_succ ?_⟩
        · exact wellTaggedAll_iff.2 fun v member => (each v member).1
        · exact depthAll_le_iff.2 fun v member => (each v member).2
    · unfold decodeAnnotation
      refine (Gives.any _).bind fun desc _ => ?_
      have named : Gives (do
          let name ← decodeUtf8 pool
          let value ← decode pool levels
          return (name, value)) fun named => named.2.WellTagged ∧ named.2.depth ≤ levels :=
        (Gives.any _).bind fun name _ => value.bind fun v fits => Gives.pure fits
      refine named.table.bind fun values each => Gives.pure ⟨?_, Nat.lt_succ_of_le ?_⟩
      · exact wellTaggedNamed_iff.2 fun v member => (each v member).1
      · exact depthNamed_le_iff.2 fun v member => (each v member).2

end ElementValue

/-- **Every annotation that was read** can be read again. -/
theorem Annotation.readable_of_decodeAll {pool : Pool} {bytes : Bytes}
    {annotations : List Annotation} (h : decodeAll pool bytes = .ok annotations) :
    ∀ a ∈ annotations, a.Readable :=
  ((ElementValue.gives_decode pool nestingLevels).2.mono fun _ ⟨tagged, deep⟩ =>
    Annotation.Readable.mk tagged deep).table.onBytes h

end ClassInstrument
