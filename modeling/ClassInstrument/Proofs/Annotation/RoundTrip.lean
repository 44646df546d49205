import ClassInstrument.Annotation.Codec
import ClassInstrument.Proofs.Pool.Constants

/-!
# Annotations read back

Annotations that are written are read back, in all later tables, if their constants fit their
tags and they nest no deeper than is followed.  If they nest deeper they are refused.

* `ElementValue.WellTagged`, `Annotation.WellTagged` — every constant is of the type of its tag;
* `ElementValue.depth`, `Annotation.depth` — the levels that are counted while reading;
* `ElementValue.yields_encode` — what comes of a value, by the levels that are followed;
* `Annotation.yields_followed` — **what comes of a counted list**;
* `Annotation.Readable`, `Annotation.yields_encodeAll` — the annotations that are read back, and
  their round trip.
-/

namespace ClassInstrument

open Builder Decoder

namespace ElementValue

/-! ### What can be read back -/

/-- Whether a constant is of the type that a tag stands for. -/
def tagFits (t : UInt8) : Constant → Bool
  | .int _ => numberKind? t == some .integer
  | .float _ => numberKind? t == some .float
  | .long _ => numberKind? t == some .long
  | .double _ => numberKind? t == some .double
  | .string _ => t == tag 's'
  | _ => false

mutual

/-- Every constant in a value is of the type of its tag. -/
def WellTagged : ElementValue → Prop
  | .const t value => tagFits t value = true
  | .enum _ _ | .classRef _ => True
  | .nested _ values => WellTaggedNamed values
  | .array values => WellTaggedAll values

/-- The same for several values. -/
def WellTaggedAll : List ElementValue → Prop
  | [] => True
  | value :: values => value.WellTagged ∧ WellTaggedAll values

/-- The same for several named values. -/
def WellTaggedNamed : List (String × ElementValue) → Prop
  | [] => True
  | (_, value) :: values => value.WellTagged ∧ WellTaggedNamed values

end

mutual

/-- How many levels a value has, an annotation in it counting once more. -/
def depth : ElementValue → Nat
  | .const _ _ | .enum _ _ | .classRef _ => 1
  | .nested _ values => depthNamed values + 2
  | .array values => depthAll values + 1

/-- The deepest among some values. -/
def depthAll : List ElementValue → Nat
  | [] => 0
  | value :: values => max value.depth (depthAll values)

/-- The deepest among some named values. -/
def depthNamed : List (String × ElementValue) → Nat
  | [] => 0
  | (_, value) :: values => max value.depth (depthNamed values)

end

/-! ### Constants -/

theorem reads_decodeUtf8 {pool : Pool} {i : UInt16} {text : String} (h : pool.utf8 i = .ok text) :
    Reads (decodeUtf8 pool) (index i) text :=
  (Reads.word i).bind_pure (Reads.ofExcept h)

theorem reads_decodeEntry {pool : Pool} {i : UInt16} {entry : Entry}
    (h : pool.get i = .ok entry) : Reads (decodeEntry pool) (index i) entry :=
  (Reads.word i).bind_pure (Reads.ofExcept h)

/-- A value behind a tag that stands for a number. -/
theorem reads_number {pool : Pool} {levels : Nat} {t : UInt8} {kind : NumberKind} {i : UInt16}
    {value : Constant} (known : numberKind? t = some kind)
    (h : Reads (decodeNumber pool kind) (index i) value) :
    Reads (decode pool (levels + 1)) (t :: index i) (.const t value) := by
  unfold decode
  refine Reads.byte ?_
  rw [known]
  exact h.bind_pure (Reads.pure _)

/-- The index of a number, whose entry the pool of the class holds. -/
theorem yields_addNumber {entry : Entry} (usable : entry ≠ .unusable) :
    Yields (withOwnBootstrap (add entry)) fun i t => t.pool.get i = .ok entry :=
  Yields.withOwnBootstrap (P := fun i p => p.get i = .ok entry)
    ((yields_add usable).mono fun _ _ found => found.2)

/-- Whatever a constant is, adding it keeps the tables in order. -/
theorem yields_addOther (value : Constant) :
    Yields (withOwnBootstrap (addConstant value)) fun _ _ => True :=
  Yields.withOwnBootstrap (P := fun _ _ => True) (yields_addConstant value).trivial

/-- The index of a constant is read as the constant that its tag says. -/
theorem yields_addConst (t : UInt8) (value : Constant) :
    Yields (addConst t value) fun i tables => tagFits t value = true →
      ∀ levels, Reads (decode tables.pool (levels + 1)) (t :: index i) (.const t value) := by
  cases value with
  | int v =>
    refine (yields_addNumber Entry.noConfusion).mono fun i p found fits levels => ?_
    exact reads_number (eq_of_beq fits) ((reads_decodeEntry found).bind_pure (Reads.pure _))
  | float v =>
    refine (yields_addNumber Entry.noConfusion).mono fun i p found fits levels => ?_
    exact reads_number (eq_of_beq fits) ((reads_decodeEntry found).bind_pure (Reads.pure _))
  | long v =>
    refine (yields_addNumber Entry.noConfusion).mono fun i p found fits levels => ?_
    exact reads_number (eq_of_beq fits) ((reads_decodeEntry found).bind_pure (Reads.pure _))
  | double v =>
    refine (yields_addNumber Entry.noConfusion).mono fun i p found fits levels => ?_
    exact reads_number (eq_of_beq fits) ((reads_decodeEntry found).bind_pure (Reads.pure _))
  | string text =>
    refine Yields.ite (fun _ => ?_) fun bad => ?_
    · refine (yields_addUtf8 text).mono fun i p found fits levels => ?_
      obtain rfl : t = tag 's' := eq_of_beq fits
      unfold decode
      exact Reads.byte ((reads_decodeUtf8 found).bind_pure (Reads.pure _))
    · exact (yields_addOther _).mono fun i p _ fits => absurd fits bad
  | _ => exact (yields_addOther _).mono fun i p _ fits => (nomatch fits)

/-! ### Levels -/

theorem depthAll_eq (values : List ElementValue) : depthAll values = deepest depth values := by
  induction values with
  | nil => rfl
  | cons value values ih =>
    rw [depthAll, ih]
    rfl

theorem depthNamed_eq (values : List (String × ElementValue)) :
    depthNamed values = deepest (fun named => named.2.depth) values := by
  induction values with
  | nil => rfl
  | cons named values ih =>
    rw [depthNamed, ih]
    rfl

theorem depth_pos (v : ElementValue) : 0 < v.depth := by
  cases v <;> exact Nat.succ_pos _

/-- A value has a level of its own, so that none is read where no level is followed. -/
theorem replies_decode {pool : Pool} {bytes : Bytes} {v : ElementValue}
    (h : ∀ levels, Replies (decode pool (levels + 1)) bytes
      (followed .annotationTooDeep (levels + 1) v.depth v)) (levels : Nat) :
    Replies (decode pool levels) bytes (followed .annotationTooDeep levels v.depth v) := by
  cases levels with
  | zero =>
    rw [followed_of_lt v.depth_pos]
    unfold decode
    exact .malformed _ bytes
  | succ levels => exact h levels

/-- A value without others in it is read on every level that is followed. -/
theorem replies_decode_flat {pool : Pool} {bytes : Bytes} {v : ElementValue} (flat : v.depth = 1)
    (h : ∀ levels, Reads (decode pool (levels + 1)) bytes v) (levels : Nat) :
    Replies (decode pool levels) bytes (followed .annotationTooDeep levels v.depth v) := by
  refine replies_decode (fun inner => ?_) levels
  rw [flat, followed_of_le (Nat.le_add_left 1 inner)]
  exact replies_ok_iff.2 (h inner)

/-! ### Values -/

/-- A value with its name, as it stands in an annotation. -/
def decodeNamed (pool : Pool) (levels : Nat) : Decoder (String × ElementValue) := do
  let name ← decodeUtf8 pool
  let value ← decode pool levels
  return (name, value)

/-- The values of an annotation are one level further down. -/
theorem replies_annotated {pool : Pool} {i : UInt16} {desc : String} {chunks : List Bytes}
    {values : List (String × ElementValue)} (found : pool.utf8 i = .ok desc)
    (each : ∀ levels, List.Forall₂ (fun chunk named => Replies (decodeNamed pool levels) chunk
      (followed .annotationTooDeep levels named.2.depth named)) chunks values)
    (fits : values.length < 65536) (levels : Nat) :
    Replies ( decodeAnnotation pool levels)
      (index i ++ (Bytes.ofNat 2 values.length ++ chunks.flatten))
      (followed .annotationTooDeep levels (depthNamed values + 1) ⟨desc, values⟩) := by
  cases levels with
  | zero =>
    rw [followed_of_lt (Nat.succ_pos _)]
    unfold decodeAnnotation
    exact .malformed _ _
  | succ levels =>
    unfold decodeAnnotation
    refine (reads_decodeUtf8 found).replies_bind ?_
    have table := (Replies.table (each levels) fits).map fun values => (⟨desc, values⟩ : Annotation)
    rwa [mapM_followed, followed_map, ← depthNamed_eq, ← followed_succ] at table

mutual

/-- **A value is read back** if it is well tagged and no deeper than is followed, and refused if it
is well tagged and deeper. -/
theorem yields_encode (v : ElementValue) :
    Yields (encode v) fun bytes t => v.WellTagged → ∀ levels,
      Replies (decode t.pool levels) bytes (followed .annotationTooDeep levels v.depth v) := by
  cases v with
  | const tag value =>
    refine (yields_addConst tag value).bind fun i => Yields.pure fun t found fits => ?_
    exact replies_decode_flat rfl (found fits)
  | enum desc name =>
    refine (yields_addUtf8 desc).bind fun d => (yields_addUtf8 name).bind fun n => ?_
    refine Yields.pure fun t hn hd _ => replies_decode_flat rfl fun levels => ?_
    unfold decode
    exact Reads.byte ((reads_decodeUtf8 hd).bind ((reads_decodeUtf8 hn).bind_pure (Reads.pure _)))
  | classRef desc =>
    refine (yields_addUtf8 desc).bind fun d => ?_
    refine Yields.pure fun t hd _ => replies_decode_flat rfl fun levels => ?_
    unfold decode
    exact Reads.byte ((reads_decodeUtf8 hd).bind_pure (Reads.pure _))
  | nested desc values =>
    refine (yields_addUtf8 desc).bind fun d => ?_
    refine (Yields.count _ _).bind fun count => (yields_encodeNamed [] values).bind fun body => ?_
    refine Yields.pure ?_
    rintro t ⟨chunks, rfl, each⟩ ⟨fits, rfl⟩ hd tagged
    refine replies_decode fun levels => ?_
    have inside := (replies_annotated hd (each tagged) fits levels).map
      fun a => ElementValue.nested a.desc a.values
    rw [followed_map, ← followed_succ] at inside
    rw [List.append_assoc]
    unfold decode
    exact inside.byte
  | array values =>
    refine (Yields.count _ _).bind fun count => (yields_encodeItems [] values).bind fun body => ?_
    refine Yields.pure ?_
    rintro t ⟨chunks, rfl, each⟩ ⟨fits, rfl⟩ tagged
    refine replies_decode fun levels => ?_
    have inside := (Replies.table (each tagged levels) fits).map ElementValue.array
    rw [mapM_followed, followed_map, ← depthAll_eq, ← followed_succ] at inside
    unfold decode
    exact inside.byte

/-- The same for several values, each from its own chunk. -/
theorem yields_encodeItems (written : List Bytes) (values : List ElementValue) :
    Yields (encodeItems written values) fun bytes t => ∃ chunks,
      bytes = written.reverse.flatten ++ chunks.flatten
        ∧ (WellTaggedAll values → ∀ levels, List.Forall₂ (fun chunk v =>
          Replies (decode t.pool levels) chunk
            (followed .annotationTooDeep levels v.depth v)) chunks values) := by
  cases values with
  | nil => exact Yields.pure fun _ => ⟨[], by simp, fun _ _ => .nil⟩
  | cons value values =>
    refine (yields_encode value).bind fun chunk => ?_
    refine (yields_encodeItems (chunk :: written) values).mono ?_
    rintro bytes t ⟨chunks, whole, each⟩ first
    refine ⟨chunk :: chunks, by simpa using whole, fun tagged levels => ?_⟩
    exact .cons (first tagged.1 levels) (each tagged.2 levels)

/-- The same for several named values. -/
theorem yields_encodeNamed (written : List Bytes) (values : List (String × ElementValue)) :
    Yields (encodeNamed written values) fun bytes t => ∃ chunks,
      bytes = written.reverse.flatten ++ chunks.flatten
        ∧ (WellTaggedNamed values → ∀ levels, List.Forall₂ (fun chunk named =>
          Replies (decodeNamed t.pool levels) chunk
            (followed .annotationTooDeep levels named.2.depth named)) chunks values) := by
  match values with
  | [] => exact Yields.pure fun _ => ⟨[], by simp, fun _ _ => .nil⟩
  | (name, value) :: values =>
    refine (yields_addUtf8 name).bind fun n => (yields_encode value).bind fun chunk => ?_
    refine (yields_encodeNamed ((index n ++ chunk) :: written) values).mono ?_
    rintro bytes t ⟨chunks, whole, each⟩ first named
    refine ⟨(index n ++ chunk) :: chunks, by simpa using whole, fun tagged levels => ?_⟩
    refine .cons ?_ (each tagged.2 levels)
    have both := (first tagged.1 levels).map (Prod.mk name)
    rw [followed_map] at both
    exact (reads_decodeUtf8 named).replies_bind both

end

end ElementValue

namespace Annotation

open ElementValue

/-- The levels of an annotation, its own one included. -/
def depth (a : Annotation) : Nat := depthNamed a.values + 1

theorem yields_encode (a : Annotation) :
    Yields (encode a) fun bytes t => WellTaggedNamed a.values → ∀ levels,
      Replies ( decodeAnnotation t.pool levels) bytes
        (followed .annotationTooDeep levels a.depth a) := by
  refine (yields_addUtf8 a.desc).bind fun d => ?_
  refine (Yields.count _ _).bind fun count => (yields_encodeNamed [] a.values).bind fun body => ?_
  refine Yields.pure ?_
  rintro t ⟨chunks, rfl, each⟩ ⟨fits, rfl⟩ hd tagged
  rw [List.append_assoc]
  exact replies_annotated hd (each tagged) fits

/-- **A counted list of annotations is read back** if none is deeper than is followed, and refused
if some is. -/
theorem yields_followed (annotations : List Annotation) :
    Yields (encodeAll annotations) fun bytes t =>
      (∀ a ∈ annotations, WellTaggedNamed a.values) → decodeAll t.pool bytes
        = followed .annotationTooDeep nestingLevels (deepest depth annotations) annotations := by
  refine (Yields.count _ _).bind fun count => ?_
  refine (Yields.concat fun a _ => yields_encode a).bind fun body => Yields.pure ?_
  rintro t ⟨chunks, rfl, each⟩ ⟨fits, rfl⟩ tagged
  rw [← mapM_followed]
  refine Replies.onBytes (Replies.table ?_ fits)
  have both := (List.forall₂_and_left _ _).2 ⟨tagged, each⟩
  exact (both.imp fun _ _ row => row.2 row.1 nestingLevels).flip

/-- An annotation that is read back: its constants fit their tags, and it is no deeper than is
followed. -/
structure Readable (a : Annotation) : Prop where
  tagged : WellTaggedNamed a.values
  shallow : a.depth ≤ nestingLevels

/-- Annotations of which all are readable are read back. -/
theorem yields_encodeAll (annotations : List Annotation) :
    Yields (encodeAll annotations) fun bytes t => (∀ a ∈ annotations, a.Readable) →
      decodeAll t.pool bytes = .ok annotations := by
  refine (yields_followed annotations).mono fun bytes t read readable => ?_
  rw [read fun a member => (readable a member).tagged]
  exact followed_of_le (deepest_le_iff.2 fun a member => (readable a member).shallow) annotations

end Annotation

end ClassInstrument
