import ClassInstrument.Proofs.ClassFile.Scan
import ClassInstrument.Proofs.ClassFile.Stability
import ClassInstrument.Rule.Relocation

/-!
# The scan agrees with the decoded class

What the header of a class file tells about the class without decoding it is what the decoded class
says: its name and its annotations, and with them whether it asks for relocation.

* `ClassFile.scan_of_decode` — **the scan succeeds wherever decoding does, with the same answers**;
* `ClassFile.scan_twofold` — a class with annotations of both kinds.
-/

namespace ClassInstrument

namespace ClassFile

/-- **Whatever is left out while decoding, the scan gives the same answers.**  There is a list of the
annotations of the class that tells of each whether it is visible: the scan gives their types in this
order, and the class has the visible and the invisible ones of them, each in this order.  So every
type is given as often as the class has annotations of it, and the marker is seen if the class has
it. -/
theorem scan_of_decode {options : ReadOptions} {bytes : Bytes} {c : ClassFile}
    (read : decode options bytes = .ok c) :
    ∃ header listed, Header.decode bytes = .ok header
      ∧ header.className = .ok c.name
      ∧ header.annotationTypes = .ok (listed.map (·.2.desc))
      ∧ c.annotations = .ofListed listed
      ∧ (listed.map (·.2.desc)).Perm
          ((c.annotations.visible ++ c.annotations.invisible).map Annotation.desc)
      ∧ Relocation.isMarked bytes = .ok (c.annotations.has Relocation.marker) := by
  obtain ⟨header, s, decoded, parts, made⟩ := ClassSkeleton.exists_of_decode read
  obtain ⟨listed, scanned, same⟩ :=
    Header.annotationTypes_listed parts (Annotations.ofAttributes_of_interpret made)
  have named : s.name = c.name := by
    obtain ⟨read, -, made⟩ := Traverse.bind_eq_ok_iff.1 made
    obtain ⟨methods, -, made⟩ := Traverse.bind_eq_ok_iff.1 made
    cases made
    rfl
  refine ⟨header, listed, decoded, named ▸ Header.className_of_decoder parts, scanned, same, ?_, ?_⟩
  · have all := (Annotations.perm_ofListed listed).symm.map Annotation.desc
    rw [List.map_map] at all
    rw [same]
    exact all
  · unfold Relocation.isMarked
    rw [decoded]
    refine Traverse.bind_eq_ok_iff.2 ⟨header, rfl, Traverse.bind_eq_ok_iff.2 ⟨_, scanned, ?_⟩⟩
    rw [same, Annotations.has_ofListed, List.contains_eq_any_beq]
    simp only [BEq.comm]

/-! ### A class with annotations of both kinds -/

/-- The header of a class file with an invisible annotation in front of the visible marker. -/
def twofoldHeader : Header where
  minor := 0
  major := 52
  pool := .ofEntries [.utf8 "A", .classRef 1, .utf8 "RuntimeVisibleAnnotations",
    .utf8 "RuntimeInvisibleAnnotations", .utf8 Relocation.marker, .utf8 "LX;"]
  body := [0, 0x21, 0, 2, 0, 0, 0, 0, 0, 0, 0, 0, 0, 2,
    0, 4, 0, 0, 0, 6, 0, 1, 0, 6, 0, 0, 0, 3, 0, 0, 0, 6, 0, 1, 0, 5, 0, 0]

/-- The class in it, its constants being in a given pool. -/
def twofold (pool : Pool) : ClassFile where
  minor := 0
  major := 52
  access := 0x21
  name := "A"
  superName := none
  interfaces := []
  fields := []
  methods := []
  annotations := ⟨[.marker Relocation.marker], [.marker "LX;"]⟩
  attributes := []
  constants := ⟨pool, .empty⟩

theorem decode_twofold : ∃ bytes pool, decode .all bytes = .ok (twofold pool) := by
  obtain ⟨bytes, encoded⟩ : ∃ bytes, twofoldHeader.encode = .ok bytes := ⟨_, rfl⟩
  have wf : twofoldHeader.pool.WellFormed :=
    Pool.WellFormed.empty.foldl_push (by decide) (by decide)
  obtain ⟨pool, -, slots, decoded⟩ := Header.decode_encode wf (by decide) (by decide) encoded
  exact ⟨bytes, pool, decode_of_header decoded slots fun _ => rfl⟩

/-- Two annotations are seen in the order of the file, which is not that of the class. -/
theorem scan_twofold : ∃ bytes header types, (∃ pool, decode .all bytes = .ok (twofold pool))
    ∧ Header.decode bytes = .ok header ∧ header.className = .ok "A"
    ∧ header.annotationTypes = .ok types ∧ types.Perm [Relocation.marker, "LX;"]
    ∧ Relocation.isMarked bytes = .ok true := by
  obtain ⟨bytes, pool, read⟩ := decode_twofold
  obtain ⟨header, listed, decoded, named, scanned, -, all, marked⟩ := scan_of_decode read
  exact ⟨bytes, header, _, ⟨pool, read⟩, decoded, named, scanned, all, marked⟩

end ClassFile

end ClassInstrument
