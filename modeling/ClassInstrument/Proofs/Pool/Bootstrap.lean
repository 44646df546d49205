import ClassInstrument.Pool.Bootstrap
import ClassInstrument.Proofs.Pool.Entry

/-!
# The invariant of bootstrap tables

A table of bootstrap methods is well-formed if it has at most 65535 methods and its index table
holds the first index of every method.

* `BootstrapTable.WellFormed` — the invariant;
* `BootstrapTable.add_spec` — adding only appends, and the index it gives holds the method;
* `BootstrapTable.wellFormed_of_decode` — what is read is well-formed;
* `BootstrapTable.reads_encode` — a table that can be written is read back with the same methods.
-/

namespace ClassInstrument.BootstrapTable

open Decoder Traverse

/-- The invariant of a table. -/
structure WellFormed (t : BootstrapTable) : Prop where
  size_le : t.size ≤ 65535
  /-- The table of indices holds the first index of every method. -/
  lookup_eq : ∀ method, (t.lookup[method]?).map UInt16.toNat = t.methods.toList.idxOf? method

/-! ### Appending -/

theorem toList_push (t : BootstrapTable) (method : BootstrapMethod) :
    (t.push method).methods.toList = t.methods.toList ++ [method] := by
  simp [push]

theorem size_push (t : BootstrapTable) (method : BootstrapMethod) :
    (t.push method).size = t.size + 1 := by
  simp [push, size]

theorem idxOf?_append (method : BootstrapMethod) (xs ys : List BootstrapMethod) :
    (xs ++ ys).idxOf? method
      = (xs.idxOf? method).or ((ys.idxOf? method).map (· + xs.length)) := by
  simp only [List.idxOf?, List.findIdx?_append]

theorem WellFormed.empty : BootstrapTable.empty.WellFormed := by
  refine ⟨by decide, fun method => ?_⟩
  have absent : BootstrapTable.empty.lookup[method]? = none := Std.HashMap.getElem?_empty
  rw [absent]
  rfl

/-- Appending a method keeps the invariant as long as there is room. -/
theorem WellFormed.push {t : BootstrapTable} (wf : t.WellFormed) (fits : t.size < 65535)
    (method : BootstrapMethod) : (t.push method).WellFormed := by
  refine ⟨by rw [size_push]; exact fits, fun other => ?_⟩
  have known := wf.lookup_eq other
  rw [toList_push, idxOf?_append, ← known, List.idxOf?_singleton]
  simp only [BootstrapTable.push, Std.HashMap.getElem?_insertIfNew]
  by_cases same : method = other
  · subst same
    cases present : t.lookup[method]? with
    | some index =>
      have member : method ∈ t.lookup := by
        rw [Std.HashMap.mem_iff_isSome_getElem?, present]
        rfl
      simp [member]
    | none =>
      have member : method ∉ t.lookup := by
        rw [Std.HashMap.mem_iff_isSome_getElem?, present]
        simp
      rw [if_pos ⟨beq_self_eq_true method, member⟩, if_pos (beq_self_eq_true method)]
      simp only [Option.map_none, Option.none_or, Option.map_some, Nat.zero_add]
      exact congrArg some (UInt16.toNat_ofNat_of_lt' (by show t.size < 65536; omega))
  · rw [if_neg (fun h => same (by simpa using h.1)), if_neg (by simpa using same)]
    simp

theorem WellFormed.foldl_push {t : BootstrapTable} (wf : t.WellFormed)
    (methods : List BootstrapMethod) (fits : t.size + methods.length ≤ 65535) :
    (methods.foldl BootstrapTable.push t).WellFormed := by
  induction methods generalizing t with
  | nil => exact wf
  | cons method methods ih =>
    rw [List.length_cons] at fits
    refine ih (wf.push (by omega) method) ?_
    rw [size_push]
    omega

theorem toList_foldl_push (methods : List BootstrapMethod) (t : BootstrapTable) :
    (methods.foldl push t).methods.toList = t.methods.toList ++ methods := by
  induction methods generalizing t with
  | nil => simp
  | cons method methods ih => simp [ih, toList_push]

/-! ### Adding -/

/-- **Adding only appends.**  It keeps the invariant, and the index it gives holds the method. -/
theorem add_spec {t : BootstrapTable} (wf : t.WellFormed) (method : BootstrapMethod) :
    match add method t with
    | .ok index t' =>
      t'.WellFormed ∧ t.methods.toList <+: t'.methods.toList
        ∧ t'.methods.toList[index.toNat]? = some method
    | .error _ t' => t' = t := by
  unfold add
  cases known : t.lookup[method]? with
  | some index =>
    refine ⟨wf, List.prefix_refl _, ?_⟩
    have first := wf.lookup_eq method
    rw [known, Option.map_some] at first
    obtain ⟨inside, found, -⟩ := List.idxOf?_eq_some_iff.1 first.symm
    rw [List.getElem?_eq_getElem inside, found]
  | none =>
    simp only
    split_ifs with fits
    · have index : (UInt16.ofNat t.size).toNat = t.methods.toList.length :=
        UInt16.toNat_ofNat_of_lt' (by show t.size < 65536; omega)
      refine ⟨wf.push fits method, ?_, ?_⟩
      · rw [toList_push]
        exact List.prefix_append ..
      · rw [toList_push, index, List.getElem?_append_right (Nat.le_refl _), Nat.sub_self]
        rfl
    · rfl

/-! ### Reading and writing -/

/-- **What is read is well-formed.** -/
theorem wellFormed_of_decode {c c' : Cursor} {t : BootstrapTable} (h : decode c = .ok (t, c')) :
    t.WellFormed := by
  obtain ⟨methods, rest, hm, h⟩ := Decoder.bind_eq_ok_iff.1 h
  cases h
  refine WellFormed.empty.foldl_push _ ?_
  have bound : methods.length ≤ 65535 := length_le_of_table hm
  change 0 + methods.length ≤ 65535
  omega

/-- Each argument is a word. -/
theorem reads_encodeMethod {method : BootstrapMethod} {bytes : Bytes}
    (h : encodeMethod method = .ok bytes) : Reads decodeMethod bytes method := by
  obtain ⟨count, hcount, h⟩ := bind_eq_ok_iff.1 h
  cases h
  obtain ⟨fits, rfl, -⟩ := reads_countField hcount
  rw [List.append_assoc]
  refine (Reads.word method.handle).bind (Reads.bind_pure ?_ (Reads.pure _))
  rw [List.flatMap_def]
  refine Reads.table ?_ fits
  rw [List.forall₂_map_left_iff, List.forall₂_same]
  exact fun arg _ => Reads.word arg

/-- **A table that can be written is read back**, with the same methods. -/
theorem reads_encode {t : BootstrapTable} (wf : t.WellFormed) {bytes : Bytes}
    (h : t.encode = .ok bytes) :
    ∃ t', t'.WellFormed ∧ t'.methods = t.methods ∧ Reads decode bytes t' := by
  obtain ⟨count, hcount, h⟩ := bind_eq_ok_iff.1 h
  obtain ⟨chunks, hchunks, h⟩ := bind_eq_ok_iff.1 h
  cases h
  obtain ⟨fits, rfl, -⟩ := reads_countField hcount
  have size : t.size = t.methods.toList.length := rfl
  refine ⟨t.methods.toList.foldl push .empty, WellFormed.empty.foldl_push _ ?_, ?_, ?_⟩
  · change 0 + t.methods.toList.length ≤ 65535
    have := wf.size_le
    omega
  · apply Array.toList_inj.1
    rw [toList_foldl_push]
    rfl
  · rw [size] at fits ⊢
    have rows := (mapM_eq_ok_iff.1 hchunks).flip.imp fun _ _ => reads_encodeMethod
    exact (Reads.table rows fits).bind_pure (Reads.pure _)

end ClassInstrument.BootstrapTable
