import ClassInstrument.Pool.Basic
import ClassInstrument.Proofs.Pool.Entry

/-!
# The invariant of constant pools

A pool is well-formed if its slots are an unusable one followed by usable entries, each with the
slot behind it that it needs, if there are at most 65535 slots, and if the index table holds the
first slot of every entry.  Adding keeps this, decoding establishes it, and a pool that can be
written is read back with the same slots.

* `Entry.occupied` — the slots that an entry fills;
* `Pool.WellFormed` — the invariant;
* `Pool.add_spec` — adding only appends, and the index it gives holds the entry;
* `Pool.wellFormed_of_decode` — what is read is well-formed;
* `Pool.reads_encode` — the round trip.
-/

namespace ClassInstrument

open Decoder Traverse

/-- The slots that an entry fills: itself, and the one behind it if it takes two. -/
def Entry.occupied (entry : Entry) : List Entry :=
  if entry.isWide then [entry, .unusable] else [entry]

theorem Entry.length_occupied (entry : Entry) : entry.occupied.length = entry.width := by
  unfold occupied width
  split <;> rfl

theorem Entry.width_pos (entry : Entry) : 0 < entry.width := by
  unfold width
  split <;> omega

namespace Pool

/-- The invariant of a pool. -/
structure WellFormed (p : Pool) : Prop where
  /-- Usable entries behind an unusable slot. -/
  layout : ∃ entries : List Entry, (∀ entry ∈ entries, entry ≠ .unusable)
    ∧ p.slots.toList = .unusable :: entries.flatMap Entry.occupied
  size_le : p.size ≤ 65535
  /-- The table holds the first slot of every usable entry, and nothing else. -/
  lookup_eq : ∀ entry, (p.lookup[entry]?).map UInt16.toNat
    = if entry = .unusable then none else p.slots.toList.idxOf? entry

/-! ### Appending -/

theorem toList_push (p : Pool) (entry : Entry) :
    (p.push entry).slots.toList = p.slots.toList ++ entry.occupied := by
  unfold push Entry.occupied
  simp only
  split <;> simp

theorem idxOf?_append (entry : Entry) (xs ys : List Entry) :
    (xs ++ ys).idxOf? entry
      = (xs.idxOf? entry).or ((ys.idxOf? entry).map (· + xs.length)) := by
  simp only [List.idxOf?, List.findIdx?_append]

theorem idxOf?_occupied_self {entry : Entry} : entry.occupied.idxOf? entry = some 0 := by
  unfold Entry.occupied
  split <;> simp [List.idxOf?_cons]

theorem idxOf?_occupied_of_ne {entry other : Entry} (h : entry ≠ other)
    (usable : other ≠ .unusable) : entry.occupied.idxOf? other = none := by
  unfold Entry.occupied
  split <;> simp [h, h.symm, usable]

/-- The table after an append. -/
theorem lookup_push {p : Pool} (wf : p.WellFormed) {entry : Entry} (usable : entry ≠ .unusable)
    (fits : p.size < 65536) (other : Entry) :
    ((p.push entry).lookup[other]?).map UInt16.toNat
      = if other = .unusable then none else (p.push entry).slots.toList.idxOf? other := by
  have known := wf.lookup_eq other
  rw [toList_push]
  simp only [push, Std.HashMap.getElem?_insertIfNew]
  by_cases bad : other = .unusable
  · subst bad
    rw [if_neg (fun h => usable (by simpa using h.1)), known, if_pos rfl, if_pos rfl]
  rw [if_neg bad] at known
  rw [if_neg bad, idxOf?_append, ← known]
  by_cases same : entry = other
  · subst same
    cases present : p.lookup[entry]? with
    | some index =>
      have member : entry ∈ p.lookup := by
        rw [Std.HashMap.mem_iff_isSome_getElem?, present]
        rfl
      simp [member]
    | none =>
      have member : entry ∉ p.lookup := by
        rw [Std.HashMap.mem_iff_isSome_getElem?, present]
        simp
      rw [if_pos ⟨beq_self_eq_true entry, member⟩, Option.map_some, idxOf?_occupied_self]
      simp only [Option.map_none, Option.none_or, Option.map_some, Nat.zero_add]
      exact congrArg some (UInt16.toNat_ofNat_of_lt' fits)
  · rw [if_neg (fun h => same (by simpa using h.1)), idxOf?_occupied_of_ne same bad]
    simp

/-- Appending a usable entry that fits keeps the invariant. -/
theorem WellFormed.push {p : Pool} (wf : p.WellFormed) {entry : Entry}
    (usable : entry ≠ .unusable) (fits : p.size + entry.width ≤ 65535) :
    (p.push entry).WellFormed := by
  obtain ⟨entries, all, slots⟩ := wf.layout
  have positive := entry.width_pos
  refine ⟨⟨entries ++ [entry], ?_, ?_⟩, ?_, lookup_push wf usable (by omega)⟩
  · intro e he
    rcases List.mem_append.1 he with old | new
    · exact all e old
    · rw [List.mem_singleton.1 new]
      exact usable
  · rw [toList_push, slots, List.flatMap_append, List.flatMap_singleton, List.cons_append]
  · rw [size_push]
    exact fits

theorem WellFormed.empty : Pool.empty.WellFormed := by
  refine ⟨⟨[], by simp, rfl⟩, by decide, fun entry => ?_⟩
  have absent : Pool.empty.lookup[entry]? = none := Std.HashMap.getElem?_empty
  rw [absent]
  by_cases bad : entry = .unusable
  · rw [if_pos bad]
    rfl
  · rw [if_neg bad]
    exact (List.idxOf?_eq_none_iff.2 (by simpa [Pool.empty] using bad)).symm

/-! ### Adding -/

/-- A slot that the table knows holds the entry. -/
theorem WellFormed.getElem?_of_lookup {p : Pool} (wf : p.WellFormed) {entry : Entry}
    {index : UInt16} (h : p.lookup[entry]? = some index) :
    p.slots.toList[index.toNat]? = some entry := by
  have known := wf.lookup_eq entry
  rw [h, Option.map_some] at known
  split at known
  · cases known
  · obtain ⟨inside, found, -⟩ := List.idxOf?_eq_some_iff.1 known.symm
    rw [List.getElem?_eq_getElem inside, found]

/-- **Adding only appends.**  It keeps the invariant, and the index it gives holds the entry. -/
theorem add_spec {p : Pool} (wf : p.WellFormed) {entry : Entry} (usable : entry ≠ .unusable) :
    match add entry p with
    | .ok index p' =>
      p'.WellFormed ∧ p.slots.toList <+: p'.slots.toList
        ∧ p'.slots.toList[index.toNat]? = some entry
    | .error _ p' => p' = p := by
  unfold add
  cases known : p.lookup[entry]? with
  | some index => exact ⟨wf, List.prefix_refl _, wf.getElem?_of_lookup known⟩
  | none =>
    simp only
    split_ifs with fits
    · have positive := entry.width_pos
      have index : (UInt16.ofNat p.size).toNat = p.slots.toList.length :=
        UInt16.toNat_ofNat_of_lt' (by show p.size < 65536; omega)
      refine ⟨wf.push usable fits, ?_, ?_⟩
      · rw [toList_push]
        exact List.prefix_append ..
      · rw [toList_push, index, List.getElem?_append_right (Nat.le_refl _), Nat.sub_self]
        unfold Entry.occupied
        split <;> rfl
    · rfl

/-! ### Reading -/

/-- Entries read up to a number of slots keep the invariant, and fill exactly these slots. -/
theorem decodeUpTo_spec {count : Nat} (fits : count ≤ 65535) {p p' : Pool} {c c' : Cursor}
    (wf : p.WellFormed) (room : p.size ≤ count) (h : decodeUpTo count p c = .ok (p', c')) :
    p'.WellFormed ∧ p'.size = count := by
  fun_induction decodeUpTo count p c with
  | case1 p c more e hd => cases h
  | case2 p c more entry rest hd wide => cases h
  | case3 p c more entry rest hd narrow ih =>
    have usable := Entry.decode_ne_unusable hd
    have next : p.size + entry.width ≤ count := by
      unfold Entry.width
      simp only [Bool.and_eq_true, decide_eq_true_eq, not_and, Nat.not_le] at narrow
      split
      · next w => exact narrow w
      · omega
    exact ih (wf.push usable (by omega)) (by rw [size_push]; exact next) h
  | case4 p c full =>
    cases h
    exact ⟨wf, by omega⟩

/-- **What is read is well-formed.** -/
theorem wellFormed_of_decode {c c' : Cursor} {p : Pool} (h : decode c = .ok (p, c')) :
    p.WellFormed := by
  obtain ⟨count, rest, -, h⟩ := Decoder.bind_eq_ok_iff.1 h
  by_cases zero : (count == 0) = true
  · rw [if_pos zero] at h
    cases h
  · rw [if_neg zero] at h
    have positive : 0 < count.toNat := by
      rw [Nat.pos_iff_ne_zero]
      intro z
      exact zero (by rw [beq_iff_eq, ← UInt16.toNat_inj]; exact z)
    have bound : count.toNat ≤ 65535 := by
      have := count.toNat_lt
      omega
    exact (decodeUpTo_spec bound WellFormed.empty positive h).1

/-! ### The round trip -/

/-- A pool of some entries. -/
def ofEntries (entries : List Entry) : Pool := entries.foldl push empty

theorem toList_foldl_push (entries : List Entry) (p : Pool) :
    (entries.foldl push p).slots.toList = p.slots.toList ++ entries.flatMap Entry.occupied := by
  induction entries generalizing p with
  | nil => simp
  | cons entry entries ih => simp [ih, toList_push]

theorem WellFormed.foldl_push {p : Pool} (wf : p.WellFormed) {entries : List Entry}
    (usable : ∀ entry ∈ entries, entry ≠ .unusable)
    (fits : p.size + (entries.flatMap Entry.occupied).length ≤ 65535) :
    (entries.foldl Pool.push p).WellFormed := by
  induction entries generalizing p with
  | nil => exact wf
  | cons entry entries ih =>
    rw [List.flatMap_cons, List.length_append, Entry.length_occupied] at fits
    refine ih (wf.push (usable entry List.mem_cons_self) (by omega))
      (fun e he => usable e (List.mem_cons_of_mem _ he)) ?_
    rw [size_push]
    omega

/-- Slots that cannot be referred to leave no trace in the bytes. -/
theorem encode_occupied {entries : List Entry} {chunks : List Bytes}
    (h : (entries.flatMap Entry.occupied).mapM Entry.encode = .ok chunks) :
    ∃ bodies, List.Forall₂ (fun entry body => entry.encode = .ok body) entries bodies
      ∧ chunks.flatten = bodies.flatten := by
  induction entries generalizing chunks with
  | nil =>
    cases h
    exact ⟨[], .nil, rfl⟩
  | cons entry entries ih =>
    rw [List.flatMap_cons, List.mapM_append] at h
    obtain ⟨first, hfirst, h⟩ := bind_eq_ok_iff.1 h
    obtain ⟨others, hothers, h⟩ := bind_eq_ok_iff.1 h
    cases h
    obtain ⟨bodies, hbodies, flat⟩ := ih hothers
    rw [mapM_eq_ok_iff] at hfirst
    unfold Entry.occupied at hfirst
    split at hfirst
    · cases hfirst with
      | cons hbody hnone =>
        cases hnone with
        | cons hnone hnil =>
          cases hnil
          cases hnone
          exact ⟨_ :: bodies, .cons hbody hbodies, by simp [flat]⟩
    · cases hfirst with
      | cons hbody hnil =>
        cases hnil
        exact ⟨_ :: bodies, .cons hbody hbodies, by simp [flat]⟩

theorem decodeUpTo_entries {entries : List Entry} {bodies : List Bytes}
    (h : List.Forall₂ (fun entry body => entry.encode = .ok body) entries bodies)
    (usable : ∀ entry ∈ entries, entry ≠ .unusable) (p : Pool) :
    Reads (decodeUpTo (p.size + (entries.flatMap Entry.occupied).length) p) bodies.flatten
      (entries.foldl push p) := by
  induction h generalizing p with
  | nil =>
    intro position rest
    rw [decodeUpTo, if_neg (by simp)]
    rfl
  | @cons entry body entries bodies hbody _ ih =>
    intro position rest
    have positive := entry.width_pos
    have width : p.size + ((entry :: entries).flatMap Entry.occupied).length
        = (p.push entry).size + (entries.flatMap Entry.occupied).length := by
      rw [List.flatMap_cons, List.length_append, Entry.length_occupied, size_push]
      omega
    have read := Entry.reads_encode (usable entry List.mem_cons_self) hbody p.size position
      (bodies.flatten ++ rest)
    have narrow : ¬(entry.isWide
        && (p.push entry).size + (entries.flatMap Entry.occupied).length ≤ p.size + 1) = true := by
      rw [size_push, Entry.width]
      simp only [Bool.and_eq_true, decide_eq_true_eq, not_and]
      intro wide
      rw [if_pos wide]
      omega
    rw [decodeUpTo, width, if_pos (by rw [size_push]; omega), List.flatten_cons, List.append_assoc,
      read]
    simp only [if_neg narrow]
    rw [ih (fun e he => usable e (List.mem_cons_of_mem _ he)) (p.push entry) _ rest,
      List.length_append, Nat.add_assoc]
    rfl

/-- **A pool that can be written is read back**, with the same slots. -/
theorem reads_encode {p : Pool} (wf : p.WellFormed) {bytes : Bytes} (h : p.encode = .ok bytes) :
    ∃ p', p'.WellFormed ∧ p'.slots = p.slots ∧ Reads decode bytes p' := by
  obtain ⟨entries, usable, slots⟩ := wf.layout
  have size : p.size = empty.size + (entries.flatMap Entry.occupied).length := by
    have := congrArg List.length slots
    simp only [Array.length_toList, List.length_cons] at this
    rw [Nat.add_comm]
    exact this
  obtain ⟨count, hcount, h⟩ := bind_eq_ok_iff.1 h
  obtain ⟨chunks, hchunks, h⟩ := bind_eq_ok_iff.1 h
  cases h
  rw [slots, List.mapM_cons] at hchunks
  obtain ⟨none, hnone, hchunks⟩ := bind_eq_ok_iff.1 hchunks
  cases hnone
  obtain ⟨chunks, hothers, hchunks⟩ := bind_eq_ok_iff.1 hchunks
  cases hchunks
  obtain ⟨bodies, hbodies, flat⟩ := encode_occupied hothers
  obtain ⟨fits, -, hcount⟩ := reads_countField hcount
  have positive : 0 < p.size := by
    rw [size]
    exact Nat.lt_of_lt_of_le (by decide) (Nat.le_add_right ..)
  have back : (UInt16.ofNat p.size).toNat = p.size := UInt16.toNat_ofNat_of_lt' fits
  refine ⟨ofEntries entries, WellFormed.empty.foldl_push usable (size ▸ wf.size_le), ?_, ?_⟩
  · apply Array.toList_inj.1
    rw [ofEntries, toList_foldl_push, slots]
    rfl
  · refine hcount.bind ?_
    have nonzero : ¬(UInt16.ofNat p.size == 0) = true := by
      rw [beq_iff_eq, ← UInt16.toNat_inj, back]
      exact Nat.ne_of_gt positive
    rw [if_neg nonzero, back, List.flatten_cons, List.nil_append, flat, size]
    exact decodeUpTo_entries hbodies usable empty

end Pool

end ClassInstrument
