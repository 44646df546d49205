import ClassInstrument.Proofs.Pool.Additions

/-!
# What a pool keeps

Slots and index table of a pool, told slot by slot, for every pool that reading and adding lead to,
whether the calls succeed or not.  The invariant of the other modules says how a pool is put
together; here stands what can be seen of it.

* `Pool.Sound` — which slots cannot be referred to, and what the index table holds;
* `Pool.sound_of_wellFormed` — it follows from the invariant;
* `Pool.Answers` — what adding an entry may do: give an index that holds it, or fail because it is
  absent and has no room;
* `Pool.Reappears` — the bytes of a pool are read to their end, and give the same slots;
* `Pool.stays_sound` — **all of this holds after any calls**, and no slot ever changes.
-/

namespace ClassInstrument

/-! ### Slots that cannot be referred to -/

/-- Exactly the slots behind wide entries cannot be referred to. -/
theorem Entry.unusable_behind {entries : List Entry} (usable : ∀ entry ∈ entries, entry ≠ .unusable)
    (i : Nat) : (entries.flatMap occupied)[i]? = some .unusable
      ↔ ∃ j entry, i = j + 1 ∧ (entries.flatMap occupied)[j]? = some entry
        ∧ entry.isWide = true := by
  induction entries generalizing i with
  | nil => simp
  | cons first entries ih =>
    have here := usable first List.mem_cons_self
    have behind := ih fun entry member => usable entry (List.mem_cons_of_mem _ member)
    rw [List.flatMap_cons]
    cases wide : first.isWide with
    | false =>
      rw [occupied, if_neg (by rw [wide]; exact Bool.false_ne_true)]
      match i with
      | 0 => simp [here]
      | 1 =>
        have none := behind 0
        simp only [Nat.right_eq_add, Nat.add_eq_zero_iff] at none
        simp_all
      | i + 2 =>
        have next := behind (i + 1)
        simp_all
    | true =>
      rw [occupied, if_pos wide]
      match i with
      | 0 => simp [here]
      | 1 => simp [wide]
      | 2 =>
        have none := behind 0
        simp_all [isWide]
      | i + 3 =>
        have next := behind (i + 1)
        simp_all

namespace Pool

/-! ### Slots and index table -/

/-- What can be seen of a pool. -/
structure Sound (p : Pool) : Prop where
  /-- The first slot and exactly the slots behind wide entries cannot be referred to. -/
  unusable_iff : ∀ i, p.slots.toList[i]? = some .unusable ↔ i = 0 ∨ ∃ j entry, i = j + 1
    ∧ p.slots.toList[j]? = some entry ∧ entry.isWide = true
  size_le : p.size ≤ 65535
  /-- The table holds the smallest index of an entry that can be referred to, and nothing else. -/
  lookup_iff : ∀ (entry : Entry) (index : UInt16), p.lookup[entry]? = some index
    ↔ entry ≠ .unusable ∧ p.slots.toList[index.toNat]? = some entry
      ∧ ∀ k < index.toNat, p.slots.toList[k]? ≠ some entry
  /-- No entry is missing from the table. -/
  known : ∀ entry ∈ p.slots.toList, entry ≠ .unusable →
    ∃ index : UInt16, p.lookup[entry]? = some index

theorem WellFormed.unusable_iff {p : Pool} (wf : p.WellFormed) (i : Nat) :
    p.slots.toList[i]? = some .unusable ↔ i = 0 ∨ ∃ j entry, i = j + 1
      ∧ p.slots.toList[j]? = some entry ∧ entry.isWide = true := by
  obtain ⟨entries, usable, slots⟩ := wf.layout
  have behind := Entry.unusable_behind usable
  rw [slots]
  cases i with
  | zero => simp
  | succ i =>
    rw [List.getElem?_cons_succ, behind]
    constructor
    · rintro ⟨j, entry, rfl, here, wide⟩
      exact .inr ⟨j + 1, entry, rfl, here, wide⟩
    · rintro (zero | ⟨j, entry, next, here, wide⟩)
      · cases zero
      · cases j with
        | zero =>
          cases here
          cases wide
        | succ j => exact ⟨j, entry, by omega, here, wide⟩

/-- The first slot of an entry is the smallest one that holds it. -/
theorem idxOf?_slots_iff {slots : List Entry} {entry : Entry} {i : Nat} :
    slots.idxOf? entry = some i
      ↔ slots[i]? = some entry ∧ ∀ k < i, slots[k]? ≠ some entry := by
  rw [List.idxOf?_eq_some_iff]
  constructor
  · rintro ⟨inside, found, first⟩
    refine ⟨by rw [List.getElem?_eq_getElem inside, found], fun k less same => ?_⟩
    obtain ⟨_, here⟩ := List.getElem?_eq_some_iff.1 same
    exact first k less here
  · rintro ⟨found, first⟩
    obtain ⟨inside, here⟩ := List.getElem?_eq_some_iff.1 found
    refine ⟨inside, here, fun k less same => first k less ?_⟩
    rw [List.getElem?_eq_getElem (Nat.lt_trans less inside), same]

theorem WellFormed.lookup_iff {p : Pool} (wf : p.WellFormed) (entry : Entry) (index : UInt16) :
    p.lookup[entry]? = some index ↔ entry ≠ .unusable
      ∧ p.slots.toList[index.toNat]? = some entry
      ∧ ∀ k < index.toNat, p.slots.toList[k]? ≠ some entry := by
  have table := wf.lookup_eq entry
  rw [← idxOf?_slots_iff]
  constructor
  · intro found
    rw [found, Option.map_some] at table
    split at table
    · cases table
    · next usable => exact ⟨usable, table.symm⟩
  · rintro ⟨usable, first⟩
    rw [if_neg usable, first, Option.map_eq_some_iff] at table
    obtain ⟨other, found, same⟩ := table
    rw [found, UInt16.toNat_inj.1 same]

theorem WellFormed.known {p : Pool} (wf : p.WellFormed) {entry : Entry}
    (member : entry ∈ p.slots.toList) (usable : entry ≠ .unusable) :
    ∃ index, p.lookup[entry]? = some index := by
  have table := wf.lookup_eq entry
  rw [if_neg usable] at table
  cases first : p.slots.toList.idxOf? entry with
  | none => exact absurd member (List.idxOf?_eq_none_iff.1 first)
  | some i =>
    rw [first] at table
    obtain ⟨index, found, -⟩ := Option.map_eq_some_iff.1 table
    exact ⟨index, found⟩

/-- **The invariant, as it can be seen.** -/
theorem sound_of_wellFormed {p : Pool} (wf : p.WellFormed) : p.Sound :=
  ⟨wf.unusable_iff, wf.size_le, wf.lookup_iff, fun _ => wf.known⟩

/-! ### Adding an entry -/

/-- What adding an entry may do: it gives an index that holds the entry, nothing being changed if
that was there and else only what it needs being appended; or it fails because the entry is absent
and has no room, and changes nothing. -/
def Answers (p : Pool) (entry : Entry) : Prop :=
  match add entry p with
  | .ok index p' => p'.slots.toList[index.toNat]? = some entry
    ∧ (entry ∈ p.slots.toList ∧ p' = p
      ∨ entry ∉ p.slots.toList ∧ p'.slots.toList = p.slots.toList ++ entry.occupied)
  | .error e p' => p' = p ∧ e = .encoding .poolFull ∧ entry ∉ p.slots.toList
    ∧ 65535 < p.size + entry.width

theorem WellFormed.answers {p : Pool} (wf : p.WellFormed) {entry : Entry}
    (usable : entry ≠ .unusable) : p.Answers entry := by
  have spec := add_spec wf usable
  have absent (unknown : p.lookup[entry]? = none) : entry ∉ p.slots.toList := by
    intro member
    obtain ⟨index, found⟩ := wf.known member usable
    rw [unknown] at found
    cases found
  unfold Answers
  rcases add_cases entry p with ⟨index, found, run⟩ | ⟨unknown, fits, run⟩ | ⟨unknown, full, run⟩
  · rw [run]
    have here := wf.getElem?_of_lookup found
    exact ⟨here, .inl ⟨List.mem_of_getElem? here, rfl⟩⟩
  · rw [run] at spec ⊢
    exact ⟨spec.2.2, .inr ⟨absent unknown, toList_push p entry⟩⟩
  · rw [run]
    exact ⟨rfl, rfl, absent unknown, full⟩

/-! ### Bytes -/

/-- If a pool can be written, its bytes are read to their end, whatever follows them, and give a pool
with the same slots and the same index table. -/
def Reappears (p : Pool) : Prop :=
  ∀ bytes, p.encode = .ok bytes → ∃ p', Decoder.Reads decode bytes p' ∧ p'.slots = p.slots
    ∧ ∀ entry : Entry, p'.lookup[entry]? = p.lookup[entry]?

theorem WellFormed.reappears {p : Pool} (wf : p.WellFormed) : p.Reappears := by
  intro bytes written
  obtain ⟨p', wf', slots, read⟩ := reads_encode wf written
  refine ⟨p', read, slots, fun entry => Option.ext fun index => ?_⟩
  rw [wf'.lookup_iff, wf.lookup_iff, slots]

/-! ### All pools -/

/-- **Pools keep their representation** after any calls, whether these succeed or not: they stay
sound, adding an entry answers as it should, what can be written reappears, and no slot that a pool
ever had is changed by the calls that follow. -/
theorem stays_sound {start : ConstantTables} (initial : start.pool.Initial)
    (calls : List TableCall) :
    (start.after calls).pool.Sound
      ∧ (∀ entry, entry ≠ .unusable → (start.after calls).pool.Answers entry)
      ∧ (start.after calls).pool.Reappears
      ∧ ∀ earlier later, calls = earlier ++ later →
        (start.after earlier).pool.slots.toList <+: (start.after calls).pool.slots.toList := by
  have wf := (start.appends_after calls).pool initial.wellFormed
  refine ⟨sound_of_wellFormed wf, fun entry usable => wf.answers usable, wf.reappears, ?_⟩
  rintro earlier later rfl
  rw [ConstantTables.after_append]
  exact ((start.after earlier).appends_after later).grown.1

/-- An entry that stands twice, and one that takes two slots. -/
def repeating : List Entry := [.integer 7, .integer 7, .long 5, .utf8 "A"]

theorem initial_repeating :
    ∃ p : Pool, p.Initial ∧ p.slots.toList = .unusable :: repeating.flatMap Entry.occupied := by
  have wf : (ofEntries repeating).WellFormed := WellFormed.empty.foldl_push (by decide) (by decide)
  obtain ⟨bytes, written⟩ : ∃ bytes, (ofEntries repeating).encode = .ok bytes := ⟨_, rfl⟩
  obtain ⟨p, -, slots, read⟩ := reads_encode wf written
  refine ⟨p, .inr ⟨⟨0, bytes ++ []⟩, _, read 0 []⟩, ?_⟩
  rw [slots]
  exact toList_foldl_push repeating empty

theorem stays_sound_repeating : ∃ start : ConstantTables, start.pool.Initial
    ∧ start.pool.slots.toList = .unusable :: repeating.flatMap Entry.occupied
    ∧ (start.after
      [.both (.entry (.integer 7) Entry.noConfusion), .both (.classRef "A")]).pool.Sound := by
  obtain ⟨p, initial, slots⟩ := initial_repeating
  exact ⟨⟨p, .empty⟩, initial, slots, (stays_sound initial _).1⟩

end Pool

end ClassInstrument
