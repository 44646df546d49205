import ClassInstrument.Proofs.Pool.Additions

/-!
# Adding the same again

The index of an entry is that of its first slot, and that stays the first one however the tables
grow.  So a computation that only adds constants gives the same result once more in all later
tables, and it adds nothing there.

* `Builder.Repeats` — the contract, with one law for each way in which builders are put together;
* `Builder.repeats_add`, `Builder.repeats_addBootstrapMethod` — **what was added is found at the
  same index**;
* `Builder.Adds.repeats` — so are constants with all that they refer to.
-/

namespace ClassInstrument

/-! ### First indices -/

/-- The first place of an element is the same in a longer list. -/
theorem idxOf?_of_grown {α : Type} [BEq α] {front whole : List α} (h : front <+: whole)
    {a : α} {i : Nat} (found : front.idxOf? a = some i) : whole.idxOf? a = some i := by
  obtain ⟨behind, rfl⟩ := h
  simp only [List.idxOf?] at found ⊢
  rw [List.findIdx?_append, found, Option.some_or]

/-- What was missing from a table is there once it is put. -/
theorem getElem?_insertIfNew_of_absent {α β : Type} [BEq α] [LawfulBEq α] [Hashable α]
    {table : Std.HashMap α β} {a : α} (absent : table[a]? = none) (b : β) :
    (table.insertIfNew a b)[a]? = some b := by
  have new : a ∉ table := by
    rw [Std.HashMap.mem_iff_isSome_getElem?, absent]
    exact Bool.false_ne_true
  rw [Std.HashMap.getElem?_insertIfNew, if_pos ⟨beq_self_eq_true a, new⟩]

/-- An entry that was added is in the table of indices. -/
theorem Pool.lookup_of_add {p p' : Pool} {entry : Entry} {index : UInt16}
    (h : Pool.add entry p = .ok index p') : p'.lookup[entry]? = some index := by
  rcases add_cases entry p with ⟨known, found, run⟩ | ⟨absent, -, run⟩ | ⟨-, -, run⟩ <;>
    rw [run] at h <;> cases h
  · exact found
  · exact getElem?_insertIfNew_of_absent absent _

/-- A bootstrap method that was added is in the table of indices. -/
theorem BootstrapTable.lookup_of_add {b b' : BootstrapTable} {method : BootstrapMethod}
    {index : UInt16} (h : BootstrapTable.add method b = .ok index b') :
    b'.lookup[method]? = some index := by
  rcases add_cases method b with ⟨known, found, run⟩ | ⟨absent, -, run⟩ | ⟨-, -, run⟩ <;>
    rw [run] at h <;> cases h
  · exact found
  · exact getElem?_insertIfNew_of_absent absent _

namespace Builder

variable {α β : Type}

/-! ### The contract -/

/-- The computation keeps the invariant and only adds, and in all later tables it gives the same
result and adds nothing. -/
def Repeats (m : Builder α) : Prop := Yields m fun v t => t.WellFormed → m t = .ok v t

theorem Repeats.pure (v : α) : Repeats (pure v) := Yields.pure fun _ _ => rfl

theorem Repeats.throw (e : Failure) : Repeats (throw e : Builder α) := Yields.throw e

theorem Repeats.ofExcept (r : Except Failure α) : Repeats (Builder.ofExcept r) := by
  cases r with
  | error e => exact Repeats.throw e
  | ok v => exact Repeats.pure v

theorem Repeats.bind {m : Builder α} {f : α → Builder β} (first : Repeats m)
    (second : ∀ v, Repeats (f v)) : Repeats (m >>= f) :=
  Yields.bind first fun v => (second v).mono fun _ _ rest again wf =>
    (bind_of_ok (again wf)).trans (rest wf)

theorem Repeats.map {m : Builder α} (f : α → β) (h : Repeats m) : Repeats (f <$> m) :=
  h.bind fun v => Repeats.pure (f v)

theorem Repeats.ite {c : Prop} [Decidable c] {m n : Builder α} (yes : c → Repeats m)
    (no : ¬c → Repeats n) : Repeats (if c then m else n) := by
  split
  · next h => exact yes h
  · next h => exact no h

theorem Repeats.mapM {f : α → Builder β} {l : List α} (h : ∀ a ∈ l, Repeats (f a)) :
    Repeats (l.mapM f) := by
  induction l with
  | nil =>
    rw [List.mapM_nil]
    exact Repeats.pure []
  | cons a l ih =>
    rw [List.mapM_cons]
    refine (h a List.mem_cons_self).bind fun b => ?_
    exact (ih fun a ha => h a (List.mem_cons_of_mem _ ha)).bind fun bs => Repeats.pure _

theorem Repeats.concatOnto {f : α → Builder Bytes} {l : List α} (h : ∀ a ∈ l, Repeats (f a))
    (written : List Bytes) : Repeats (concatOnto f written l) := by
  induction l generalizing written with
  | nil => exact Repeats.pure _
  | cons a l ih =>
    exact (h a List.mem_cons_self).bind fun chunk =>
      ih (fun a ha => h a (List.mem_cons_of_mem _ ha)) (chunk :: written)

theorem Repeats.concat {f : α → Builder Bytes} {l : List α} (h : ∀ a ∈ l, Repeats (f a)) :
    Repeats (concat f l) := Repeats.concatOnto h []

theorem Repeats.count (what : String) (n : Nat) : Repeats (count what n) := Repeats.ofExcept _

/-! ### Adding -/

/-- **An entry that was added is found at the same index** in all later tables. -/
theorem repeats_add {entry : Entry} (usable : entry ≠ .unusable) : Repeats (add entry) := by
  rintro ⟨pool, bootstrap⟩ index t' wf h
  obtain ⟨wf', grown, -⟩ := yields_add usable _ _ _ wf h
  refine ⟨wf', grown, fun later hl later_wf => ?_⟩
  -- The first time the entry may be new; from then on it is in the table for lookups, whose indices
  -- are those of the first slots with their entries.
  have known : t'.pool.lookup[entry]? = some index := by
    dsimp only [add] at h
    split at h
    · next i p added =>
      cases h
      exact Pool.lookup_of_add added
    · cases h
  have first := wf'.pool.lookup_eq entry
  rw [known, if_neg usable, Option.map_some] at first
  rw [add_of_known later_wf usable (idxOf?_of_grown hl.1 first.symm), UInt16.ofNat_toNat]

/-- A bootstrap method that is there already is not added. -/
theorem addBootstrapMethod_of_known {t : ConstantTables} (wf : t.WellFormed)
    {method : BootstrapMethod} {i : Nat}
    (known : t.bootstrap.methods.toList.idxOf? method = some i) :
    addBootstrapMethod method t = .ok (UInt16.ofNat i) t := by
  have found := wf.bootstrap.lookup_eq method
  rw [known] at found
  obtain ⟨index, present, same⟩ := Option.map_eq_some_iff.1 found
  obtain ⟨pool, bootstrap⟩ := t
  unfold addBootstrapMethod BootstrapTable.add
  dsimp only at present
  simp only [present]
  rw [← same, UInt16.ofNat_toNat]

/-- **A bootstrap method that was added is found at the same index** in all later tables. -/
theorem repeats_addBootstrapMethod (method : BootstrapMethod) :
    Repeats (addBootstrapMethod method) := by
  rintro ⟨pool, bootstrap⟩ index t' wf h
  obtain ⟨wf', grown, -⟩ := yields_addBootstrapMethod method _ _ _ wf h
  refine ⟨wf', grown, fun later hl later_wf => ?_⟩
  have known : t'.bootstrap.lookup[method]? = some index := by
    dsimp only [addBootstrapMethod] at h
    split at h
    · next i b added =>
      cases h
      exact BootstrapTable.lookup_of_add added
    · cases h
  have first := wf'.bootstrap.lookup_eq method
  rw [known, Option.map_some] at first
  rw [addBootstrapMethod_of_known later_wf (idxOf?_of_grown hl.2 first.symm),
    UInt16.ofNat_toNat]

/-- An entry needs no bootstrap methods. -/
theorem withOwnBootstrap_add (entry : Entry) : withOwnBootstrap (add entry) = add entry := by
  funext ⟨pool, bootstrap⟩
  simp only [withOwnBootstrap, add]
  cases Pool.add entry pool <;> rfl

/-- **Whatever adds constants gives the same result** in all later tables. -/
theorem Adds.repeats {m : Builder α} (h : Adds m) : Repeats m := by
  induction h with
  | pure value => exact Repeats.pure value
  | bind first second first_ih second_ih => exact first_ih.bind second_ih
  | entry usable => exact repeats_add usable
  | method method => exact repeats_addBootstrapMethod method

end Builder

end ClassInstrument
