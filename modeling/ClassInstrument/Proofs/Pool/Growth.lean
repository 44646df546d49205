import Mathlib.Order.Basic
import ClassInstrument.Pool.Builder
import ClassInstrument.Pool.Resolve
import ClassInstrument.Proofs.Pool.Bootstrap
import ClassInstrument.Proofs.Pool.WellFormed

/-!
# Computations that only add constants

Everything that is encoded adds to two tables and keeps what it gets as indices.  That is sound
because the tables only grow: an index stays good in all later tables.  `Builder.Yields` says so
of a computation, together with a fact about its result that holds in all later tables.

* `ConstantTables.WellFormed` — the invariant of both tables;
* `t ≤ t'` — what stands in `t` stands in `t'` at the same index;
* `Builder.Yields` — the contract, with one law for each way in which builders are put together;
* `Builder.Writes` — the special case of bytes that a decoder reads back, in all later tables;
* `Builder.KeepsBootstrap` — computations that add to the pool only;
* `Builder.yields_add` — **adding an entry only appends**, and the index it gives holds the entry.
-/

namespace ClassInstrument

/-- Both tables are well-formed. -/
structure ConstantTables.WellFormed (t : ConstantTables) : Prop where
  pool : t.pool.WellFormed
  bootstrap : t.bootstrap.WellFormed

/-- Later tables have what earlier ones had, at the same index. -/
instance : Preorder ConstantTables where
  le t t' := t.pool.slots.toList <+: t'.pool.slots.toList
    ∧ t.bootstrap.methods.toList <+: t'.bootstrap.methods.toList
  le_refl _ := ⟨List.prefix_refl _, List.prefix_refl _⟩
  le_trans _ _ _ first second := ⟨first.1.trans second.1, first.2.trans second.2⟩

namespace ConstantTables

/-- A slot stays what it was. -/
theorem slot_of_le {t t' : ConstantTables} (h : t ≤ t') {index : Nat} {entry : Entry}
    (found : t.pool.slots.toList[index]? = some entry) :
    t'.pool.slots.toList[index]? = some entry := by
  obtain ⟨behind, whole⟩ := h.1
  obtain ⟨inside, -⟩ := List.getElem?_eq_some_iff.1 found
  rw [← whole, List.getElem?_append_left inside, found]

/-- A bootstrap method stays where it was. -/
theorem get?_of_le {t t' : ConstantTables} (h : t ≤ t') {index : UInt16}
    {method : BootstrapMethod} (found : t.bootstrap.methods.toList[index.toNat]? = some method) :
    t'.bootstrap.get? index = some method := by
  obtain ⟨behind, whole⟩ := h.2
  obtain ⟨inside, -⟩ := List.getElem?_eq_some_iff.1 found
  rw [BootstrapTable.get?, ← Array.getElem?_toList, ← whole, List.getElem?_append_left inside,
    found]

end ConstantTables

namespace Pool

/-- A usable entry is found at its slot. -/
theorem get_of_slot {p : Pool} {index : UInt16} {entry : Entry} (usable : entry ≠ .unusable)
    (found : p.slots.toList[index.toNat]? = some entry) : p.get index = .ok entry := by
  rw [Array.getElem?_toList] at found
  unfold get
  rw [found]
  cases entry with
  | unusable => exact absurd rfl usable
  | _ => rfl

/-- The first slot holds nothing that can be referred to. -/
theorem WellFormed.ne_zero {p : Pool} (wf : p.WellFormed) {index : UInt16} {entry : Entry}
    (usable : entry ≠ .unusable) (found : p.slots.toList[index.toNat]? = some entry) :
    index ≠ 0 := by
  rintro rfl
  obtain ⟨entries, -, slots⟩ := wf.layout
  rw [slots] at found
  exact usable (Option.some.inj found).symm

end Pool

namespace Builder

open ConstantTables

variable {α β : Type}

theorem bind_eq_ok_iff {m : Builder α} {f : α → Builder β} {t t' : ConstantTables} {w : β} :
    (m >>= f) t = .ok w t' ↔ ∃ v s, m t = .ok v s ∧ f v s = .ok w t' := by
  have unfolded : (m >>= f) t = EStateM.bind m f t := rfl
  rw [unfolded, EStateM.bind]
  cases m t with
  | error e s => exact ⟨fun h => (nomatch h), fun ⟨_, _, h, _⟩ => (nomatch h)⟩
  | ok v s => exact ⟨fun h => ⟨v, s, rfl, h⟩, fun ⟨_, _, h, hf⟩ => by cases h; exact hf⟩

/-- Two computations fail with the first one, or with the second one behind it. -/
theorem bind_eq_error_iff {m : Builder α} {f : α → Builder β} {t t' : ConstantTables}
    {e : Failure} : (m >>= f) t = .error e t' ↔
      m t = .error e t' ∨ ∃ v s, m t = .ok v s ∧ f v s = .error e t' := by
  have unfolded : (m >>= f) t = EStateM.bind m f t := rfl
  rw [unfolded, EStateM.bind]
  cases m t with
  | error e' s =>
    constructor
    · intro h
      cases h
      exact .inl rfl
    · rintro (h | ⟨_, _, h, -⟩) <;> cases h
      rfl
  | ok v s =>
    refine ⟨fun h => .inr ⟨v, s, rfl, h⟩, ?_⟩
    rintro (h | ⟨_, _, h, failed⟩)
    · cases h
    · cases h
      exact failed

/-! ### The contract -/

/-- The computation keeps the invariant and only adds, and its result has a property in all later
tables. -/
def Yields (m : Builder α) (P : α → ConstantTables → Prop) : Prop :=
  ∀ t v t', t.WellFormed → m t = .ok v t' →
    t'.WellFormed ∧ t ≤ t' ∧ ∀ later, t' ≤ later → P v later

/-- The bytes that a computation gives are read back as a value, in all later tables. -/
def Writes (m : Builder Bytes) (d : ConstantTables → Decoder α) (value : α) : Prop :=
  Yields m fun bytes t => (d t).Reads bytes value

theorem Yields.pure {P : α → ConstantTables → Prop} {v : α} (h : ∀ t, P v t) :
    Yields (pure v) P := by
  intro t w t' wf hv
  cases hv
  exact ⟨wf, le_refl t, fun later _ => h later⟩

/-- A weaker property. -/
theorem Yields.mono {m : Builder α} {P Q : α → ConstantTables → Prop} (h : Yields m P)
    (weaker : ∀ v t, P v t → Q v t) : Yields m Q := by
  intro t v t' wf hv
  obtain ⟨wf', grown, post⟩ := h t v t' wf hv
  exact ⟨wf', grown, fun later hl => weaker v later (post later hl)⟩

/-- What is known of the first result is known of the second one, because tables only grow. -/
theorem Yields.bind {m : Builder α} {f : α → Builder β} {P : α → ConstantTables → Prop}
    {Q : β → ConstantTables → Prop} (first : Yields m P)
    (second : ∀ v, Yields (f v) fun w t => P v t → Q w t) : Yields (m >>= f) Q := by
  intro t w t' wf h
  obtain ⟨v, s, hv, hw⟩ := bind_eq_ok_iff.1 h
  obtain ⟨wfs, grown, post⟩ := first t v s wf hv
  obtain ⟨wf', grown', post'⟩ := second v s w t' wfs hw
  exact ⟨wf', grown.trans grown', fun later hl => post' later hl (post later (grown'.trans hl))⟩

theorem Yields.map {m : Builder α} {f : α → β} {P : β → ConstantTables → Prop}
    (h : Yields m fun v t => P (f v) t) : Yields (f <$> m) P :=
  h.bind fun _ => Yields.pure fun _ hv => hv

/-- Use of a result that adds nothing. -/
theorem Yields.ofExcept (r : Except Failure α) :
    Yields (ofExcept r) fun v _ => r = .ok v := by
  cases r with
  | error e => exact fun t v t' wf h => (nomatch h)
  | ok w => exact Yields.pure fun _ => rfl

theorem Yields.throw (e : Failure) {P : α → ConstantTables → Prop} :
    Yields (throw e : Builder α) P := fun _ _ _ _ h => (nomatch h)

/-- A property that nothing is asked of. -/
theorem Yields.trivial {m : Builder α} {P : α → ConstantTables → Prop} (h : Yields m P) :
    Yields m fun _ _ => True := h.mono fun _ _ _ => True.intro

theorem Yields.ite {c : Prop} [Decidable c] {m n : Builder α} {P : α → ConstantTables → Prop}
    (yes : c → Yields m P) (no : ¬c → Yields n P) : Yields (if c then m else n) P := by
  split
  · next h => exact yes h
  · next h => exact no h

/-! ### The same computation over and over -/

/-- A computation for every element. -/
theorem Yields.mapM {f : α → Builder β} {P : α → β → ConstantTables → Prop} {l : List α}
    (h : ∀ a ∈ l, Yields (f a) (P a)) :
    Yields (l.mapM f) fun r t => List.Forall₂ (fun a b => P a b t) l r := by
  induction l with
  | nil =>
    rw [List.mapM_nil]
    exact Yields.pure fun _ => .nil
  | cons a l ih =>
    rw [List.mapM_cons]
    refine (h a List.mem_cons_self).bind fun b => ?_
    refine (ih fun a ha => h a (List.mem_cons_of_mem _ ha)).bind fun bs => ?_
    exact Yields.pure fun _ rest first => .cons first rest

theorem yields_concatOnto {f : α → Builder Bytes} {P : α → Bytes → ConstantTables → Prop}
    {l : List α} (h : ∀ a ∈ l, Yields (f a) (P a)) (written : List Bytes) :
    Yields (concatOnto f written l) fun bytes t => ∃ chunks,
      bytes = written.reverse.flatten ++ chunks.flatten
        ∧ List.Forall₂ (fun a chunk => P a chunk t) l chunks := by
  induction l generalizing written with
  | nil => exact Yields.pure fun _ => ⟨[], by simp, .nil⟩
  | cons a l ih =>
    refine (h a List.mem_cons_self).bind fun chunk => ?_
    refine (ih (fun a ha => h a (List.mem_cons_of_mem _ ha)) (chunk :: written)).mono ?_
    rintro bytes t ⟨chunks, whole, each⟩ first
    exact ⟨chunk :: chunks, by simpa using whole, .cons first each⟩

/-- Chunks one behind the other. -/
theorem Yields.concat {f : α → Builder Bytes} {P : α → Bytes → ConstantTables → Prop}
    {l : List α} (h : ∀ a ∈ l, Yields (f a) (P a)) :
    Yields (concat f l) fun bytes t => ∃ chunks, bytes = chunks.flatten
      ∧ List.Forall₂ (fun a chunk => P a chunk t) l chunks :=
  (yields_concatOnto h []).mono fun _ _ ⟨chunks, whole, each⟩ => ⟨chunks, whole, each⟩

/-- The length of a table, which fits two bytes. -/
theorem Yields.count (what : String) (n : Nat) :
    Yields (count what n) fun bytes _ => n < 65536 ∧ bytes = Bytes.ofNat 2 n :=
  (Yields.ofExcept _).mono fun _ _ h =>
    have ⟨fits, same, _⟩ := reads_countField h
    ⟨fits, same⟩

/-! ### Adding -/

/-- **Adding an entry only appends**, and the index it gives holds the entry. -/
theorem yields_add {entry : Entry} (usable : entry ≠ .unusable) :
    Yields (add entry) fun index t => index ≠ 0 ∧ t.pool.get index = .ok entry := by
  rintro ⟨pool, bootstrap⟩ index t' wf h
  have spec := Pool.add_spec wf.pool usable
  dsimp only [add] at h spec
  split at h
  · next i p added =>
    cases h
    simp only [added] at spec
    obtain ⟨wfp, grown, found⟩ := spec
    refine ⟨⟨wfp, wf.bootstrap⟩, ⟨grown, List.prefix_refl _⟩, fun later hl => ?_⟩
    exact ⟨wfp.ne_zero usable found, Pool.get_of_slot usable (slot_of_le hl found)⟩
  · cases h

/-- Adding a bootstrap method only appends, and the index it gives holds the method. -/
theorem yields_addBootstrapMethod (method : BootstrapMethod) :
    Yields (addBootstrapMethod method)
      fun index t => t.bootstrap.get? index = some method := by
  rintro ⟨pool, bootstrap⟩ index t' wf h
  have spec := BootstrapTable.add_spec wf.bootstrap method
  dsimp only [addBootstrapMethod] at h spec
  split at h
  · next i b added =>
    cases h
    simp only [added] at spec
    obtain ⟨wfb, grown, found⟩ := spec
    exact ⟨⟨wf.pool, wfb⟩, ⟨List.prefix_refl _, grown⟩, fun _ hl => get?_of_le hl found⟩
  · cases h

/-- With a bootstrap table of its own, a computation leaves the table of the class alone. -/
theorem Yields.withOwnBootstrap {m : Builder α} {P : α → Pool → Prop}
    (h : Yields m fun v t => P v t.pool) : Yields (withOwnBootstrap m) fun v t => P v t.pool := by
  rintro ⟨pool, bootstrap⟩ v t' wf hv
  dsimp only [Builder.withOwnBootstrap] at hv
  split at hv
  · next w pool' own inner =>
    cases hv
    have own_wf : (ConstantTables.mk pool .empty).WellFormed :=
      ⟨wf.pool, BootstrapTable.WellFormed.empty⟩
    obtain ⟨wf', grown, post⟩ := h _ v _ own_wf inner
    refine ⟨⟨wf'.pool, wf.bootstrap⟩, ⟨grown.1, List.prefix_refl _⟩, fun later hl => ?_⟩
    exact post ⟨later.pool, own⟩ ⟨hl.1, List.prefix_refl _⟩
  · cases hv

/-! ### Leaving bootstrap methods alone -/

/-- The computation adds no bootstrap methods. -/
def KeepsBootstrap (m : Builder α) : Prop :=
  ∀ t v t', m t = .ok v t' → t'.bootstrap = t.bootstrap

theorem KeepsBootstrap.pure (v : α) : KeepsBootstrap (pure v) := by
  intro t w t' h
  cases h
  rfl

theorem KeepsBootstrap.throw (e : Failure) : KeepsBootstrap (throw e : Builder α) :=
  fun _ _ _ h => (nomatch h)

theorem KeepsBootstrap.bind {m : Builder α} {f : α → Builder β} (first : KeepsBootstrap m)
    (second : ∀ v, KeepsBootstrap (f v)) : KeepsBootstrap (m >>= f) := by
  intro t w t' h
  obtain ⟨v, s, hv, hw⟩ := bind_eq_ok_iff.1 h
  rw [second v s w t' hw, first t v s hv]

theorem KeepsBootstrap.ofExcept (r : Except Failure α) : KeepsBootstrap (Builder.ofExcept r) := by
  cases r with
  | error e => exact KeepsBootstrap.throw e
  | ok v => exact KeepsBootstrap.pure v

theorem KeepsBootstrap.concatOnto {f : α → Builder Bytes} (each : ∀ a, KeepsBootstrap (f a))
    (written : List Bytes) (l : List α) : KeepsBootstrap (concatOnto f written l) := by
  induction l generalizing written with
  | nil => exact KeepsBootstrap.pure _
  | cons a l ih => exact (each a).bind fun chunk => ih _

theorem KeepsBootstrap.add (entry : Entry) : KeepsBootstrap (add entry) := by
  rintro ⟨pool, bootstrap⟩ v t' h
  dsimp only [Builder.add] at h
  split at h <;> cases h
  rfl

/-! ### Entries that are there already -/

/-- A computation that is followed by another one. -/
theorem bind_of_ok {m : Builder α} {f : α → Builder β} {t s : ConstantTables} {v : α}
    (h : m t = .ok v s) : (m >>= f) t = f v s := by
  show EStateM.bind m f t = f v s
  rw [EStateM.bind, h]

/-- Adding an entry that is there already changes nothing, and gives its first index. -/
theorem add_of_known {t : ConstantTables} (wf : t.WellFormed) {entry : Entry}
    (usable : entry ≠ .unusable) {i : Nat} (known : t.pool.slots.toList.idxOf? entry = some i) :
    add entry t = .ok (UInt16.ofNat i) t := by
  have found := wf.pool.lookup_eq entry
  rw [if_neg usable, known] at found
  obtain ⟨index, present, same⟩ := Option.map_eq_some_iff.1 found
  obtain ⟨pool, bootstrap⟩ := t
  unfold add Pool.add
  dsimp only at present
  simp only [present]
  rw [← same, UInt16.ofNat_toNat]

/-- Several computations that change nothing. -/
theorem concat_of_unchanged {f : α → Builder Bytes} (chunk : α → Bytes) {t : ConstantTables}
    {l : List α} (h : ∀ a ∈ l, f a t = .ok (chunk a) t) :
    concat f l t = .ok (l.flatMap chunk) t := by
  have general : ∀ (l : List α) (written : List Bytes), (∀ a ∈ l, f a t = .ok (chunk a) t) →
      concatOnto f written l t = .ok (written.reverse.flatten ++ l.flatMap chunk) t := by
    intro l
    induction l with
    | nil =>
      intro written _
      rw [List.flatMap_nil, List.append_nil]
      rfl
    | cons a l ih =>
      intro written h
      refine (bind_of_ok (h a List.mem_cons_self)).trans ?_
      rw [ih (chunk a :: written) fun b hb => h b (List.mem_cons_of_mem _ hb)]
      simp
  exact general l [] h

end Builder

end ClassInstrument
