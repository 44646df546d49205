import ClassInstrument.Proofs.Sequence.Refinement

/-!
# Links stay sound, limits or not

Beyond the limits of 32-bit identities and labels an arena no longer answers as a list does: an
insertion is refused, perhaps after a part of it was made.  Its links still spell a list, so all
that is read off them keeps its meaning.

* `Arena.Sound` — links that spell some list;
* `Arena.Operation.Keeps` — an operation that leaves sound links, also where it fails, with its laws
  for operations in a row;
* `Arena.keeps_serve` — every call does;
* `Arena.sound_run` — so all calls do, from no cells on.
-/

namespace ClassInstrument.Arena

open Sequence (Call Answer)

/-- Links that spell some list. -/
def Sound (a : Arena) : Prop := ∃ s, Linked a s

/-- The arena that an operation leaves, also when it fails. -/
def Operation.leaves {α : Type} (op : Operation α) (a : Arena) : Arena :=
  match op a with
  | .ok _ b => b
  | .error _ b => b

/-- An operation that leaves sound links, whatever it answers. -/
def Operation.Keeps {α : Type} (op : Operation α) : Prop := ∀ a, a.Sound → (op.leaves a).Sound

/-! ### Operations in a row -/

section Laws

variable {α β : Type} {op : Operation α} {a b : Arena}

theorem leaves_ok {value : α} (h : op a = .ok value b) : op.leaves a = b := by
  simp only [Operation.leaves, h]

theorem leaves_error {failure : Failure} (h : op a = .error failure b) : op.leaves a = b := by
  simp only [Operation.leaves, h]

theorem keeps_pure (value : α) : (pure value : Operation α).Keeps := fun _ sound => sound

theorem Operation.Keeps.bind {f : α → Operation β} (first : op.Keeps)
    (second : ∀ value, (f value).Keeps) : (op >>= f).Keeps := by
  intro a sound
  have left := first a sound
  cases done : op a with
  | ok value b =>
    rw [leaves_ok done] at left
    have same : (op >>= f).leaves a = (f value).leaves b := by
      simp only [Operation.leaves, bind_ok done]
    rw [same]
    exact second value b left
  | error failure b =>
    rw [leaves_error done] at left
    rwa [leaves_error (bind_error done)]

theorem Operation.Keeps.map (first : op.Keeps) (f : α → β) : (f <$> op).Keeps := by
  intro a sound
  have left := first a sound
  cases done : op a with
  | ok value b => rwa [leaves_ok (map_ok done), ← leaves_ok done]
  | error failure b => rwa [leaves_error (map_error done), ← leaves_error done]

theorem keeps_mapM {γ : Type} {f : γ → Operation β} (each : ∀ x, (f x).Keeps) (xs : List γ) :
    (xs.mapM f).Keeps := by
  induction xs with
  | nil => exact keeps_pure []
  | cons x xs ih =>
    rw [List.mapM_cons]
    exact (each x).bind fun _ => ih.bind fun _ => keeps_pure _

theorem keeps_forM {γ : Type} {f : γ → Operation PUnit} (each : ∀ x, (f x).Keeps) (xs : List γ) :
    (xs.forM f).Keeps := by
  induction xs with
  | nil => exact keeps_pure PUnit.unit
  | cons x xs ih => exact (each x).bind fun _ => ih

end Laws

/-! ### Single cells -/

section Cells

variable {α : Type} {op : Operation α} {a b : Arena} {s t : Sequence} {l r : List Node}

/-- An operation that ends where links spell a list. -/
theorem sound_of_ok {value : α} (done : op a = .ok value b) (links : Linked b t) :
    (op.leaves a).Sound := by
  rw [leaves_ok done]
  exact ⟨t, links⟩

/-- An operation that is refused before it changes anything. -/
theorem sound_of_refused {failure : Failure} (h : Linked a s) (refused : op a = .error failure a) :
    (op.leaves a).Sound := by
  rw [leaves_error refused]
  exact ⟨s, h⟩

theorem allocate_full {insn : Instruction} {prev next : Option Nat}
    (full : ¬ a.slots.size < UInt32.size) :
    allocate insn prev next a = .error (.misuse .arenaFull) a := by
  rw [allocate, bind_ok getThe_ok, if_neg full]
  rfl

/-- An operation on a cell that has to be live: what it does to the nodes of a list is enough. -/
theorem keeps_find {id : Nat} {f : Cell → Operation α}
    (live : ∀ a s l node r, Linked a s → s.nodes = l ++ node :: r → node.id = id →
      ((find id >>= f).leaves a).Sound) : (find id >>= f).Keeps := by
  rintro a ⟨s, h⟩
  rcases s.listed_or_stale id with ⟨l, node, r, whole, same⟩ | stale
  · exact live a s l node r h whole same
  · exact sound_of_refused h (bind_error (find_stale (h.stale id stale)))

theorem keeps_pushBack (insn : Instruction) : (pushBack insn).Keeps := by
  rintro a ⟨s, h⟩
  by_cases room : s.nextId < UInt32.size
  · obtain ⟨b, done, links⟩ := h.pushBack room insn
    exact sound_of_ok done links
  · have refused : pushBack insn a = .error (.misuse .arenaFull) a := by
      rw [pushBack, bind_ok getThe_ok]
      exact bind_error (allocate_full (h.size ▸ room))
    exact sound_of_refused h refused

theorem keeps_pushFront (insn : Instruction) : (pushFront insn).Keeps := by
  rintro a ⟨s, h⟩
  by_cases room : s.nextId < UInt32.size
  · obtain ⟨b, done, links⟩ := h.pushFront room insn
    exact sound_of_ok done links
  · have refused : pushFront insn a = .error (.misuse .arenaFull) a := by
      rw [pushFront, bind_ok getThe_ok]
      exact bind_error (allocate_full (h.size ▸ room))
    exact sound_of_refused h refused

theorem keeps_insertAfter (anchor : Nat) (insn : Instruction) :
    (insertAfter anchor insn).Keeps := by
  refine keeps_find fun a s l node r h whole same => ?_
  subst same
  by_cases room : s.nextId < UInt32.size
  · obtain ⟨b, done, links⟩ := h.insertAfter whole room insn
    exact sound_of_ok done links
  · have refused : insertAfter node.id insn a = .error (.misuse .arenaFull) a := by
      rw [insertAfter, bind_ok (find_ok (h.live l node r whole))]
      exact bind_error (allocate_full (h.size ▸ room))
    exact sound_of_refused h refused

theorem keeps_insertBefore (anchor : Nat) (insn : Instruction) :
    (insertBefore anchor insn).Keeps := by
  refine keeps_find fun a s l node r h whole same => ?_
  subst same
  by_cases room : s.nextId < UInt32.size
  · obtain ⟨b, done, links⟩ := h.insertBefore whole room insn
    exact sound_of_ok done links
  · have refused : insertBefore node.id insn a = .error (.misuse .arenaFull) a := by
      rw [insertBefore, bind_ok (find_ok (h.live l node r whole))]
      exact bind_error (allocate_full (h.size ▸ room))
    exact sound_of_refused h refused

theorem keeps_remove (id : Nat) : (remove id).Keeps := by
  refine keeps_find fun a s l node r h whole same => ?_
  subst same
  obtain ⟨b, done, links⟩ := h.remove whole
  exact sound_of_ok done links

theorem keeps_write (id : Nat) (insn : Instruction) : (write id insn).Keeps := by
  refine keeps_find fun a s l node r h whole same => ?_
  subst same
  obtain ⟨b, done, links⟩ := h.write whole insn
  exact sound_of_ok done links

theorem keeps_replace (id : Nat) (insn : Instruction) : (replace id insn).Keeps := by
  refine keeps_find fun a s l node r h whole same => ?_
  subst same
  obtain ⟨b, done, links⟩ := h.replace whole insn
  exact sound_of_ok done links

/-- The labels may start again; nothing else changes. -/
theorem keeps_newLabel : newLabel.Keeps := by
  rintro a ⟨s, h⟩
  have links : Linked { a with labels := a.labels + 1 } s.newLabel.2 :=
    ⟨by simp [Arena.counts, h.size, h.length, h.labels, Sequence.newLabel], h.first, h.last,
      h.distinct, h.live, h.stale⟩
  exact ⟨_, links⟩

end Cells

/-! ### Several instructions -/

theorem keeps_insertAllAfter (cursor : Nat) (insns : List Instruction) :
    (insertAllAfter cursor insns).Keeps := by
  induction insns generalizing cursor with
  | nil => exact keeps_pure []
  | cons insn insns ih =>
    exact (keeps_insertAfter cursor insn).bind fun id => (ih id).bind fun _ => keeps_pure _

theorem keeps_insertAllBefore (anchor : Nat) (insns : List Instruction) :
    (insertAllBefore anchor insns).Keeps :=
  keeps_mapM (keeps_insertBefore anchor) insns

theorem keeps_extend (insns : List Instruction) : (extend insns).Keeps :=
  keeps_forM (fun insn => (keeps_pushBack insn).map _) insns

/-! ### Calls -/

/-- **Every call leaves sound links**, whether it is answered or refused. -/
theorem keeps_serve (call : Call) : (serve call).Keeps := by
  cases call with
  | pushBack insn => exact (keeps_pushBack insn).map _
  | pushFront insn => exact (keeps_pushFront insn).map _
  | insertAfter anchor insn => exact (keeps_insertAfter anchor insn).map _
  | insertBefore anchor insn => exact (keeps_insertBefore anchor insn).map _
  | insertAllAfter anchor insns => exact (keeps_insertAllAfter anchor insns).map _
  | insertAllBefore anchor insns => exact (keeps_insertAllBefore anchor insns).map _
  | extend insns => exact (keeps_extend insns).map _
  | remove id => exact (keeps_remove id).map _
  | replace id insn => exact (keeps_replace id insn).map _
  | write id insn => exact (keeps_write id insn).map _
  | newLabel => exact keeps_newLabel.map _

theorem step_snd (a : Arena) (call : Call) : (a.step call).2 = (serve call).leaves a := by
  unfold step Operation.leaves
  cases serve call a <;> rfl

theorem Sound.run {a : Arena} (h : a.Sound) (calls : List Call) : (a.run calls).2.Sound := by
  induction calls generalizing a with
  | nil => exact h
  | cons call calls ih =>
    have one : (a.step call).2.Sound := by
      rw [step_snd]
      exact keeps_serve call a h
    exact ih one

/-- **The links of an arena always spell a list**, whatever calls were made on it. -/
theorem sound_run (calls : List Call) : (Arena.empty.run calls).2.Sound :=
  Sound.run ⟨.empty, Linked.empty⟩ calls

end ClassInstrument.Arena
