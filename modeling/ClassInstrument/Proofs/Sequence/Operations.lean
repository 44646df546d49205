import ClassInstrument.Proofs.Sequence.Linked
import Mathlib.Data.List.TakeWhile

/-!
# Operations on links do what they do on lists

Each operation of the linked storage, started where the links spell a list, ends where they spell
the list that the same operation on lists gives, and with the same answer.

* `Sequence.split?_eq_some_iff`, `Sequence.split?_eq_none` — the list around a node;
* `Arena.Linked.pushBack` … `Arena.Linked.replace` — one lemma for each operation;
* `Arena.Linked.step` — a call, refused or not;
* `Arena.Linked.run` — calls one after another.
-/

namespace ClassInstrument

/-! ### The list around a node -/

namespace Sequence

variable {s : Sequence} {id : Nat}

/-- The list around a node, when identities differ. -/
theorem split?_eq_some_iff (distinct : s.ids.Nodup) (parts : Split) :
    s.split? id = some parts
      ↔ s.nodes = parts.before ++ parts.node :: parts.behind ∧ parts.node.id = id := by
  refine ⟨split?_eq_some, fun ⟨whole, same⟩ => ?_⟩
  obtain ⟨before, node, behind⟩ := parts
  simp only [ids, whole, List.map_append, List.map_cons] at distinct
  have other : ∀ n ∈ before, n.id ≠ id := by
    rintro n mem rfl
    exact (List.nodup_append.1 distinct).2.2 n.id (List.mem_map_of_mem mem) node.id (by simp)
      same.symm
  have passed : ∀ n ∈ before, decide (n.id ≠ id) = true := fun n mem => by simpa using other n mem
  have same : node.id = id := same
  simp only [split?, whole, List.dropWhile_append_of_pos passed,
    List.takeWhile_append_of_pos passed]
  simp [same]

/-- There is nothing around an identity that is not listed. -/
theorem split?_eq_none (h : id ∉ s.ids) : s.split? id = none := by
  cases found : s.split? id with
  | none => rfl
  | some parts =>
    obtain ⟨whole, rfl⟩ := split?_eq_some found
    exact absurd (by simp [ids, whole]) h

/-- The list around a listed node. -/
theorem split_of_nodes (distinct : s.ids.Nodup) {l r : List Node} {node : Node}
    (whole : s.nodes = l ++ node :: r) : s.split node.id = .ok ⟨l, node, r⟩ := by
  rw [split, (split?_eq_some_iff distinct ⟨l, node, r⟩).2 ⟨whole, rfl⟩]

/-- What is around a node that was found. -/
theorem split_eq_ok {parts : Split} (found : s.split id = .ok parts) :
    s.nodes = parts.before ++ parts.node :: parts.behind ∧ parts.node.id = id := by
  unfold split at found
  cases there : s.split? id with
  | none => simp [there] at found
  | some parts' =>
    obtain rfl : parts' = parts := by simpa [there] using found
    exact split?_eq_some there

/-- An identity that is not listed is refused. -/
theorem split_of_stale (stale : id ∉ s.ids) :
    s.split id = .error (.misuse (.staleInstruction id)) := by
  rw [split, split?_eq_none stale]

/-- An identity names a node of the list or none. -/
theorem listed_or_stale (s : Sequence) (id : Nat) :
    (∃ l node r, s.nodes = l ++ node :: r ∧ node.id = id) ∨ id ∉ s.ids := by
  by_cases listed : id ∈ s.ids
  · obtain ⟨node, mem, same⟩ := List.mem_map.1 listed
    obtain ⟨l, r, whole⟩ := List.append_of_mem mem
    exact .inl ⟨l, node, r, whole, same⟩
  · exact .inr listed

/-- An identity is found in the list, or it is not listed. -/
theorem split_or_stale (s : Sequence) (id : Nat) :
    (∃ parts, s.split id = .ok parts) ∨ id ∉ s.ids := by
  unfold split split?
  cases rest : s.nodes.dropWhile (·.id ≠ id) with
  | cons node behind => exact .inl ⟨_, rfl⟩
  | nil =>
    refine .inr fun listed => ?_
    obtain ⟨node, mem, same⟩ := List.mem_map.1 listed
    simpa [same] using List.dropWhile_eq_nil_iff.1 rest node mem

theorem number_cons (first : Nat) (insn : Instruction) (insns : List Instruction) :
    number first (insn :: insns) = ⟨first, insn⟩ :: number (first + 1) insns := by
  simp [number, List.mapIdx_cons, Nat.add_comm, Nat.add_left_comm]

section Around

variable {parts : Split}

theorem insertAllAfter_of_split (found : s.split id = .ok parts) (insns : List Instruction) :
    s.insertAllAfter id insns = .ok ((number s.nextId insns).map Node.id,
      { s with
        nodes := parts.before ++ parts.node :: number s.nextId insns ++ parts.behind
        nextId := s.nextId + insns.length }) := by
  cases insns with
  | nil => simp [insertAllAfter, number, ← (split_eq_ok found).1]
  | cons insn insns =>
    rw [insertAllAfter, if_neg (by simp), found]
    rfl

theorem insertAllBefore_of_split (found : s.split id = .ok parts) (insns : List Instruction) :
    s.insertAllBefore id insns = .ok ((number s.nextId insns).map Node.id,
      { s with
        nodes := parts.before ++ number s.nextId insns ++ parts.node :: parts.behind
        nextId := s.nextId + insns.length }) := by
  cases insns with
  | nil => simp [insertAllBefore, number, ← (split_eq_ok found).1]
  | cons insn insns =>
    rw [insertAllBefore, if_neg (by simp), found]
    rfl

theorem insertAllAfter_of_stale (stale : id ∉ s.ids) (insn : Instruction)
    (insns : List Instruction) :
    s.insertAllAfter id (insn :: insns) = .error (.misuse (.staleInstruction id)) := by
  rw [insertAllAfter, if_neg (by simp), split_of_stale stale]
  rfl

theorem insertAllBefore_of_stale (stale : id ∉ s.ids) (insn : Instruction)
    (insns : List Instruction) :
    s.insertAllBefore id (insn :: insns) = .error (.misuse (.staleInstruction id)) := by
  rw [insertAllBefore, if_neg (by simp), split_of_stale stale]
  rfl

theorem remove_of_stale (stale : id ∉ s.ids) :
    s.remove id = .error (.misuse (.staleInstruction id)) := by
  rw [remove, split_of_stale stale]
  rfl

theorem replace_of_stale (stale : id ∉ s.ids) (insn : Instruction) :
    s.replace id insn = .error (.misuse (.staleInstruction id)) := by
  rw [replace, split_of_stale stale]
  rfl

end Around

/-- The identity that a call has to find.  A call that inserts nothing has none. -/
def Call.target? : Call → Option Nat
  | .pushBack _ | .pushFront _ | .extend _ | .newLabel => none
  | .insertAfter anchor _ | .insertBefore anchor _ => some anchor
  | .insertAllAfter anchor insns | .insertAllBefore anchor insns =>
    if insns.isEmpty then none else some anchor
  | .remove id | .replace id _ | .write id _ => some id

section Served

variable {parts : Split} (found : s.split id = .ok parts)

include found

theorem serve_insertAfter (insn : Instruction) :
    s.serve (.insertAfter id insn) = .ok (.node s.nextId,
      { s with
        nodes := parts.before ++ parts.node :: number s.nextId [insn] ++ parts.behind
        nextId := s.nextId + 1 }) := by
  rw [serve, insertAfter, insertAllAfter_of_split found]
  rfl

theorem serve_insertBefore (insn : Instruction) :
    s.serve (.insertBefore id insn) = .ok (.node s.nextId,
      { s with
        nodes := parts.before ++ number s.nextId [insn] ++ parts.node :: parts.behind
        nextId := s.nextId + 1 }) := by
  rw [serve, insertBefore, insertAllBefore_of_split found]
  rfl

theorem serve_insertAllAfter (insns : List Instruction) :
    s.serve (.insertAllAfter id insns) = .ok (.nodes ((number s.nextId insns).map Node.id),
      { s with
        nodes := parts.before ++ parts.node :: number s.nextId insns ++ parts.behind
        nextId := s.nextId + insns.length }) := by
  rw [serve, insertAllAfter_of_split found]
  rfl

theorem serve_insertAllBefore (insns : List Instruction) :
    s.serve (.insertAllBefore id insns) = .ok (.nodes ((number s.nextId insns).map Node.id),
      { s with
        nodes := parts.before ++ number s.nextId insns ++ parts.node :: parts.behind
        nextId := s.nextId + insns.length }) := by
  rw [serve, insertAllBefore_of_split found]
  rfl

theorem serve_remove :
    s.serve (.remove id)
      = .ok (.insn parts.node.insn, { s with nodes := parts.before ++ parts.behind }) := by
  rw [serve, remove, found]
  rfl

theorem serve_replace (insn : Instruction) :
    s.serve (.replace id insn) = .ok (.insn parts.node.insn,
      { s with nodes := parts.before ++ ⟨id, insn⟩ :: parts.behind }) := by
  rw [serve, replace, found]
  rfl

theorem serve_write (insn : Instruction) :
    s.serve (.write id insn)
      = .ok (.nothing, { s with nodes := parts.before ++ ⟨id, insn⟩ :: parts.behind }) := by
  rw [serve, replace, found]
  rfl

end Served

/-- A call on an identity that is not listed is refused. -/
theorem step_of_stale (stale : id ∉ s.ids) {call : Call} (target : call.target? = some id) :
    s.step call = (.error (.misuse (.staleInstruction id)), s) := by
  have refused : s.serve call = .error (.misuse (.staleInstruction id)) := by
    cases call with
    | pushBack | pushFront | extend | newLabel => simp [Call.target?] at target
    | insertAllAfter anchor insns | insertAllBefore anchor insns =>
      cases insns with
      | nil => simp [Call.target?] at target
      | cons insn insns =>
        obtain rfl : anchor = id := by simpa [Call.target?] using target
        simp only [serve, insertAllAfter_of_stale stale, insertAllBefore_of_stale stale]
        rfl
    | insertAfter anchor insn | insertBefore anchor insn | remove anchor | replace anchor insn
    | write anchor insn =>
      obtain rfl : anchor = id := by simpa [Call.target?] using target
      simp only [serve, insertAfter, insertBefore, insertAllAfter_of_stale stale,
        insertAllBefore_of_stale stale, remove_of_stale stale, replace_of_stale stale]
      rfl
  simp only [step, refused]

end Sequence

namespace Arena

open Node (first? last?)
open Sequence (Call Answer)

/-! ### Single steps -/

section Steps

variable {α β : Type} {a b : Arena} {id : Nat} {insn : Instruction}

theorem bind_ok {x : Operation α} {f : α → Operation β} {value : α} (h : x a = .ok value b) :
    (x >>= f) a = f value b := by
  simp only [bind, EStateM.bind, h]

theorem bind_error {x : Operation α} {f : α → Operation β} {failure : Failure}
    (h : x a = .error failure b) : (x >>= f) a = .error failure b := by
  simp only [bind, EStateM.bind, h]

theorem map_ok {x : Operation α} {f : α → β} {value : α} (h : x a = .ok value b) :
    (f <$> x) a = .ok (f value) b := by
  simp only [Functor.map, EStateM.map, h]

theorem map_error {x : Operation α} {f : α → β} {failure : Failure} (h : x a = .error failure b) :
    (f <$> x) a = .error failure b := by
  simp only [Functor.map, EStateM.map, h]

theorem getThe_ok : (getThe Arena : Operation Arena) a = .ok a a := rfl

theorem modify_ok {f : Arena → Arena} : (modify f : Operation Unit) a = .ok () (f a) := rfl

theorem find_ok {cell : Cell} (h : a.cell? id = some cell) : find id a = .ok cell a := by
  simp only [find, Arena.cell, h]

theorem find_stale (h : a.cell? id = none) :
    find id a = .error (.misuse (.staleInstruction id)) a := by
  simp only [find, Arena.cell, h]

theorem change_ok {cell : Cell} {f : Cell → Cell} (h : a.cell? id = some cell) :
    change id f a = .ok () (a.withCell id f) := by
  rw [change, bind_ok (find_ok h)]
  simp only [withCell, h]
  rfl

theorem allocate_ok {prev next : Option Nat} (room : a.slots.size < UInt32.size) :
    allocate insn prev next a = .ok a.slots.size (a.withSlot ⟨insn, prev, next⟩) := by
  rw [allocate, bind_ok getThe_ok, if_pos room]
  rfl

theorem setNext_ok {prev next : Option Nat}
    (live : ∀ id, prev = some id → (a.cell? id).isSome) :
    setNext prev next a = .ok () (a.withNext prev next) := by
  cases prev with
  | none => rfl
  | some prev =>
    obtain ⟨cell, found⟩ := Option.isSome_iff_exists.1 (live prev rfl)
    exact change_ok found

theorem setPrev_ok {next prev : Option Nat}
    (live : ∀ id, next = some id → (a.cell? id).isSome) :
    setPrev next prev a = .ok () (a.withPrev next prev) := by
  cases next with
  | none => rfl
  | some next =>
    obtain ⟨cell, found⟩ := Option.isSome_iff_exists.1 (live next rfl)
    exact change_ok found

end Steps

/-! ### Insertions -/

section Live

variable (a : Arena) (prev next : Option Nat) (cell : Cell) (id : Nat)

theorem isSome_cell?_withNext :
    ((a.withNext prev next).cell? id).isSome = (a.cell? id).isSome := by
  rw [cell?_withNext]
  split <;> simp

theorem isSome_cell?_withPrev :
    ((a.withPrev next prev).cell? id).isSome = (a.cell? id).isSome := by
  rw [cell?_withPrev]
  split <;> simp

theorem isSome_cell?_withSlot (h : (a.cell? id).isSome) :
    ((a.withSlot cell).cell? id).isSome := by
  rw [cell?_withSlot]
  split
  · rfl
  · exact h

end Live

namespace Linked

variable {a : Arena} {s : Sequence} {l r : List Node} {insn : Instruction}

theorem live_last (h : Linked a s) (whole : s.nodes = l ++ r) {id : Nat}
    (found : last? l = some id) : (a.cell? id).isSome := by
  refine (h.isSome_cell? id).2 ?_
  rw [Sequence.ids, whole, List.map_append]
  exact List.mem_append_left _ (Node.mem_of_last? found)

theorem live_first (h : Linked a s) (whole : s.nodes = l ++ r) {id : Nat}
    (found : first? r = some id) : (a.cell? id).isSome := by
  refine (h.isSome_cell? id).2 ?_
  rw [Sequence.ids, whole, List.map_append]
  exact List.mem_append_right _ (Node.mem_of_first? found)

theorem last?_ne_first? (h : Linked a s) (whole : s.nodes = l ++ r) {id : Nat}
    (found : last? l = some id) : first? r ≠ some id := fun other =>
  h.not_mem_of_nodes whole _ (Node.mem_of_last? found) (Node.mem_of_first? other)

theorem nextId_not_live (h : Linked a s) : ¬ (a.cell? s.nextId).isSome := fun live =>
  Nat.lt_irrefl _ (h.lt_nextId ((h.isSome_cell? _).1 live))

/-- A node in a gap, with its left neighbour linked before its right one. -/
theorem linked_next (h : Linked a s) (whole : s.nodes = l ++ r) (insn : Instruction) :
    Linked (((a.withSlot ⟨insn, last? l, first? r⟩).withNext (last? l) (some s.nextId)).withPrev
        (first? r) (some s.nextId))
      { s with nodes := l ++ ⟨s.nextId, insn⟩ :: r, nextId := s.nextId + 1 } := by
  refine h.inserted whole ?_ (by simp; rfl) (by simp; rfl) fun id => ?_
  · simp only [counts_withPrev, counts_withNext]
    simp [withSlot, Arena.counts, h.size, h.length, h.labels]
  · simp only [cell?_withPrev, cell?_withNext, cell?_withSlot, h.size]
    by_cases fresh : id = s.nextId
    · subst fresh
      have left : last? l ≠ some s.nextId := fun found =>
        h.nextId_not_live (h.live_last whole found)
      have right : first? r ≠ some s.nextId := fun found =>
        h.nextId_not_live (h.live_first whole found)
      simp [left, right]
    · by_cases left : last? l = some id
      · simp [fresh, left, h.last?_ne_first? whole left]
      · simp [fresh, left]

/-- A node in a gap, with its right neighbour linked before its left one. -/
theorem linked_prev (h : Linked a s) (whole : s.nodes = l ++ r) (insn : Instruction) :
    Linked (((a.withSlot ⟨insn, last? l, first? r⟩).withPrev (first? r) (some s.nextId)).withNext
        (last? l) (some s.nextId))
      { s with nodes := l ++ ⟨s.nextId, insn⟩ :: r, nextId := s.nextId + 1 } := by
  refine (h.linked_next whole insn).congr (by simp) (by simp) (by simp) fun id => ?_
  simp only [cell?_withPrev, cell?_withNext]
  by_cases left : last? l = some id
  · simp [left, h.last?_ne_first? whole left]
  · simp [left]

/-- An instruction at the end. -/
theorem pushBack (h : Linked a s) (room : s.nextId < UInt32.size) (insn : Instruction) :
    ∃ b, Arena.pushBack insn a = .ok s.nextId b ∧ Linked b (s.pushBack insn).2 := by
  have whole : s.nodes = s.nodes ++ [] := (List.append_nil _).symm
  have links := h.linked_next whole insn
  refine ⟨_, ?_, by simpa [Sequence.pushBack, Sequence.append, Sequence.number] using links⟩
  rw [Arena.pushBack, bind_ok getThe_ok, bind_ok (allocate_ok (h.size ▸ room)), h.last, h.size,
    bind_ok (setNext_ok fun id found => isSome_cell?_withSlot _ _ _ (h.live_last whole found)),
    bind_ok modify_ok]
  rfl

/-- An instruction at the front. -/
theorem pushFront (h : Linked a s) (room : s.nextId < UInt32.size) (insn : Instruction) :
    ∃ b, Arena.pushFront insn a = .ok s.nextId b ∧ Linked b (s.pushFront insn).2 := by
  have whole : s.nodes = [] ++ s.nodes := rfl
  refine ⟨_, ?_, h.linked_prev whole insn⟩
  rw [Arena.pushFront, bind_ok getThe_ok, bind_ok (allocate_ok (h.size ▸ room)), h.first, h.size,
    bind_ok (setPrev_ok fun id found => isSome_cell?_withSlot _ _ _ (h.live_first whole found)),
    bind_ok modify_ok]
  rfl

/-- An instruction behind a node. -/
theorem insertAfter (h : Linked a s) {node : Node} (whole : s.nodes = l ++ node :: r)
    (room : s.nextId < UInt32.size) (insn : Instruction) :
    ∃ b, Arena.insertAfter node.id insn a = .ok s.nextId b
      ∧ Linked b { s with nodes := l ++ node :: ⟨s.nextId, insn⟩ :: r, nextId := s.nextId + 1 } := by
  have around : s.nodes = (l ++ [node]) ++ r := by simp [whole]
  have links := h.linked_next around insn
  simp only [Node.last?_concat, List.append_assoc, List.singleton_append] at links
  refine ⟨_, ?_, links⟩
  rw [Arena.insertAfter, bind_ok (find_ok (h.live l node r whole)),
    bind_ok (allocate_ok (h.size ▸ room)), h.size,
    bind_ok (setNext_ok fun id found => isSome_cell?_withSlot _ _ _
      (h.live_last around (by simpa using found))),
    bind_ok (setPrev_ok fun id found => by
      rw [isSome_cell?_withNext]
      exact isSome_cell?_withSlot _ _ _ (h.live_first around found))]
  rfl

/-- An instruction before a node. -/
theorem insertBefore (h : Linked a s) {node : Node} (whole : s.nodes = l ++ node :: r)
    (room : s.nextId < UInt32.size) (insn : Instruction) :
    ∃ b, Arena.insertBefore node.id insn a = .ok s.nextId b
      ∧ Linked b { s with nodes := l ++ ⟨s.nextId, insn⟩ :: node :: r, nextId := s.nextId + 1 } := by
  have links := h.linked_prev whole insn
  simp only [Node.first?_cons] at links
  refine ⟨_, ?_, links⟩
  rw [Arena.insertBefore, bind_ok (find_ok (h.live l node r whole)),
    bind_ok (allocate_ok (h.size ▸ room)), h.size,
    bind_ok (setPrev_ok fun id (found : some node.id = some id) =>
      isSome_cell?_withSlot _ _ _ (h.live_first whole found)),
    bind_ok (setNext_ok fun id found => by
      rw [isSome_cell?_withPrev]
      exact isSome_cell?_withSlot _ _ _ (h.live_last whole found))]
  rfl

/-- Instructions behind a node, each behind the one before it. -/
theorem insertAllAfter (h : Linked a s) {node : Node} (whole : s.nodes = l ++ node :: r)
    (insns : List Instruction) (room : s.nextId + insns.length ≤ UInt32.size) :
    ∃ b, Arena.insertAllAfter node.id insns a = .ok ((Sequence.number s.nextId insns).map Node.id) b
      ∧ Linked b { s with
          nodes := l ++ node :: Sequence.number s.nextId insns ++ r
          nextId := s.nextId + insns.length } := by
  -- the cursor moves on, so the nodes before it grow by one in each round
  induction insns generalizing a s l node with
  | nil => exact ⟨a, rfl, by simpa [Sequence.number, ← whole] using h⟩
  | cons insn insns ih =>
    simp only [List.length_cons] at room
    obtain ⟨b, done, links⟩ := h.insertAfter whole (by omega) insn
    obtain ⟨c, rest, links⟩ := ih links
      (show _ = (l ++ [node]) ++ ⟨s.nextId, insn⟩ :: r by simp) (by simp only; omega)
    refine ⟨c, ?_, ?_⟩
    · rw [Arena.insertAllAfter, bind_ok done, bind_ok rest, Sequence.number_cons]
      rfl
    · simpa [Sequence.number_cons, Nat.add_assoc, Nat.add_comm 1] using links

/-- Instructions before a node, each directly before it. -/
theorem insertAllBefore (h : Linked a s) {node : Node} (whole : s.nodes = l ++ node :: r)
    (insns : List Instruction) (room : s.nextId + insns.length ≤ UInt32.size) :
    ∃ b, Arena.insertAllBefore node.id insns a
        = .ok ((Sequence.number s.nextId insns).map Node.id) b
      ∧ Linked b { s with
          nodes := l ++ Sequence.number s.nextId insns ++ node :: r
          nextId := s.nextId + insns.length } := by
  induction insns generalizing a s l with
  | nil => exact ⟨a, rfl, by simpa [Sequence.number, ← whole] using h⟩
  | cons insn insns ih =>
    simp only [List.length_cons] at room
    obtain ⟨b, done, links⟩ := h.insertBefore whole (by omega) insn
    obtain ⟨c, rest, links⟩ := ih links (l := l ++ [⟨s.nextId, insn⟩])
      (by simp) (by simp only; omega)
    refine ⟨c, ?_, ?_⟩
    · rw [Arena.insertAllBefore] at rest ⊢
      rw [List.mapM_cons, bind_ok done, bind_ok rest, Sequence.number_cons]
      rfl
    · simpa [Sequence.number_cons, Nat.add_assoc, Nat.add_comm 1] using links

/-- Instructions at the end, one after another. -/
theorem extend (h : Linked a s) (insns : List Instruction)
    (room : s.nextId + insns.length ≤ UInt32.size) :
    ∃ b, Arena.extend insns a = .ok () b ∧ Linked b (s.append insns) := by
  induction insns generalizing a s with
  | nil => exact ⟨a, rfl, by simpa [Sequence.append, Sequence.number] using h⟩
  | cons insn insns ih =>
    simp only [List.length_cons] at room
    obtain ⟨b, done, links⟩ := h.pushBack (by omega) insn
    obtain ⟨c, rest, links⟩ := ih links
      (by simp only [Sequence.pushBack, Sequence.append, List.length_singleton]; omega)
    refine ⟨c, ?_, ?_⟩
    · rw [Arena.extend] at rest ⊢
      rw [List.forM, bind_ok (x := discard (Arena.pushBack insn)) (map_ok done)]
      exact rest
    · simpa [Sequence.pushBack, Sequence.append, Sequence.number_cons, Sequence.number,
        Nat.add_assoc, Nat.add_comm 1] using links

/-! ### Removal and replacement -/

/-- A node out of the list. -/
theorem remove (h : Linked a s) {node : Node} (whole : s.nodes = l ++ node :: r) :
    ∃ b, Arena.remove node.id a = .ok node.insn b ∧ Linked b { s with nodes := l ++ r } := by
  have before : s.nodes = l ++ (node :: r) := whole
  have behind : s.nodes = (l ++ [node]) ++ r := by simp [whole]
  have left : ∀ id, last? l = some id → ((a.withoutCell node.id).cell? id).isSome := by
    intro id found
    have other : id ≠ node.id := fun same => h.last?_ne_first? before (same ▸ found) rfl
    simpa [other] using h.live_last before found
  have right : ∀ id, first? r = some id → ((a.withoutCell node.id).cell? id).isSome := by
    intro id found
    have other : id ≠ node.id := fun same =>
      h.last?_ne_first? behind (Node.last?_concat l node) (same ▸ found)
    simpa [other] using h.live_first behind found
  let bridged := ((a.withoutCell node.id).withNext (last? l) (first? r)).withPrev (first? r) (last? l)
  have cells : ∀ id, bridged.cell? id = if id = node.id then none
      else if last? l = some id then (a.cell? id).map ({ · with next := first? r })
      else if first? r = some id then (a.cell? id).map ({ · with prev := last? l })
      else a.cell? id := by
    intro id
    simp only [bridged, cell?_withPrev, cell?_withNext, cell?_withoutCell]
    by_cases gone : id = node.id
    · simp [gone]
    · by_cases ahead : last? l = some id
      · have apart : first? r ≠ some id := fun found =>
          h.not_mem_of_nodes behind _ (by simp [Node.mem_of_last? ahead]) (Node.mem_of_first? found)
        simp [gone, ahead, apart]
      · simp [gone, ahead]
  refine ⟨{ bridged with length := bridged.length - 1 }, ?_,
    h.removed whole ?_ (by simp [bridged]; rfl) (by simp [bridged]; rfl) cells⟩
  · have cut : (modify fun a => { a with slots := a.slots.setIfInBounds node.id none } :
        Operation Unit) a = .ok () (a.withoutCell node.id) := rfl
    rw [Arena.remove, bind_ok (find_ok (h.live l node r whole)), bind_ok cut,
      bind_ok (setNext_ok left), bind_ok (setPrev_ok fun id found => by
        rw [isSome_cell?_withNext]
        exact right id found), bind_ok modify_ok]
    rfl
  · have kept : bridged.counts = a.counts := by
      simp only [bridged, counts_withPrev, counts_withNext]
      simp [withoutCell, Arena.counts]
    simp only [Arena.counts, Prod.mk.injEq] at kept ⊢
    obtain ⟨size, length, labels⟩ := kept
    simp only [size, length, labels, h.size, h.length, h.labels, whole, List.length_append,
      List.length_cons, true_and, and_true]
    omega

/-- Another instruction in the place of a node's. -/
theorem write (h : Linked a s) {node : Node} (whole : s.nodes = l ++ node :: r)
    (insn : Instruction) :
    ∃ b, Arena.write node.id insn a = .ok () b
      ∧ Linked b { s with nodes := l ++ ⟨node.id, insn⟩ :: r } := by
  have found := h.live l node r whole
  refine ⟨_, change_ok found, h.rewritten whole (by simp) (by simp) (by simp) fun id => ?_⟩
  rw [cell?_withCell]
  split <;> simp_all

/-- Another instruction in the place of a node's, which is given back. -/
theorem replace (h : Linked a s) {node : Node} (whole : s.nodes = l ++ node :: r)
    (insn : Instruction) :
    ∃ b, Arena.replace node.id insn a = .ok node.insn b
      ∧ Linked b { s with nodes := l ++ ⟨node.id, insn⟩ :: r } := by
  obtain ⟨b, done, links⟩ := h.write whole insn
  refine ⟨b, ?_, links⟩
  rw [Arena.write] at done
  rw [Arena.replace, bind_ok (find_ok (h.live l node r whole)), bind_ok done]
  rfl

/-! ### Calls -/

end Linked

/-- A call on an identity that is not live is refused and leaves the arena as it is. -/
theorem step_of_stale {a : Arena} {id : Nat} (stale : a.contains id = false) {call : Call}
    (target : call.target? = some id) :
    a.step call = (.error (.misuse (.staleInstruction id)), a) := by
  have gone : find id a = .error (.misuse (.staleInstruction id)) a :=
    find_stale (by simpa [contains] using stale)
  have refused : serve call a = .error (.misuse (.staleInstruction id)) a := by
    cases call with
    | pushBack | pushFront | extend | newLabel => simp [Call.target?] at target
    | insertAllAfter anchor insns =>
      cases insns with
      | nil => simp [Call.target?] at target
      | cons insn insns =>
        obtain rfl : anchor = id := by simpa [Call.target?] using target
        exact map_error (bind_error (bind_error gone))
    | insertAllBefore anchor insns =>
      cases insns with
      | nil => simp [Call.target?] at target
      | cons insn insns =>
        obtain rfl : anchor = id := by simpa [Call.target?] using target
        refine map_error ?_
        rw [insertAllBefore, List.mapM_cons]
        exact bind_error (bind_error gone)
    | insertAfter anchor insn | insertBefore anchor insn | remove anchor | replace anchor insn
    | write anchor insn =>
      obtain rfl : anchor = id := by simpa [Call.target?] using target
      exact map_error (bind_error gone)
  simp only [step, refused]

namespace Linked

variable {a : Arena} {s : Sequence} {l r : List Node} {insn : Instruction}
variable {b : Arena} {t : Sequence} {call : Call} {answer : Answer}

/-- A call that both sides answer alike. -/
theorem step_of_ok (links : Linked b t) (served : serve call a = .ok answer b)
    (told : s.serve call = .ok (answer, t)) :
    (a.step call).1 = (s.step call).1 ∧ Linked (a.step call).2 (s.step call).2 := by
  simp only [Arena.step, Sequence.step, served, told, true_and]
  exact links

/-- A call on an identity that is not listed, which both sides refuse alike. -/
theorem step_of_stale (h : Linked a s) {id : Nat} (stale : id ∉ s.ids)
    (target : call.target? = some id) :
    (a.step call).1 = (s.step call).1 ∧ Linked (a.step call).2 (s.step call).2 := by
  rw [Arena.step_of_stale (by simp [contains, h.stale id stale]) target,
    Sequence.step_of_stale stale target]
  exact ⟨rfl, h⟩

/-- The links and the list answer a call alike, and still spell the same nodes afterwards. -/
theorem step (h : Linked a s) (call : Call) (ids : (s.step call).2.nextId ≤ UInt32.size)
    (labels : (s.step call).2.labelCount ≤ UInt32.size) :
    (a.step call).1 = (s.step call).1 ∧ Linked (a.step call).2 (s.step call).2 := by
  have found {l r : List Node} {node : Node} (whole : s.nodes = l ++ node :: r) :
      s.split node.id = .ok ⟨l, node, r⟩ := Sequence.split_of_nodes h.distinct whole
  cases call with
  | pushBack insn =>
    obtain ⟨b, done, links⟩ := h.pushBack ids insn
    exact step_of_ok links (map_ok done) rfl
  | pushFront insn =>
    obtain ⟨b, done, links⟩ := h.pushFront ids insn
    exact step_of_ok links (map_ok done) rfl
  | insertAfter anchor insn =>
    rcases s.listed_or_stale anchor with ⟨l, node, r, whole, rfl⟩ | stale
    · have told := Sequence.serve_insertAfter (found whole) insn
      rw [Sequence.step, told] at ids
      obtain ⟨b, done, links⟩ := h.insertAfter whole ids insn
      refine step_of_ok ?_ (map_ok done) told
      simpa [Sequence.number] using links
    · exact h.step_of_stale stale rfl
  | insertBefore anchor insn =>
    rcases s.listed_or_stale anchor with ⟨l, node, r, whole, rfl⟩ | stale
    · have told := Sequence.serve_insertBefore (found whole) insn
      rw [Sequence.step, told] at ids
      obtain ⟨b, done, links⟩ := h.insertBefore whole ids insn
      refine step_of_ok ?_ (map_ok done) told
      simpa [Sequence.number] using links
    · exact h.step_of_stale stale rfl
  | insertAllAfter anchor insns =>
    rcases s.listed_or_stale anchor with ⟨l, node, r, whole, rfl⟩ | stale
    · have told := Sequence.serve_insertAllAfter (found whole) insns
      rw [Sequence.step, told] at ids
      obtain ⟨b, done, links⟩ := h.insertAllAfter whole insns ids
      exact step_of_ok links (map_ok done) told
    · cases insns with
      | nil => exact step_of_ok h rfl rfl
      | cons insn insns => exact h.step_of_stale stale rfl
  | insertAllBefore anchor insns =>
    rcases s.listed_or_stale anchor with ⟨l, node, r, whole, rfl⟩ | stale
    · have told := Sequence.serve_insertAllBefore (found whole) insns
      rw [Sequence.step, told] at ids
      obtain ⟨b, done, links⟩ := h.insertAllBefore whole insns ids
      exact step_of_ok links (map_ok done) told
    · cases insns with
      | nil => exact step_of_ok h rfl rfl
      | cons insn insns => exact h.step_of_stale stale rfl
  | extend insns =>
    obtain ⟨b, done, links⟩ := h.extend insns ids
    exact step_of_ok links (map_ok done) rfl
  | remove id =>
    rcases s.listed_or_stale id with ⟨l, node, r, whole, rfl⟩ | stale
    · obtain ⟨b, done, links⟩ := h.remove whole
      exact step_of_ok links (map_ok done) (Sequence.serve_remove (found whole))
    · exact h.step_of_stale stale rfl
  | replace id insn =>
    rcases s.listed_or_stale id with ⟨l, node, r, whole, rfl⟩ | stale
    · obtain ⟨b, done, links⟩ := h.replace whole insn
      exact step_of_ok links (map_ok done) (Sequence.serve_replace (found whole) insn)
    · exact h.step_of_stale stale rfl
  | write id insn =>
    rcases s.listed_or_stale id with ⟨l, node, r, whole, rfl⟩ | stale
    · obtain ⟨b, done, links⟩ := h.write whole insn
      exact step_of_ok links (map_ok done) (Sequence.serve_write (found whole) insn)
    · exact h.step_of_stale stale rfl
  | newLabel =>
    have room : s.labelCount < UInt32.size := labels
    have label : a.labels.toNat = s.labelCount := by
      rw [h.labels, UInt32.toNat_ofNat_of_lt' room]
    have served : serve .newLabel a
        = .ok (.label ⟨s.labelCount⟩) { a with labels := a.labels + 1 } := by
      rw [← label]
      rfl
    have links : Linked { a with labels := a.labels + 1 } s.newLabel.2 :=
      ⟨by simp [Arena.counts, h.size, h.length, h.labels, Sequence.newLabel], h.first, h.last,
        h.distinct, h.live, h.stale⟩
    exact step_of_ok links served rfl

end Linked

end Arena

end ClassInstrument
