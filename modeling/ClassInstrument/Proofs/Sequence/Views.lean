import ClassInstrument.Proofs.Sequence.Operations
import Mathlib.Data.List.Perm.Subperm

/-!
# What is read off linked cells

Everything an arena answers about its cells, when its links spell a list, is what that list says.

* `Arena.Iter.Yields` — a walk that gives some nodes, one after another, and ends;
* `Arena.Shows` — all views of an arena agree with a list of nodes;
* `Arena.Linked.shows` — they do when the links spell the list;
* `Arena.read_of_stale` — nothing is read at an identity that is not live.
-/

namespace ClassInstrument

namespace Arena

open Node (first? last?)
open Sequence (Call Answer)

/-- A walk that gives some nodes and ends behind them, counting what is still to come. -/
def Iter.Yields (it : Iter) : List Node → Prop
  | [] => it.remaining = 0 ∧ it.next? = .ok none
  | node :: nodes => it.remaining = nodes.length + 1
      ∧ ∃ further, it.next? = .ok (some (node, further)) ∧ further.Yields nodes

theorem Iter.Yields.collect {it : Iter} {nodes : List Node} (h : it.Yields nodes) {bound : Nat}
    (enough : nodes.length ≤ bound) : it.collect bound = .ok nodes := by
  induction nodes generalizing it bound with
  | nil =>
    cases bound with
    | zero => rfl
    | succ bound => rw [Iter.collect, h.2]; rfl
  | cons node nodes ih =>
    obtain ⟨-, further, next, rest⟩ := h
    cases bound with
    | zero => simp at enough
    | succ bound =>
      rw [Iter.collect, next]
      change (further.collect bound >>= fun rest => Except.ok (node :: rest)) = _
      rw [ih rest (Nat.le_of_succ_le_succ enough)]
      rfl

/-- All views of an arena are those of a list of nodes. -/
structure Shows (a : Arena) (list : List Node) : Prop where
  /-- The walk gives the nodes in order, and counts right at each of them. -/
  walk : a.iter.Yields list
  nodes : a.nodes = .ok list
  ids : a.ids = .ok (list.map Node.id)
  instructions : a.instructions = .ok (list.map Node.insn)
  first : a.first = (list.map Node.id).head?
  last : a.last = (list.map Node.id).getLast?
  length : a.length = list.length
  isEmpty : a.isEmpty = list.isEmpty
  /-- No two nodes have one identity. -/
  distinct : (list.map Node.id).Nodup
  contains : ∀ id, a.contains id = true ↔ id ∈ list.map Node.id
  get : ∀ before node behind, list = before ++ node :: behind → a.get node.id = .ok node.insn
  position : ∀ before node behind, list = before ++ node :: behind →
    a.position node.id = .ok before.length
  /-- One identity leads on to another exactly if that is directly behind it. -/
  next : ∀ x y, a.next? x = .ok (some y) ↔ [x, y] <:+: list.map Node.id
  /-- One identity leads back to another exactly if that is directly before it. -/
  prev : ∀ x y, a.prev? y = .ok (some x) ↔ [x, y] <:+: list.map Node.id
  /-- Only the last leads on to nothing. -/
  next_none : ∀ x, a.next? x = .ok none ↔ (list.map Node.id).getLast? = some x
  /-- Only the first leads back to nothing. -/
  prev_none : ∀ x, a.prev? x = .ok none ↔ (list.map Node.id).head? = some x

namespace Linked

variable {a : Arena} {s : Sequence} {l m r : List Node} {x y : Nat}

theorem cell_of_nodes (h : Linked a s) {node : Node} (whole : s.nodes = l ++ node :: r) :
    a.cell node.id = .ok ⟨node.insn, last? l, first? r⟩ := by
  rw [cell, h.live l node r whole]

theorem cell_of_stale (h : Linked a s) {id : Nat} (stale : id ∉ s.ids) :
    a.cell id = .error (.misuse (.staleInstruction id)) := by
  rw [cell, h.stale id stale]

theorem next?_of_nodes (h : Linked a s) {node : Node} (whole : s.nodes = l ++ node :: r) :
    a.next? node.id = .ok (first? r) := by
  rw [Arena.next?, h.cell_of_nodes whole]
  rfl

theorem prev?_of_nodes (h : Linked a s) {node : Node} (whole : s.nodes = l ++ node :: r) :
    a.prev? node.id = .ok (last? l) := by
  rw [Arena.prev?, h.cell_of_nodes whole]
  rfl

/-- The walk from any point on gives the nodes from there. -/
theorem yields (h : Linked a s) (whole : s.nodes = l ++ r) :
    (Iter.mk a (first? r) r.length).Yields r := by
  induction r generalizing l with
  | nil => exact ⟨rfl, rfl⟩
  | cons node r ih =>
    refine ⟨rfl, ⟨a, first? r, r.length⟩, ?_, ih (l := l ++ [node]) (by simp [whole])⟩
    simp only [Iter.next?, Node.first?_cons, h.cell_of_nodes whole]
    rfl

/-- There are no more nodes than slots. -/
theorem length_le (h : Linked a s) : s.nodes.length ≤ a.slots.size := by
  have below : s.ids ⊆ List.range s.nextId := fun id listed =>
    List.mem_range.2 (h.lt_nextId listed)
  have fits := (List.subperm_of_subset h.distinct below).length_le
  simpa [Sequence.ids, h.size] using fits

/-- Counting links from a node on finds a later one as far behind as it is in the list. -/
theorem distance (h : Linked a s) {node : Node} (whole : s.nodes = l ++ (m ++ node :: r))
    {bound : Nat} (enough : m.length < bound) :
    a.distance node.id bound (first? (m ++ node :: r)) = .ok m.length := by
  induction m generalizing l bound with
  | nil =>
    obtain ⟨bound, rfl⟩ := Nat.exists_eq_succ_of_ne_zero (Nat.ne_of_gt enough)
    simp [Arena.distance]
  | cons other m ih =>
    obtain ⟨bound, rfl⟩ := Nat.exists_eq_succ_of_ne_zero (Nat.ne_zero_of_lt enough)
    have apart : other.id ≠ node.id := fun same =>
      h.not_mem_of_nodes (l := l ++ [other]) (r := m ++ node :: r) (by simp [whole])
        node.id (by simp [same]) (by simp)
    have further := ih (l := l ++ [other]) (by simp [whole]) (Nat.lt_of_succ_lt_succ enough)
    rw [List.cons_append, Node.first?_cons, Arena.distance, if_neg apart,
      h.next?_of_nodes (show s.nodes = l ++ other :: (m ++ node :: r) from whole)]
    change (a.distance node.id bound (first? (m ++ node :: r)) >>= fun n => Except.ok (n + 1)) = _
    rw [further]
    rfl

/-- Two identities in a row are those of two nodes in a row. -/
theorem exists_nodes (whole : [x, y] <:+: s.ids) :
    ∃ l first second r, s.nodes = l ++ first :: second :: r ∧ first.id = x ∧ second.id = y := by
  obtain ⟨front, rear, listed⟩ := whole
  simp only [Sequence.ids, List.append_assoc, List.cons_append, List.nil_append] at listed
  obtain ⟨l, _, whole, rfl, tail⟩ := List.append_eq_map_iff.1 listed
  obtain ⟨first, _, rfl, rfl, behind⟩ := List.map_eq_cons_iff.1 tail
  obtain ⟨second, r, rfl, rfl, -⟩ := List.map_eq_cons_iff.1 behind
  exact ⟨l, first, second, r, whole, rfl, rfl⟩

theorem next?_eq_some_iff (h : Linked a s) : a.next? x = .ok (some y) ↔ [x, y] <:+: s.ids := by
  constructor
  · intro leads
    rcases s.listed_or_stale x with ⟨l, node, r, whole, rfl⟩ | stale
    · rw [h.next?_of_nodes whole] at leads
      cases r with
      | nil => simp at leads
      | cons other r =>
        obtain rfl : other.id = y := by simpa using leads
        exact ⟨l.map Node.id, r.map Node.id, by simp [Sequence.ids, whole]⟩
    · simp [Arena.next?, h.cell_of_stale stale, Except.map] at leads
  · intro listed
    obtain ⟨l, first, second, r, whole, rfl, rfl⟩ := exists_nodes listed
    exact h.next?_of_nodes whole

theorem prev?_eq_some_iff (h : Linked a s) : a.prev? y = .ok (some x) ↔ [x, y] <:+: s.ids := by
  constructor
  · intro leads
    rcases s.listed_or_stale y with ⟨l, node, r, whole, rfl⟩ | stale
    · rw [h.prev?_of_nodes whole] at leads
      rcases l.eq_nil_or_concat with rfl | ⟨l, other, rfl⟩
      · simp at leads
      · obtain rfl : other.id = x := by simpa using leads
        exact ⟨l.map Node.id, r.map Node.id, by simp [Sequence.ids, whole]⟩
    · simp [Arena.prev?, h.cell_of_stale stale, Except.map] at leads
  · intro listed
    obtain ⟨l, first, second, r, whole, rfl, rfl⟩ := exists_nodes listed
    rw [h.prev?_of_nodes (l := l ++ [first]) (r := r) (by simp [whole]), Node.last?_concat]

theorem next?_eq_none_iff (h : Linked a s) : a.next? x = .ok none ↔ s.ids.getLast? = some x := by
  constructor
  · intro ends
    rcases s.listed_or_stale x with ⟨l, node, r, whole, rfl⟩ | stale
    · rw [h.next?_of_nodes whole] at ends
      cases r with
      | nil => simp [Sequence.ids, whole]
      | cons other r => simp at ends
    · simp [Arena.next?, h.cell_of_stale stale, Except.map] at ends
  · intro last
    obtain ⟨front, listed⟩ := List.getLast?_eq_some_iff.1 last
    obtain ⟨l, tail, whole, -, tail_ids⟩ := List.append_eq_map_iff.1 listed.symm
    obtain ⟨node, rest, rfl, rfl, none⟩ := List.map_eq_cons_iff.1 tail_ids
    obtain rfl : rest = [] := List.map_eq_nil_iff.1 none
    exact h.next?_of_nodes whole

theorem prev?_eq_none_iff (h : Linked a s) : a.prev? x = .ok none ↔ s.ids.head? = some x := by
  constructor
  · intro ends
    rcases s.listed_or_stale x with ⟨l, node, r, whole, rfl⟩ | stale
    · rw [h.prev?_of_nodes whole] at ends
      rcases l.eq_nil_or_concat with rfl | ⟨l, other, rfl⟩
      · simp [Sequence.ids, whole]
      · simp at ends
    · simp [Arena.prev?, h.cell_of_stale stale, Except.map] at ends
  · intro first
    obtain ⟨rear, listed⟩ := List.head?_eq_some_iff.1 first
    obtain ⟨node, r, whole, rfl, -⟩ := List.map_eq_cons_iff.1 listed
    exact h.prev?_of_nodes (l := []) whole

theorem position_of_nodes (h : Linked a s) {node : Node} (whole : s.nodes = l ++ node :: r) :
    a.position node.id = .ok l.length := by
  have enough : l.length < a.slots.size := by
    have := h.length_le
    simp only [whole, List.length_append, List.length_cons] at this
    omega
  have counted := h.distance (l := []) (m := l) whole enough
  rw [← whole, ← h.first] at counted
  rw [Arena.position, h.cell_of_nodes whole]
  exact counted

/-- Links that spell a list show it. -/
theorem shows (h : Linked a s) : a.Shows s.nodes := by
  have walk : a.iter.Yields s.nodes := by
    have := h.yields (l := []) (r := s.nodes) rfl
    rwa [← h.first, ← h.length] at this
  have nodes : a.nodes = .ok s.nodes := walk.collect h.length_le
  exact {
    walk, nodes
    ids := by rw [Arena.ids, nodes]; rfl
    instructions := by rw [Arena.instructions, nodes]; rfl
    first := by rw [h.first, first?, List.head?_map]
    last := by rw [h.last, last?, List.getLast?_map]
    length := h.length
    isEmpty := by rw [Arena.isEmpty, h.length]; cases s.nodes <;> rfl
    distinct := h.distinct
    contains := h.isSome_cell?
    get := fun l node r whole => by rw [Arena.get, h.cell_of_nodes whole]; rfl
    position := fun l node r whole => h.position_of_nodes whole
    next := fun x y => h.next?_eq_some_iff
    prev := fun x y => h.prev?_eq_some_iff
    next_none := fun x => h.next?_eq_none_iff
    prev_none := fun x => h.prev?_eq_none_iff }

end Linked

/-! ### Stale identities -/

/-- Nothing is read at an identity that is not live. -/
theorem read_of_stale {a : Arena} {id : Nat} (stale : a.contains id = false) :
    a.get id = .error (.misuse (.staleInstruction id))
      ∧ a.next? id = .error (.misuse (.staleInstruction id))
      ∧ a.prev? id = .error (.misuse (.staleInstruction id))
      ∧ a.position id = .error (.misuse (.staleInstruction id)) := by
  have gone : a.cell id = .error (.misuse (.staleInstruction id)) := by
    rw [cell, show a.cell? id = none by simpa [contains] using stale]
  simp [get, next?, prev?, position, gone, Except.map, bind, Except.bind]

end Arena

end ClassInstrument
