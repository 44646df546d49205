import ClassInstrument.Sequence.Arena
import Mathlib.Data.List.Nodup

/-!
# Links that spell a list

The invariant of the linked storage: which cell stands in which slot is read off the list of
nodes, together with both ends and the counts.  Main statements:

* `Arena.Linked` — the invariant, between an arena and the sequence it stands for;
* `Arena.Linked.inserted`, `Arena.Linked.removed`, `Arena.Linked.rewritten` — the three ways in
  which a list changes, each from what the slots hold afterwards;
* `Sequence.split?_eq_some_iff` — the list around a node, when identities differ.
-/

namespace ClassInstrument

/-! ### Ends of a list of nodes -/

namespace Node

/-- The identity of the first node. -/
def first? (nodes : List Node) : Option Nat := nodes.head?.map Node.id

/-- The identity of the last node. -/
def last? (nodes : List Node) : Option Nat := nodes.getLast?.map Node.id

@[simp] theorem first?_nil : first? [] = none := rfl

@[simp] theorem first?_cons (node : Node) (nodes : List Node) :
    first? (node :: nodes) = some node.id := rfl

@[simp] theorem last?_nil : last? [] = none := rfl

@[simp] theorem last?_concat (nodes : List Node) (node : Node) :
    last? (nodes ++ [node]) = some node.id := by simp [last?]

@[simp] theorem last?_append_cons (before : List Node) (node : Node) (behind : List Node) :
    last? (before ++ node :: behind) = last? (node :: behind) := by
  simp [last?, List.getLast?_cons]

@[simp] theorem last?_singleton (node : Node) : last? [node] = some node.id := rfl

@[simp] theorem last?_cons_cons (node other : Node) (nodes : List Node) :
    last? (node :: other :: nodes) = last? (other :: nodes) := by simp [last?]

theorem exists_last? (node : Node) (nodes : List Node) :
    ∃ id, last? (node :: nodes) = some id :=
  ⟨_, by simp only [last?, List.getLast?_cons, Option.map_some]; rfl⟩

/-- A node of two lists in a row is in one of them. -/
theorem split_append {l r before behind : List Node} {node : Node}
    (h : l ++ r = before ++ node :: behind) :
    (∃ m, l = before ++ node :: m ∧ behind = m ++ r)
      ∨ ∃ m, before = l ++ m ∧ r = m ++ node :: behind := by
  rcases List.append_eq_append_iff.1 h with ⟨m, before_eq, rest⟩ | ⟨m, l_eq, rest⟩
  · exact .inr ⟨m, before_eq, rest⟩
  · cases m with
    | nil => exact .inr ⟨[], by simp_all⟩
    | cons first m => exact .inl ⟨m, by simp_all⟩

/-- A node of a list with another in a gap is before the gap, in it or behind it. -/
theorem split_insert {l r before behind : List Node} {node other : Node}
    (h : l ++ node :: r = before ++ other :: behind) :
    (∃ m, l = before ++ other :: m ∧ behind = m ++ node :: r)
      ∨ (before = l ∧ other = node ∧ behind = r)
      ∨ ∃ m, before = l ++ node :: m ∧ r = m ++ other :: behind := by
  rcases split_append h with inside | ⟨m, rfl, rest⟩
  · exact .inl inside
  · cases m with
    | nil => exact .inr (.inl (by simp_all))
    | cons first m => exact .inr (.inr ⟨m, by simp_all⟩)

theorem mem_of_first? {nodes : List Node} {id : Nat} (h : first? nodes = some id) :
    id ∈ nodes.map Node.id := by
  obtain ⟨node, found, rfl⟩ := Option.map_eq_some_iff.1 h
  exact List.mem_map_of_mem (List.mem_of_mem_head? found)

theorem mem_of_last? {nodes : List Node} {id : Nat} (h : last? nodes = some id) :
    id ∈ nodes.map Node.id := by
  obtain ⟨node, found, rfl⟩ := Option.map_eq_some_iff.1 h
  exact List.mem_map_of_mem (List.mem_of_mem_getLast? found)

end Node

/-! ### Single slots -/

namespace Arena

open Node (first? last?)

theorem lt_of_cell? {a : Arena} {id : Nat} {cell : Cell} (h : a.cell? id = some cell) :
    id < a.slots.size := by
  refine Nat.lt_of_not_le fun outside => ?_
  simp [cell?, Array.getElem?_eq_none outside] at h

/-- An arena with the cell of a live identity changed. -/
def withCell (a : Arena) (id : Nat) (f : Cell → Cell) : Arena :=
  match a.cell? id with
  | some cell => { a with slots := a.slots.setIfInBounds id (some (f cell)) }
  | none => a

/-- An arena with a cell in the next slot. -/
def withSlot (a : Arena) (cell : Cell) : Arena :=
  { a with slots := a.slots.push (some cell), length := a.length + 1 }

/-- An arena with a slot emptied. -/
def withoutCell (a : Arena) (id : Nat) : Arena :=
  { a with slots := a.slots.setIfInBounds id none }

/-- An arena in which a cell, or the front, leads on to another. -/
def withNext (a : Arena) (prev next : Option Nat) : Arena :=
  match prev with
  | some prev => a.withCell prev ({ · with next })
  | none => { a with first := next }

/-- An arena in which a cell, or the end, leads back to another. -/
def withPrev (a : Arena) (next prev : Option Nat) : Arena :=
  match next with
  | some next => a.withCell next ({ · with prev })
  | none => { a with last := prev }

section Slots

variable (a : Arena) (id : Nat) (f : Cell → Cell) (cell : Cell) (prev next : Option Nat)

@[simp] theorem cell?_withCell (other : Nat) :
    (a.withCell id f).cell? other = if other = id then (a.cell? id).map f else a.cell? other := by
  unfold withCell
  cases found : a.cell? id with
  | none => split <;> simp_all
  | some cell =>
    have inside := lt_of_cell? found
    by_cases same : other = id
    · subst same; simp [cell?, inside]
    · simp [cell?, same, Array.getElem?_setIfInBounds_ne (Ne.symm same)]

@[simp] theorem cell?_withSlot (other : Nat) :
    (a.withSlot cell).cell? other = if other = a.slots.size then some cell else a.cell? other := by
  simp only [withSlot, cell?, Array.getElem?_push]
  split <;> rfl

@[simp] theorem cell?_withoutCell (other : Nat) :
    (a.withoutCell id).cell? other = if other = id then none else a.cell? other := by
  by_cases same : other = id
  · subst same
    simp only [withoutCell, cell?, Array.getElem?_setIfInBounds_self, ↓reduceIte]
    split <;> rfl
  · simp [withoutCell, cell?, same, Array.getElem?_setIfInBounds_ne (Ne.symm same)]

@[simp] theorem cell?_withNext (other : Nat) :
    (a.withNext prev next).cell? other
      = if prev = some other then (a.cell? other).map ({ · with next }) else a.cell? other := by
  cases prev with
  | none => rfl
  | some prev =>
    simp only [withNext, cell?_withCell, Option.some.injEq, eq_comm (a := prev)]
    split <;> simp_all

@[simp] theorem cell?_withPrev (other : Nat) :
    (a.withPrev next prev).cell? other
      = if next = some other then (a.cell? other).map ({ · with prev }) else a.cell? other := by
  cases next with
  | none => rfl
  | some next =>
    simp only [withPrev, cell?_withCell, Option.some.injEq, eq_comm (a := next)]
    split <;> simp_all

/-- The counters of an arena. -/
def counts (a : Arena) : Nat × Nat × UInt32 := (a.slots.size, a.length, a.labels)

@[simp] theorem counts_withCell : (a.withCell id f).counts = a.counts := by
  unfold withCell
  split <;> simp [counts]

@[simp] theorem first_withCell : (a.withCell id f).first = a.first := by
  unfold withCell
  split <;> rfl

@[simp] theorem last_withCell : (a.withCell id f).last = a.last := by
  unfold withCell
  split <;> rfl

@[simp] theorem counts_withNext : (a.withNext prev next).counts = a.counts := by
  cases prev with
  | none => rfl
  | some prev => exact counts_withCell a prev _

@[simp] theorem first_withNext : (a.withNext prev next).first = prev.elim next fun _ => a.first := by
  cases prev <;> simp [withNext]

@[simp] theorem last_withNext : (a.withNext prev next).last = a.last := by
  cases prev <;> simp [withNext]

@[simp] theorem counts_withPrev : (a.withPrev next prev).counts = a.counts := by
  cases next with
  | none => rfl
  | some next => exact counts_withCell a next _

@[simp] theorem first_withPrev : (a.withPrev next prev).first = a.first := by
  cases next <;> simp [withPrev]

@[simp] theorem last_withPrev : (a.withPrev next prev).last = next.elim prev fun _ => a.last := by
  cases next <;> simp [withPrev]

end Slots

/-! ### The invariant -/

/-- An arena whose links spell the nodes of a sequence. -/
structure Linked (a : Arena) (s : Sequence) : Prop where
  counts : a.counts = (s.nextId, s.nodes.length, UInt32.ofNat s.labelCount)
  first : a.first = first? s.nodes
  last : a.last = last? s.nodes
  distinct : s.ids.Nodup
  /-- A node stands in its slot, between its neighbours. -/
  live : ∀ before node behind, s.nodes = before ++ node :: behind →
    a.cell? node.id = some ⟨node.insn, last? before, first? behind⟩
  /-- Every other slot is empty. -/
  stale : ∀ id, id ∉ s.ids → a.cell? id = none

namespace Linked

variable {a b : Arena} {s : Sequence} {l r : List Node}

theorem empty : Linked .empty .empty := by
  constructor <;> simp [Arena.empty, Sequence.empty, Arena.counts, Sequence.ids, cell?]

theorem size (h : Linked a s) : a.slots.size = s.nextId := congrArg Prod.fst h.counts

theorem length (h : Linked a s) : a.length = s.nodes.length :=
  congrArg (fun counts => counts.2.1) h.counts

theorem labels (h : Linked a s) : a.labels = UInt32.ofNat s.labelCount :=
  congrArg (fun counts => counts.2.2) h.counts

/-- Slots that hold a cell are those of the nodes. -/
theorem isSome_cell? (h : Linked a s) (id : Nat) : (a.cell? id).isSome ↔ id ∈ s.ids := by
  constructor
  · intro some
    by_cases listed : id ∈ s.ids
    · exact listed
    · simp [h.stale id listed] at some
  · intro listed
    obtain ⟨node, mem, rfl⟩ := List.mem_map.1 listed
    obtain ⟨before, behind, whole⟩ := List.append_of_mem mem
    simp [h.live before node behind whole]

/-- All identities are below the next one. -/
theorem lt_nextId (h : Linked a s) {id : Nat} (listed : id ∈ s.ids) : id < s.nextId := by
  obtain ⟨cell, found⟩ := Option.isSome_iff_exists.1 ((h.isSome_cell? id).2 listed)
  exact h.size ▸ lt_of_cell? found

theorem ne_nextId (h : Linked a s) (node : Node) (whole : s.nodes = l ++ node :: r) :
    node.id ≠ s.nextId :=
  Nat.ne_of_lt (h.lt_nextId (by simp [Sequence.ids, whole]))

theorem not_mem_of_nodes (h : Linked a s) (whole : s.nodes = l ++ r) (id : Nat)
    (left : id ∈ l.map Node.id) : id ∉ r.map Node.id := by
  have distinct := h.distinct
  simp only [Sequence.ids, whole, List.map_append, List.nodup_append] at distinct
  exact fun right => distinct.2.2 id left id right rfl

/-- A part of the list ends in a node of it only if nothing is behind the node. -/
theorem last?_eq_some_iff (h : Linked a s) {node : Node} {m : List Node}
    (whole : s.nodes = l ++ node :: m ++ r) : last? (node :: m) = some node.id ↔ m = [] := by
  refine ⟨fun found => ?_, fun none => by simp [none]⟩
  cases m with
  | nil => rfl
  | cons other m =>
    rw [Node.last?_cons_cons] at found
    have apart := h.not_mem_of_nodes (l := l ++ [node]) (r := other :: m ++ r) (by simp [whole])
      node.id (by simp)
    rw [List.map_append] at apart
    exact absurd (List.mem_append_left _ (Node.mem_of_last? found)) apart

/-- A part of the list starts with a node of it only if nothing is in front of the node. -/
theorem first?_eq_some_iff (h : Linked a s) {node : Node} {m : List Node}
    (whole : s.nodes = l ++ (m ++ node :: r)) :
    first? (m ++ node :: r) = some node.id ↔ m = [] := by
  refine ⟨fun found => ?_, fun none => by simp [none]⟩
  cases m with
  | nil => rfl
  | cons other m =>
    have same : other.id = node.id := by simpa using found
    exact absurd (by simp) (h.not_mem_of_nodes (l := l ++ [other]) (r := m ++ node :: r)
      (by simp [whole]) node.id (by simp [same]))

/-- The invariant sees an arena through its counters, its ends and its cells. -/
theorem congr (h : Linked a s) (counts : b.counts = a.counts) (first : b.first = a.first)
    (last : b.last = a.last) (cells : ∀ id, b.cell? id = a.cell? id) : Linked b s where
  counts := counts.trans h.counts
  first := first.trans h.first
  last := last.trans h.last
  distinct := h.distinct
  live before node behind whole := (cells _).trans (h.live before node behind whole)
  stale id unlisted := (cells id).trans (h.stale id unlisted)

/-- A node in a gap of the list.  Its cell refers to the nodes around the gap, which refer to it;
the others stay as they are. -/
theorem inserted (h : Linked a s) (whole : s.nodes = l ++ r) {insn : Instruction}
    (counts : b.counts = (s.nextId + 1, s.nodes.length + 1, UInt32.ofNat s.labelCount))
    (first : b.first = (last? l).elim (some s.nextId) fun _ => a.first)
    (last : b.last = (first? r).elim (some s.nextId) fun _ => a.last)
    (cells : ∀ id, b.cell? id =
      if id = s.nextId then some ⟨insn, last? l, first? r⟩
      else if last? l = some id then (a.cell? id).map ({ · with next := some s.nextId })
      else if first? r = some id then (a.cell? id).map ({ · with prev := some s.nextId })
      else a.cell? id) :
    Linked b { s with nodes := l ++ ⟨s.nextId, insn⟩ :: r, nextId := s.nextId + 1 } where
  counts := by simp [counts, whole]; omega
  first := by
    rw [first, h.first, whole]
    cases l with
    | nil => rfl
    | cons node l =>
      obtain ⟨id, found⟩ := Node.exists_last? node l
      simp [found]
  last := by
    rw [last, h.last, whole]
    cases r <;> simp
  distinct := by
    have fresh : s.nextId ∉ s.ids := fun listed => Nat.lt_irrefl _ (h.lt_nextId listed)
    have distinct := h.distinct
    simp only [Sequence.ids, whole, List.map_append] at distinct fresh ⊢
    rw [List.map_cons, List.nodup_middle]
    exact List.nodup_cons.2 ⟨fresh, distinct⟩
  live := by
    intro before node behind split
    rw [cells]
    rcases Node.split_insert split with ⟨m, rfl, rfl⟩ | ⟨rfl, rfl, rfl⟩ | ⟨m, rfl, rfl⟩
    · have old := h.live before node (m ++ r) (by simp [whole])
      have known := h.ne_nextId node (l := before) (r := m ++ r) (by simp [whole])
      have apart : first? r ≠ some node.id :=
        fun found => h.not_mem_of_nodes whole _ (by simp) (Node.mem_of_first? found)
      simp only [known, Node.last?_append_cons, h.last?_eq_some_iff whole, apart, if_false]
      cases m <;> simp [old]
    · simp
    · have old := h.live (l ++ m) node behind (by simp [whole])
      have known := h.ne_nextId node (l := l ++ m) (r := behind) (by simp [whole])
      have apart : last? l ≠ some node.id :=
        fun found => h.not_mem_of_nodes whole _ (Node.mem_of_last? found) (by simp)
      simp only [known, apart, h.first?_eq_some_iff whole, if_false]
      cases m <;> simp [old]
  stale := by
    intro id unlisted
    have other : id ≠ s.nextId := by
      rintro rfl
      simp [Sequence.ids] at unlisted
    have gone := h.stale id (by simp_all [Sequence.ids])
    simp [cells, other, gone]

/-- A node out of the list.  Its slot is empty, and its neighbours refer to each other. -/
theorem removed (h : Linked a s) {node : Node} (whole : s.nodes = l ++ node :: r)
    (counts : b.counts = (s.nextId, (l ++ r).length, UInt32.ofNat s.labelCount))
    (first : b.first = (last? l).elim (first? r) fun _ => a.first)
    (last : b.last = (first? r).elim (last? l) fun _ => a.last)
    (cells : ∀ id, b.cell? id =
      if id = node.id then none
      else if last? l = some id then (a.cell? id).map ({ · with next := first? r })
      else if first? r = some id then (a.cell? id).map ({ · with prev := last? l })
      else a.cell? id) :
    Linked b { s with nodes := l ++ r } where
  counts := counts
  first := by
    rw [first, h.first, whole]
    cases l with
    | nil => rfl
    | cons other l =>
      obtain ⟨id, found⟩ := Node.exists_last? other l
      simp [found]
  last := by
    rw [last, h.last, whole]
    cases r <;> simp
  distinct := by
    have distinct := h.distinct
    simp only [Sequence.ids, whole, List.map_append, List.map_cons, List.nodup_middle] at distinct ⊢
    exact (List.nodup_cons.1 distinct).2
  live := by
    intro before other behind split
    rw [cells]
    rcases Node.split_append split with ⟨m, rfl, rfl⟩ | ⟨m, rfl, rfl⟩
    · have old := h.live before other (m ++ node :: r) (by simp [whole])
      have behind := h.not_mem_of_nodes whole other.id (by simp)
      have gone : other.id ≠ node.id := fun same => behind (by simp [same])
      have apart : first? r ≠ some other.id :=
        fun found => behind (by simp [Node.mem_of_first? found])
      simp only [gone, Node.last?_append_cons, h.last?_eq_some_iff whole, apart, if_false]
      cases m <;> simp [old]
    · have old := h.live (l ++ node :: m) other behind (by simp [whole])
      have ahead : other.id ∉ (l ++ [node]).map Node.id := fun left =>
        h.not_mem_of_nodes (r := m ++ other :: behind) (by simp [whole]) _ left (by simp)
      have gone : other.id ≠ node.id := fun same => ahead (by simp [same])
      have apart : last? l ≠ some other.id := fun found =>
        ahead (by rw [List.map_append]; exact List.mem_append_left _ (Node.mem_of_last? found))
      have row : s.nodes = (l ++ [node]) ++ (m ++ other :: behind) := by simp [whole]
      simp only [gone, apart, h.first?_eq_some_iff row, if_false]
      cases m <;> simp [old]
  stale := by
    intro id unlisted
    rw [cells]
    by_cases gone : id = node.id
    · simp [gone]
    · have gone := h.stale id (by simp_all [Sequence.ids])
      simp [gone]

/-- Another instruction in the place of a node's. -/
theorem rewritten (h : Linked a s) {node : Node} (whole : s.nodes = l ++ node :: r)
    {insn : Instruction} (counts : b.counts = a.counts) (first : b.first = a.first)
    (last : b.last = a.last)
    (cells : ∀ id, b.cell? id =
      if id = node.id then (a.cell? id).map ({ · with insn }) else a.cell? id) :
    Linked b { s with nodes := l ++ ⟨node.id, insn⟩ :: r } where
  counts := by rw [counts, h.counts]; simp [whole]
  first := by
    rw [first, h.first, whole]
    cases l <;> simp
  last := by
    rw [last, h.last, whole]
    cases r <;> simp
  distinct := by simpa [Sequence.ids, whole] using h.distinct
  live := by
    intro before other behind split
    rw [cells]
    rcases Node.split_insert split with ⟨m, rfl, rfl⟩ | ⟨rfl, rfl, rfl⟩ | ⟨m, rfl, rfl⟩
    · have old := h.live before other (m ++ node :: r) (by simp [whole])
      have apart : other.id ≠ node.id := fun same =>
        h.not_mem_of_nodes whole other.id (by simp) (by simp [same])
      cases m <;> simp [apart, old]
    · simp [h.live before node behind whole]
    · have old := h.live (l ++ node :: m) other behind (by simp [whole])
      have apart : other.id ≠ node.id := fun same =>
        h.not_mem_of_nodes (l := l ++ [node]) (r := m ++ other :: behind) (by simp [whole])
          node.id (by simp) (by simp [same])
      cases m <;> simp [apart, old]
  stale := by
    intro id unlisted
    have gone := h.stale id (by simpa [Sequence.ids, whole] using unlisted)
    simp [cells, gone]

end Linked

end Arena

end ClassInstrument
