import ClassInstrument.Proofs.Query.Matches
import ClassInstrument.Proofs.Sequence.Reached
import ClassInstrument.Query.Walk
import Mathlib.Data.List.Induction

/-!
# Searches along the links find what list searches find

The searches on linked cells count and stop along the links, in both directions.  What they find is
what the same searches find on the list that the links spell, and that is said here by position in
that list.

* `Arena.Met` — cells that are met in a direction, with `Arena.Met.scan`, `Arena.Met.stretch` and
  `Arena.Met.upTo` for the three kinds of walks;
* `Arena.Linked.findNext` … `Arena.Linked.between` — each search agrees with the one on lists;
* `Arena.Finds` — what all searches find, by position; `Arena.Linked.finds` — they do;
* `Arena.finds_run` — after any calls at all, the searches are those of the list that is shown.
-/

namespace ClassInstrument

namespace Arena

open Node (first? last?)
open Sequence (Call)

/-! ### Cells in a direction -/

/-- Cells that are met in a direction from a cell on, until there is no further one. -/
inductive Met (a : Arena) (step : Direction) : Option Nat → List Node → Prop where
  | stop : Met a step none []
  | meet {node : Node} {next : Option Nat} {nodes : List Node}
      (insn : a.get node.id = .ok node.insn)
      (leads : step node.id = .ok next) (further : Met a step next nodes) :
      Met a step (some node.id) (node :: nodes)

namespace Met

variable {a : Arena} {step : Direction} {start : Option Nat} {nodes : List Node}

/-- A scan finds the first of the cells that passes, if it is within the limit. -/
theorem scan (h : Met a step start nodes) (test : Instruction → Bool) (limit : Nat) :
    a.scan step test limit start = .ok (Sequence.nearest nodes test (some limit)) := by
  induction h generalizing limit with
  | stop => cases limit <;> simp [Arena.scan, Sequence.nearest]
  | @meet node next nodes insn leads further ih =>
    cases limit with
    | zero => simp [Arena.scan, Sequence.nearest]
    | succ limit =>
      simp only [Arena.scan, insn, leads, bind, Except.bind]
      by_cases passes : test node.insn = true
      · simp [Sequence.nearest, passes]
      · simp only [Sequence.nearest] at ih
        simp [Sequence.nearest, passes, ih]

/-- A stretch is as many of the cells as are asked for. -/
theorem stretch (h : Met a step start nodes) (count : Nat) :
    Arena.stretch step count start = .ok ((nodes.take count).map Node.id) := by
  induction h generalizing count with
  | stop => cases count <;> simp [Arena.stretch]
  | meet insn leads further ih =>
    cases count with
    | zero => simp [Arena.stretch]
    | succ count => simp [Arena.stretch, leads, ih, bind, Except.bind]

/-- The walk up to a cell gives the cells before it, if it is met at all. -/
theorem upTo {finish : Nat} (h : Met a a.next? start nodes) {bound : Nat}
    (enough : nodes.length ≤ bound) :
    a.upTo finish bound start = .ok (if nodes.any (·.id == finish) then
      some ((nodes.takeWhile (·.id ≠ finish)).map Node.id) else none) := by
  induction h generalizing bound with
  | stop => cases bound <;> simp [Arena.upTo]
  | @meet node next nodes insn leads further ih =>
    cases bound with
    | zero => simp at enough
    | succ bound =>
      by_cases here : node.id = finish
      · simp [Arena.upTo, here]
      · have rest := ih (Nat.le_of_succ_le_succ enough)
        simp only [Arena.upTo, if_neg here, leads, rest, bind, Except.bind]
        by_cases later : nodes.any (·.id == finish) = true <;> simp [here, later]

end Met

/-! ### Agreement with lists -/

namespace Linked

variable {a : Arena} {s : Sequence} {l r : List Node}

theorem get_of_nodes (h : Linked a s) {node : Node} (whole : s.nodes = l ++ node :: r) :
    a.get node.id = .ok node.insn := by
  rw [Arena.get, h.cell_of_nodes whole]
  rfl

/-- Behind a point of the list come the cells behind it. -/
theorem met_next (h : Linked a s) (whole : s.nodes = l ++ r) : Met a a.next? (first? r) r := by
  induction r generalizing l with
  | nil => exact .stop
  | cons node r ih =>
    exact .meet (h.get_of_nodes whole) (h.next?_of_nodes whole)
      (ih (l := l ++ [node]) (by simp [whole]))

/-- Before a point of the list come the cells before it, the nearest first. -/
theorem met_prev (h : Linked a s) (whole : s.nodes = l ++ r) :
    Met a a.prev? (last? l) l.reverse := by
  induction l using List.reverseRecOn generalizing r with
  | nil => exact .stop
  | append_singleton l node ih =>
    have here : s.nodes = l ++ node :: r := by simp [whole]
    rw [Node.last?_concat, List.reverse_concat]
    exact .meet (h.get_of_nodes here) (h.prev?_of_nodes here) (ih here)

theorem next?_of_stale (h : Linked a s) {id : Nat} (stale : id ∉ s.ids) :
    a.next? id = .error (.misuse (.staleInstruction id)) := by
  rw [Arena.next?, h.cell_of_stale stale]
  rfl

theorem prev?_of_stale (h : Linked a s) {id : Nat} (stale : id ∉ s.ids) :
    a.prev? id = .error (.misuse (.staleInstruction id)) := by
  rw [Arena.prev?, h.cell_of_stale stale]
  rfl

theorem findAll (h : Linked a s) (test : Instruction → Bool) :
    a.findAll test = .ok (s.findAll test) := by
  rw [Arena.findAll, h.shows.nodes]
  rfl

theorem findNext (h : Linked a s) (id : Nat) (test : Instruction → Bool) (limit : Nat) :
    a.findNext id test limit = s.findNext id test (some limit) := by
  rcases s.listed_or_stale id with ⟨l, node, r, whole, rfl⟩ | stale
  · have behind := h.met_next (l := l ++ [node]) (r := r) (by simp [whole])
    rw [Arena.findNext, h.next?_of_nodes whole, Sequence.findNext,
      Sequence.split_of_nodes h.distinct whole]
    exact behind.scan test limit
  · rw [Arena.findNext, h.next?_of_stale stale, Sequence.findNext, Sequence.split_of_stale stale]
    rfl

theorem findPrevious (h : Linked a s) (id : Nat) (test : Instruction → Bool) (limit : Nat) :
    a.findPrevious id test limit = s.findPrevious id test (some limit) := by
  rcases s.listed_or_stale id with ⟨l, node, r, whole, rfl⟩ | stale
  · rw [Arena.findPrevious, h.prev?_of_nodes whole, Sequence.findPrevious,
      Sequence.split_of_nodes h.distinct whole]
    exact (h.met_prev whole).scan test limit
  · rw [Arena.findPrevious, h.prev?_of_stale stale, Sequence.findPrevious,
      Sequence.split_of_stale stale]
    rfl

/-- The cells around a cell, in the order of the list. -/
theorem window_of_nodes (h : Linked a s) {node : Node} (whole : s.nodes = l ++ node :: r)
    (before behind : Nat) :
    a.window node.id before behind = .ok ((l.drop (l.length - before)).map Node.id
      ++ node.id :: (r.take behind).map Node.id) := by
  have front := (h.met_prev whole).stretch before
  have back := (h.met_next (l := l ++ [node]) (r := r) (by simp [whole])).stretch behind
  rw [Arena.window, h.prev?_of_nodes whole, h.next?_of_nodes whole]
  simp only [bind, Except.bind, front, back]
  simp [List.take_reverse, ← List.map_reverse]

theorem window_of_stale (h : Linked a s) {id : Nat} (stale : id ∉ s.ids) (before behind : Nat) :
    a.window id before behind = .error (.misuse (.staleInstruction id)) := by
  rw [Arena.window, h.prev?_of_stale stale]
  rfl

theorem leading (h : Linked a s) (id count : Nat) : a.leading id count = s.leading id count := by
  rcases s.listed_or_stale id with ⟨l, node, r, whole, rfl⟩ | stale
  · rw [Arena.leading, h.window_of_nodes whole, Sequence.leading,
      Sequence.split_of_nodes h.distinct whole]
    simp [Except.map]
  · rw [Arena.leading, h.window_of_stale stale, Sequence.leading, Sequence.split_of_stale stale]
    rfl

theorem trailing (h : Linked a s) (id count : Nat) :
    a.trailing id count = s.trailing id count := by
  rcases s.listed_or_stale id with ⟨l, node, r, whole, rfl⟩ | stale
  · rw [Arena.trailing, h.window_of_nodes whole, Sequence.trailing,
      Sequence.split_of_nodes h.distinct whole]
    simp [Except.map]
  · rw [Arena.trailing, h.window_of_stale stale, Sequence.trailing, Sequence.split_of_stale stale]
    rfl

theorem window (h : Linked a s) (id before behind : Nat) :
    a.window id before behind = s.window id before behind := by
  rcases s.listed_or_stale id with ⟨l, node, r, whole, rfl⟩ | stale
  · rw [h.window_of_nodes whole, Sequence.window, Sequence.leading, Sequence.trailing,
      Sequence.split_of_nodes h.distinct whole]
    rfl
  · rw [h.window_of_stale stale, Sequence.window, Sequence.leading, Sequence.split_of_stale stale]
    rfl

theorem between (h : Linked a s) (start finish : Nat) :
    a.between start finish = s.between start finish := by
  rcases s.listed_or_stale start with ⟨l, node, r, whole, rfl⟩ | stale
  · have behind := h.met_next (l := l ++ [node]) (r := r) (by simp [whole])
    have enough : r.length ≤ a.slots.size := by
      have := h.length_le
      simp only [whole, List.length_append, List.length_cons] at this
      omega
    rw [Arena.between, h.next?_of_nodes whole, Sequence.between,
      Sequence.split_of_nodes h.distinct whole]
    exact behind.upTo enough
  · rw [Arena.between, h.next?_of_stale stale, Sequence.between, Sequence.split_of_stale stale]
    rfl

end Linked

end Arena

/-! ### Searches by position -/

namespace Sequence

variable {s : Sequence} {p q : Nat} {node other : Node}

/-- The list around a position. -/
theorem nodes_at (here : s.nodes[p]? = some node) :
    s.nodes = s.nodes.take p ++ node :: s.nodes.drop (p + 1) := by
  obtain ⟨inside, rfl⟩ := List.getElem?_eq_some_iff.1 here
  rw [← List.drop_eq_getElem_cons inside, List.take_append_drop]

theorem split_at (distinct : s.ids.Nodup) (here : s.nodes[p]? = some node) :
    s.split node.id = .ok ⟨s.nodes.take p, node, s.nodes.drop (p + 1)⟩ :=
  split_of_nodes distinct (nodes_at here)

theorem findNext_at (distinct : s.ids.Nodup) (here : s.nodes[p]? = some node)
    (test : Instruction → Bool) (limit : Option Nat) :
    s.findNext node.id test limit = .ok (nearest (s.nodes.drop (p + 1)) test limit) := by
  rw [findNext, split_at distinct here]
  rfl

theorem findPrevious_at (distinct : s.ids.Nodup) (here : s.nodes[p]? = some node)
    (test : Instruction → Bool) (limit : Option Nat) :
    s.findPrevious node.id test limit = .ok (nearest (s.nodes.take p).reverse test limit) := by
  rw [findPrevious, split_at distinct here]
  rfl

/-- A part of a list with a node in it. -/
theorem extract_at {nodes : List Node} (here : nodes[p]? = some node) (first stop : Nat)
    (front : first ≤ p) (back : p < stop) :
    nodes.extract first stop = nodes.extract first p ++ node :: nodes.extract (p + 1) stop := by
  obtain ⟨inside, rfl⟩ := List.getElem?_eq_some_iff.1 here
  have ahead : stop - first = p - first + (stop - p) := by omega
  have one : stop - p = (stop - (p + 1)) + 1 := by omega
  rw [List.extract_eq_take_drop, ahead, List.take_add, List.drop_drop,
    Nat.add_sub_cancel' front, List.drop_eq_getElem_cons inside, one, List.take_succ_cons]

theorem leading_at (distinct : s.ids.Nodup) (here : s.nodes[p]? = some node) (count : Nat) :
    s.leading node.id count = .ok ((s.nodes.extract (p - count) p).map Node.id) := by
  have inside : p < s.nodes.length := (List.getElem?_eq_some_iff.1 here).1
  rw [leading, split_at distinct here]
  simp only [Except.map, List.length_take, Nat.min_eq_left (Nat.le_of_lt inside), List.drop_take]

theorem trailing_at (distinct : s.ids.Nodup) (here : s.nodes[p]? = some node) (count : Nat) :
    s.trailing node.id count
      = .ok ((s.nodes.extract (p + 1) (min (s.nodes.length - 1) (p + count) + 1)).map Node.id) := by
  have inside : p < s.nodes.length := (List.getElem?_eq_some_iff.1 here).1
  rw [trailing, split_at distinct here]
  have same : (s.nodes.drop (p + 1)).take count
      = s.nodes.extract (p + 1) (min (s.nodes.length - 1) (p + count) + 1) := by
    rw [List.extract_eq_take_drop, List.take_eq_take_iff, List.length_drop]
    omega
  simp only [Except.map, same]

theorem window_at (distinct : s.ids.Nodup) (here : s.nodes[p]? = some node) (before behind : Nat) :
    s.window node.id before behind = .ok ((s.nodes.extract (p - before)
      (min (s.nodes.length - 1) (p + behind) + 1)).map Node.id) := by
  have inside : p < s.nodes.length := (List.getElem?_eq_some_iff.1 here).1
  have whole := extract_at here (p - before) (min (s.nodes.length - 1) (p + behind) + 1)
    (Nat.sub_le p before) (by omega)
  rw [window, leading_at distinct here, trailing_at distinct here, whole]
  simp only [bind, Except.bind, List.map_append, List.map_cons]

/-- An identity is on one side of a gap only. -/
theorem not_mem_of_distinct (distinct : s.ids.Nodup) {l r : List Node} (whole : s.nodes = l ++ r)
    {id : Nat} (left : id ∈ l.map Node.id) : id ∉ r.map Node.id := by
  simp only [ids, whole, List.map_append, List.nodup_append] at distinct
  exact fun right => distinct.2.2 id left id right rfl

theorem between_at (distinct : s.ids.Nodup) (here : s.nodes[p]? = some node)
    (there : s.nodes[q]? = some other) :
    s.between node.id other.id
      = .ok (if p < q then some ((s.nodes.extract (p + 1) q).map Node.id) else none) := by
  have cut : s.nodes = s.nodes.take (p + 1) ++ s.nodes.drop (p + 1) :=
    (List.take_append_drop _ _).symm
  rw [between, split_at distinct here]
  simp only [Except.map]
  by_cases later : p < q
  · have far : q < s.nodes.length := (List.getElem?_eq_some_iff.1 there).1
    have behind : s.nodes.drop (p + 1)
        = s.nodes.extract (p + 1) q ++ other :: s.nodes.extract (q + 1) s.nodes.length := by
      rw [← extract_at there (p + 1) s.nodes.length later far, List.extract_eq_take_drop,
        List.take_of_length_le]
      simp
    have front : s.nodes = (s.nodes.take (p + 1) ++ s.nodes.extract (p + 1) q)
        ++ other :: s.nodes.extract (q + 1) s.nodes.length := by
      rw [List.append_assoc, ← behind]
      exact cut
    have passed : ∀ n ∈ s.nodes.extract (p + 1) q, decide (n.id ≠ other.id) = true := by
      intro n mem
      have listed : n.id ∈ (s.nodes.take (p + 1) ++ s.nodes.extract (p + 1) q).map Node.id :=
        List.mem_map_of_mem (List.mem_append_right _ mem)
      have apart := not_mem_of_distinct distinct front listed
      simp only [List.map_cons, List.mem_cons, not_or] at apart
      simpa using apart.1
    rw [if_pos later, behind, List.takeWhile_append_of_pos passed]
    simp
  · -- the other one is not behind this one, because it comes before
    have left : other.id ∈ (s.nodes.take (p + 1)).map Node.id := by
      refine List.mem_map_of_mem (List.mem_of_getElem? (i := q) ?_)
      rw [List.getElem?_take_of_lt (by omega)]
      exact there
    have apart := not_mem_of_distinct distinct cut left
    have missing : (s.nodes.drop (p + 1)).any (·.id == other.id) = false := by
      rw [List.any_eq_false]
      intro n mem same
      exact apart ((beq_iff_eq.1 same) ▸ List.mem_map_of_mem mem)
    rw [missing, if_neg later]
    rfl

end Sequence

namespace Arena

open Sequence (Call)

/-- What the searches of an arena find, said of the list of its nodes. -/
structure Finds (a : Arena) (list : List Node) : Prop where
  /-- All that pass, in the order of the list. -/
  all : ∀ test, a.findAll test = .ok ((list.filter fun node => test node.insn).map Node.id)
  opcode : ∀ op, a.findOpcode op
    = .ok ((list.filter fun node => node.insn.opcode? = some op).map Node.id)
  returns : a.findReturns
    = .ok ((list.filter fun node => node.insn.opcode?.any Opcode.isReturn).map Node.id)
  members : ∀ q : MemberQuery, a.findMembers q.kind q.flags q.number q.pattern
    = .ok ((list.filter fun node => q.Matches node.insn).map Node.id)
  /-- The first of those behind that passes, among as many as there may be. -/
  next : ∀ p node, list[p]? = some node → ∀ test limit, a.findNext node.id test limit
    = .ok ((((list.drop (p + 1)).take limit).find? fun node => test node.insn).map Node.id)
  /-- The last of those before that passes, among as many as there may be. -/
  previous : ∀ p node, list[p]? = some node → ∀ test limit, a.findPrevious node.id test limit
    = .ok ((((list.take p).reverse.take limit).find? fun node => test node.insn).map Node.id)
  nextMember : ∀ p node, list[p]? = some node → ∀ (q : MemberQuery) limit,
    a.findNextMember q.kind node.id q.flags q.number q.pattern limit
      = .ok ((((list.drop (p + 1)).take limit).find? fun node => q.Matches node.insn).map Node.id)
  previousMember : ∀ p node, list[p]? = some node → ∀ (q : MemberQuery) limit,
    a.findPreviousMember q.kind node.id q.flags q.number q.pattern limit
      = .ok ((((list.take p).reverse.take limit).find? fun node => q.Matches node.insn).map Node.id)
  /-- The part of the list around a position that is within both ends. -/
  window : ∀ p node, list[p]? = some node → ∀ before behind, a.window node.id before behind
    = .ok ((list.extract (p - before) (min (list.length - 1) (p + behind) + 1)).map Node.id)
  leading : ∀ p node, list[p]? = some node → ∀ count, a.leading node.id count
    = .ok ((list.extract (p - count) p).map Node.id)
  trailing : ∀ p node, list[p]? = some node → ∀ count, a.trailing node.id count
    = .ok ((list.extract (p + 1) (min (list.length - 1) (p + count) + 1)).map Node.id)
  /-- The nodes strictly between two positions, if the second comes behind the first. -/
  between : ∀ p node q other, list[p]? = some node → list[q]? = some other →
    a.between node.id other.id
      = .ok (if p < q then some ((list.extract (p + 1) q).map Node.id) else none)

/-- Links that spell a list find what there is to find in it. -/
theorem Linked.finds {a : Arena} {s : Sequence} (h : Linked a s) : a.Finds s.nodes where
  all test := h.findAll test
  opcode op := by
    rw [findOpcode, h.findAll, Sequence.findAll]
    simp only [beq_eq_decide]
  returns := by
    rw [findReturns, h.findAll, Sequence.findAll]
    congr 3
    funext node
    rw [Sequence.returns]
    cases node.insn.opcode? <;> rfl
  members q := by
    rw [findMembers, h.findAll, Sequence.findAll]
    simp only [q.decide_matches]
    rfl
  next p node here test limit := by
    rw [h.findNext, Sequence.findNext_at h.distinct here]
    rfl
  previous p node here test limit := by
    rw [h.findPrevious, Sequence.findPrevious_at h.distinct here]
    rfl
  nextMember p node here q limit := by
    rw [findNextMember, h.findNext, Sequence.findNext_at h.distinct here]
    simp only [q.decide_matches]
    rfl
  previousMember p node here q limit := by
    rw [findPreviousMember, h.findPrevious, Sequence.findPrevious_at h.distinct here]
    simp only [q.decide_matches]
    rfl
  window p node here before behind := by
    rw [h.window, Sequence.window_at h.distinct here]
  leading p node here count := by
    rw [h.leading, Sequence.leading_at h.distinct here]
  trailing p node here count := by
    rw [h.trailing, Sequence.trailing_at h.distinct here]
  between p node q other here there := by
    rw [h.between, Sequence.between_at h.distinct here there]

/-- **Searches along the links compute list searches.**  Whatever calls were made on linked cells,
from none on, all views show one list of nodes, and the searches find what there is to find in it,
in its order and by position. -/
theorem finds_run (calls : List Call) :
    ∃ list, (Arena.empty.run calls).2.Shows list ∧ (Arena.empty.run calls).2.Finds list := by
  obtain ⟨s, links⟩ := sound_run calls
  exact ⟨s.nodes, links.shows, links.finds⟩

/-- A limit that falls on the match and one that stops short of it. -/
example :
    let a := (Arena.empty.run [.extend [.label ⟨0⟩, .label ⟨1⟩, .label ⟨2⟩]]).2
    let test : Instruction → Bool := fun insn => insn matches .label ⟨2⟩
    a.findNext 0 test 2 = .ok (some 2) ∧ a.findNext 0 test 1 = .ok none := ⟨rfl, rfl⟩

end Arena

end ClassInstrument
