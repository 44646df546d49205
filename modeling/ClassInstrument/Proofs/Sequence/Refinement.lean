import ClassInstrument.Proofs.Sequence.Views

/-!
# The linked storage refines the list

Whatever calls are made on linked cells, starting from none, the answers are those that a plain
list of nodes gives, and afterwards all views show that list.

* `Sequence.Advances` — what a call can do to the numbering of a list, from which follow the
  identities and labels of a run;
* `Arena.Linked.run` — a run on the links and on the list, side by side;
* `Arena.run_refines` — the whole: answers, views, identities, labels and refusals;
* `Arena.run_limits` — what happens at the limits: nothing is asked of an anchor when there is
  nothing to insert, and there are `UInt32.size` identities and labels.
-/

namespace ClassInstrument

namespace Sequence

/-! ### Numbering -/

/-- The identities that an answer hands out. -/
def Answer.ids : Except Failure Answer → List Nat
  | .ok (.node id) => [id]
  | .ok (.nodes ids) => ids
  | _ => []

/-- The label that an answer hands out. -/
def Answer.label? : Except Failure Answer → Option Label
  | .ok (.label fresh) => some fresh
  | _ => none

/-- What an answer and the list behind it can be, as far as the numbering goes: what is new has
the numbers from the counters on. -/
structure Advances (s : Sequence) (answers : List (Except Failure Answer)) (t : Sequence) :
    Prop where
  nextId : s.nextId ≤ t.nextId
  labelCount : s.labelCount ≤ t.labelCount
  listed : ∀ id ∈ t.ids, id ∈ s.ids ∨ s.nextId ≤ id
  handed : (answers.flatMap Answer.ids).Sublist (List.range' s.nextId (t.nextId - s.nextId))
  drawn : (answers.filterMap Answer.label?).map Label.index
    = List.range' s.labelCount (t.labelCount - s.labelCount)

namespace Advances

variable {s t u : Sequence} {xs ys : List (Except Failure Answer)}

theorem refl (s : Sequence) : s.Advances [] s :=
  ⟨Nat.le_refl _, Nat.le_refl _, fun _ => .inl, by simp, by simp⟩

theorem trans (first : s.Advances xs t) (second : t.Advances ys u) : s.Advances (xs ++ ys) u where
  nextId := Nat.le_trans first.nextId second.nextId
  labelCount := Nat.le_trans first.labelCount second.labelCount
  listed id mem := by
    rcases second.listed id mem with old | new
    · exact first.listed id old
    · exact .inr (Nat.le_trans first.nextId new)
  handed := by
    have := first.handed.append second.handed
    have ends : s.nextId + (t.nextId - s.nextId) = t.nextId := by have := first.nextId; omega
    have whole : t.nextId - s.nextId + (u.nextId - t.nextId) = u.nextId - s.nextId := by
      have := first.nextId; have := second.nextId; omega
    rw [List.flatMap_append, ← whole, ← List.range'_append_1, ends]
    exact this
  drawn := by
    have ends : s.labelCount + (t.labelCount - s.labelCount) = t.labelCount := by
      have := first.labelCount; omega
    have whole : t.labelCount - s.labelCount + (u.labelCount - t.labelCount)
        = u.labelCount - s.labelCount := by
      have := first.labelCount; have := second.labelCount; omega
    rw [List.filterMap_append, List.map_append, first.drawn, second.drawn, ← whole,
      ← List.range'_append_1, ends]

end Advances

theorem map_id_number (first : Nat) (insns : List Instruction) :
    (number first insns).map Node.id = List.range' first insns.length := by
  induction insns generalizing first with
  | nil => rfl
  | cons insn insns ih => simp [number_cons, ih, List.range'_succ]

/-! ### Calls on lists -/

variable {s t : Sequence}

/-- The list around a node, cut behind it. -/
theorem around_of_split {id : Nat} {parts : Split} (found : s.split id = .ok parts) :
    s.nodes = (parts.before ++ [parts.node]) ++ parts.behind := by
  simp [(split_eq_ok found).1]

/-- A call that fails, or changes nodes without adding any. -/
theorem advances_of_kept {answer : Except Failure Answer} (nextId : t.nextId = s.nextId)
    (labelCount : t.labelCount = s.labelCount) (listed : ∀ id ∈ t.ids, id ∈ s.ids)
    (ids : Answer.ids answer = []) (label : Answer.label? answer = none) :
    s.Advances [answer] t where
  nextId := Nat.le_of_eq nextId.symm
  labelCount := Nat.le_of_eq labelCount.symm
  listed id mem := .inl (listed id mem)
  handed := by simp [ids]
  drawn := by simp [label, labelCount]

/-- A call that adds instructions. -/
theorem advances_of_added {answer : Except Failure Answer} (insns : List Instruction)
    (nextId : t.nextId = s.nextId + insns.length) (labelCount : t.labelCount = s.labelCount)
    (listed : ∀ id ∈ t.ids, id ∈ s.ids ∨ id ∈ (number s.nextId insns).map Node.id)
    (ids : (Answer.ids answer).Sublist ((number s.nextId insns).map Node.id))
    (label : Answer.label? answer = none) :
    s.Advances [answer] t where
  nextId := by omega
  labelCount := Nat.le_of_eq labelCount.symm
  listed id mem := by
    refine (listed id mem).imp_right fun new => ?_
    rw [map_id_number, List.mem_range'_1] at new
    exact new.1
  handed := by simpa [nextId, ← map_id_number] using ids
  drawn := by simp [label, labelCount]

theorem mem_ids_of_added {front rear added : List Node} (whole : s.nodes = front ++ rear)
    (grown : t.nodes = front ++ (added ++ rear)) :
    ∀ id ∈ t.ids, id ∈ s.ids ∨ id ∈ added.map Node.id := by
  intro id mem
  simp only [ids, whole, grown, List.map_append] at mem ⊢
  grind

/-- A call on an identity that is not listed. -/
theorem advances_of_stale {id : Nat} (stale : id ∉ s.ids) {call : Call}
    (target : call.target? = some id) : s.Advances [(s.step call).1] (s.step call).2 := by
  rw [step_of_stale stale target]
  exact advances_of_kept rfl rfl (fun _ mem => mem) rfl rfl

/-- What is said of an insertion, whatever its answer shows of the new identities. -/
theorem advances_insertion {call : Call} (insns : List Instruction) {answer : Answer}
    {front rear nodes : List Node} (whole : s.nodes = front ++ rear)
    (told : s.serve call = .ok (answer, { s with nodes, nextId := s.nextId + insns.length }))
    (grown : nodes = front ++ (number s.nextId insns ++ rear))
    (ids : (Answer.ids (.ok answer)).Sublist ((number s.nextId insns).map Node.id))
    (label : Answer.label? (.ok answer) = none) :
    s.Advances [(s.step call).1] (s.step call).2 := by
  rw [step, told]
  exact advances_of_added insns rfl rfl (mem_ids_of_added whole grown) ids label

/-- What is said of another instruction in the place of a node's. -/
theorem advances_replacement {call : Call} {id : Nat} {parts : Split} {insn : Instruction}
    {answer : Answer} (found : s.split id = .ok parts)
    (told : s.serve call
      = .ok (answer, { s with nodes := parts.before ++ ⟨id, insn⟩ :: parts.behind }))
    (ids : Answer.ids (.ok answer) = []) (label : Answer.label? (.ok answer) = none) :
    s.Advances [(s.step call).1] (s.step call).2 := by
  rw [step, told]
  refine advances_of_kept rfl rfl (fun other mem => ?_) ids label
  simpa [Sequence.ids, (split_eq_ok found).1, (split_eq_ok found).2] using mem

/-- A call does to the numbering what it can do. -/
theorem advances_step (s : Sequence) (call : Call) :
    s.Advances [(s.step call).1] (s.step call).2 := by
  cases call with
  | pushBack insn =>
    exact advances_of_added [insn] rfl rfl
      (by simp [step, serve, pushBack, append, ids])
      (by simp [step, serve, pushBack, Answer.ids, number]) rfl
  | pushFront insn =>
    exact advances_of_added [insn] rfl rfl
      (by simp [step, serve, pushFront, ids, number, or_comm])
      (by simp [step, serve, pushFront, Answer.ids, number]) rfl
  | insertAfter anchor insn =>
    rcases s.split_or_stale anchor with ⟨parts, found⟩ | stale
    · exact advances_insertion [insn] (around_of_split found) (serve_insertAfter found insn)
        (by simp) (List.Sublist.refl _) rfl
    · exact advances_of_stale stale rfl
  | insertBefore anchor insn =>
    rcases s.split_or_stale anchor with ⟨parts, found⟩ | stale
    · exact advances_insertion [insn] (split_eq_ok found).1 (serve_insertBefore found insn)
        (by simp) (List.Sublist.refl _) rfl
    · exact advances_of_stale stale rfl
  | insertAllAfter anchor insns =>
    rcases s.split_or_stale anchor with ⟨parts, found⟩ | stale
    · exact advances_insertion insns (around_of_split found) (serve_insertAllAfter found insns)
        (by simp) (List.Sublist.refl _) rfl
    · cases insns with
      | nil => exact advances_of_kept rfl rfl (fun _ => id) rfl rfl
      | cons insn insns => exact advances_of_stale stale rfl
  | insertAllBefore anchor insns =>
    rcases s.split_or_stale anchor with ⟨parts, found⟩ | stale
    · exact advances_insertion insns (split_eq_ok found).1 (serve_insertAllBefore found insns)
        (by simp) (List.Sublist.refl _) rfl
    · cases insns with
      | nil => exact advances_of_kept rfl rfl (fun _ => id) rfl rfl
      | cons insn insns => exact advances_of_stale stale rfl
  | extend insns =>
    exact advances_of_added insns rfl rfl
      (by simp [step, serve, append, ids]) (List.nil_sublist _) rfl
  | remove id =>
    rcases s.split_or_stale id with ⟨parts, found⟩ | stale
    · rw [step, serve_remove found]
      refine advances_of_kept rfl rfl (fun other mem => ?_) rfl rfl
      simp only [ids, (split_eq_ok found).1, List.map_append, List.map_cons] at mem ⊢
      grind
    · exact advances_of_stale stale rfl
  | replace id insn =>
    rcases s.split_or_stale id with ⟨parts, found⟩ | stale
    · exact advances_replacement found (serve_replace found insn) rfl rfl
    · exact advances_of_stale stale rfl
  | write id insn =>
    rcases s.split_or_stale id with ⟨parts, found⟩ | stale
    · exact advances_replacement found (serve_write found insn) rfl rfl
    · exact advances_of_stale stale rfl
  | newLabel =>
    exact ⟨Nat.le_refl _, Nat.le_succ _, fun _ => .inl, by simp [step, serve, Answer.ids],
      by simp [step, serve, newLabel, Answer.label?]⟩

/-- A run does to the numbering what its calls do. -/
theorem advances_run (s : Sequence) (calls : List Call) :
    s.Advances (s.run calls).1 (s.run calls).2 := by
  induction calls generalizing s with
  | nil => exact .refl s
  | cons call calls ih => exact (s.advances_step call).trans (ih _)

theorem run_append (s : Sequence) (xs ys : List Call) :
    (s.run (xs ++ ys)).2 = ((s.run xs).2.run ys).2 := by
  induction xs generalizing s with
  | nil => rfl
  | cons call xs ih => exact ih _

end Sequence

namespace Arena

open Sequence (Call Answer)

/-! ### Runs -/

/-- The links and the list answer a run alike, and still spell the same nodes afterwards. -/
theorem Linked.run {a : Arena} {s : Sequence} (h : Linked a s) (calls : List Call)
    (ids : (s.run calls).2.nextId ≤ UInt32.size)
    (labels : (s.run calls).2.labelCount ≤ UInt32.size) :
    (a.run calls).1 = (s.run calls).1 ∧ Linked (a.run calls).2 (s.run calls).2 := by
  induction calls generalizing a s with
  | nil => exact ⟨rfl, h⟩
  | cons call calls ih =>
    -- numbers only grow, so the limits at the end are limits at each step
    have later := (s.step call).2.advances_run calls
    obtain ⟨answered, links⟩ := h.step call (Nat.le_trans later.nextId ids)
      (Nat.le_trans later.labelCount labels)
    obtain ⟨rest, links⟩ := ih links ids labels
    exact ⟨by rw [Arena.run, Sequence.run, answered, rest], links⟩

/-- The links spell the list all along a run that stays within the limits. -/
theorem linked_of_prefix {calls : List Call} (early late : List Call) (whole : calls = early ++ late)
    (ids : (Sequence.empty.run calls).2.nextId ≤ UInt32.size)
    (labels : (Sequence.empty.run calls).2.labelCount ≤ UInt32.size) :
    Linked (Arena.empty.run early).2 (Sequence.empty.run early).2 := by
  rw [whole, Sequence.run_append] at ids labels
  have later := (Sequence.empty.run early).2.advances_run late
  exact (Linked.empty.run early (Nat.le_trans later.nextId ids)
    (Nat.le_trans later.labelCount labels)).2

theorem Linked.contains_eq_false {a : Arena} {s : Sequence} (h : Linked a s) {id : Nat} :
    a.contains id = false ↔ id ∉ s.ids := by
  rw [← h.isSome_cell? id, Arena.contains, Bool.not_eq_true]

/-- Linked cells are a list of nodes.  After any calls, from no cells on and within the limits of
32-bit identities and labels: each call was answered as the list answers it; all views show the
list; no two identities and no two labels that were handed out are the same, and an identity that
went does not come back; and an identity that is not live is refused, which changes nothing. -/
theorem run_refines (calls : List Call)
    (ids : (Sequence.empty.run calls).2.nextId ≤ UInt32.size)
    (labels : (Sequence.empty.run calls).2.labelCount ≤ UInt32.size) :
    (Arena.empty.run calls).1 = (Sequence.empty.run calls).1
      ∧ (Arena.empty.run calls).2.Shows (Sequence.empty.run calls).2.nodes
      ∧ ((Arena.empty.run calls).1.flatMap Answer.ids).Nodup
      ∧ (∀ early between late id, calls = early ++ between ++ late →
          (Arena.empty.run early).2.contains id = true →
          (Arena.empty.run (early ++ between)).2.contains id = false →
          (Arena.empty.run calls).2.contains id = false)
      ∧ ((Arena.empty.run calls).1.filterMap Answer.label?).Nodup
      ∧ ∀ id, (Arena.empty.run calls).2.contains id = false →
          (∀ call : Call, call.target? = some id →
            (Arena.empty.run calls).2.step call
              = (.error (.misuse (.staleInstruction id)), (Arena.empty.run calls).2))
          ∧ (Arena.empty.run calls).2.get id = .error (.misuse (.staleInstruction id))
          ∧ (Arena.empty.run calls).2.next? id = .error (.misuse (.staleInstruction id))
          ∧ (Arena.empty.run calls).2.prev? id = .error (.misuse (.staleInstruction id))
          ∧ (Arena.empty.run calls).2.position id = .error (.misuse (.staleInstruction id)) := by
  obtain ⟨answered, links⟩ := Linked.empty.run calls ids labels
  have numbered := Sequence.empty.advances_run calls
  refine ⟨answered, links.shows, ?_, ?_, ?_, fun id stale => ⟨fun call target => ?_, ?_⟩⟩
  · rw [answered]
    exact List.Nodup.sublist numbered.handed List.nodup_range'
  · intro early between late id whole was gone
    have first := linked_of_prefix early (between ++ late) (by simp [whole])
      ids labels
    have second := linked_of_prefix (early ++ between) late whole ids labels
    have middle := (Sequence.empty.run early).2.advances_run between
    have last := (Sequence.empty.run (early ++ between)).2.advances_run late
    rw [← Sequence.run_append] at middle last
    rw [← whole] at last
    -- it was below the counter when it was listed, and what comes later is not
    have below := first.lt_nextId ((first.isSome_cell? id).1 was)
    refine links.contains_eq_false.2 fun back => ?_
    rcases last.listed id back with old | new
    · exact second.contains_eq_false.1 gone old
    · exact absurd (Nat.lt_of_lt_of_le below (Nat.le_trans middle.nextId new)) (Nat.lt_irrefl _)
  · rw [answered]
    refine List.Nodup.of_map Label.index ?_
    rw [numbered.drawn]
    exact List.nodup_range'
  · exact step_of_stale stale target
  · exact read_of_stale stale

/-- Calls of all kinds, two of them on a node that was removed. -/
def mixedCalls : List Call :=
  [.pushBack (.label ⟨0⟩), .pushFront (.label ⟨1⟩), .insertAfter 0 (.label ⟨2⟩), .remove 0,
    .insertBefore 0 (.label ⟨3⟩), .newLabel, .insertAllBefore 2 [.label ⟨4⟩, .label ⟨5⟩],
    .extend [.label ⟨6⟩], .write 0 (.label ⟨7⟩), .replace 4 (.label ⟨8⟩), .newLabel]

/-- What the calls leave: the nodes in their order, with the identities in which they came. -/
theorem run_refines_mixed :
    (Sequence.empty.run mixedCalls).2.nextId ≤ UInt32.size
      ∧ (Sequence.empty.run mixedCalls).2.labelCount ≤ UInt32.size
      ∧ (Arena.empty.run mixedCalls).2.Shows
          [⟨1, .label ⟨1⟩⟩, ⟨3, .label ⟨4⟩⟩, ⟨4, .label ⟨8⟩⟩, ⟨2, .label ⟨2⟩⟩, ⟨5, .label ⟨6⟩⟩]
      ∧ (Arena.empty.run mixedCalls).2.get 0 = .error (.misuse (.staleInstruction 0)) := by
  have ids : (Sequence.empty.run mixedCalls).2.nextId ≤ UInt32.size := by decide
  have labels : (Sequence.empty.run mixedCalls).2.labelCount ≤ UInt32.size := by decide
  obtain ⟨-, shows, -, -, -, stale⟩ := run_refines mixedCalls ids labels
  exact ⟨ids, labels, shows, (stale 0 rfl).2.1⟩

/-! ### Limits -/

theorem nextId_run_pushBack (s : Sequence) (insn : Instruction) (count : Nat) :
    (s.run (List.replicate count (.pushBack insn))).2.nextId = s.nextId + count
      ∧ (s.run (List.replicate count (.pushBack insn))).2.labelCount = s.labelCount := by
  induction count generalizing s with
  | zero => exact ⟨rfl, rfl⟩
  | succ count ih =>
    obtain ⟨ids, labels⟩ := ih (s.step (.pushBack insn)).2
    have one : (s.step (.pushBack insn)).2.nextId = s.nextId + 1 := rfl
    exact ⟨by rw [List.replicate_succ, Sequence.run, ids, one]; omega, labels⟩

theorem labelCount_run_newLabel (s : Sequence) (count : Nat) :
    (s.run (List.replicate count .newLabel)).2.labelCount = s.labelCount + count
      ∧ (s.run (List.replicate count .newLabel)).2.nextId = s.nextId := by
  induction count generalizing s with
  | zero => exact ⟨rfl, rfl⟩
  | succ count ih =>
    obtain ⟨labels, ids⟩ := ih (s.step .newLabel).2
    have one : (s.step .newLabel).2.labelCount = s.labelCount + 1 := rfl
    exact ⟨by rw [List.replicate_succ, Sequence.run, labels, one]; omega, ids⟩

theorem step_pushBack_full {a : Arena} (full : a.slots.size = UInt32.size) (insn : Instruction) :
    (a.step (.pushBack insn)).1 = .error (.misuse .arenaFull) := by
  have refused : allocate insn a.last none a = .error (.misuse .arenaFull) a := by
    rw [allocate, bind_ok getThe_ok, if_neg (by omega)]
    rfl
  have whole : pushBack insn a = .error (.misuse .arenaFull) a := by
    rw [pushBack, bind_ok getThe_ok]
    exact bind_error refused
  simp only [step, serve, map_error whole]

/-- At the limits linked cells are not a list.  An identity that was never given out is no
obstacle where there is nothing to insert; an instruction is refused when all identities are used
up; and behind the last label comes the first again. -/
theorem run_limits :
    (Arena.empty.contains 7 = false
        ∧ Arena.empty.step (.insertAllAfter 7 []) = (.ok (.nodes []), Arena.empty)
        ∧ Arena.empty.step (.insertAllBefore 7 []) = (.ok (.nodes []), Arena.empty))
      ∧ ((Arena.empty.run (List.replicate UInt32.size (.pushBack (.label ⟨0⟩)))).2.step
          (.pushBack (.label ⟨0⟩))).1 = .error (.misuse .arenaFull)
      ∧ (Arena.empty.step .newLabel).1 = .ok (.label ⟨0⟩)
      ∧ ((Arena.empty.run (List.replicate UInt32.size .newLabel)).2.step .newLabel).1
          = .ok (.label ⟨0⟩) := by
  refine ⟨⟨rfl, rfl, rfl⟩, ?_, rfl, ?_⟩
  · obtain ⟨ids, labels⟩ := nextId_run_pushBack .empty (.label ⟨0⟩) UInt32.size
    have links := (Linked.empty.run _ (by rw [ids]; simp [Sequence.empty])
      (by rw [labels]; simp [Sequence.empty])).2
    exact step_pushBack_full (by rw [links.size, ids]; simp [Sequence.empty]) _
  · obtain ⟨labels, ids⟩ := labelCount_run_newLabel .empty UInt32.size
    have links := (Linked.empty.run _ (by rw [ids]; simp [Sequence.empty])
      (by rw [labels]; simp [Sequence.empty])).2
    have wrapped := links.labels
    rw [labels, show Sequence.empty.labelCount + UInt32.size = UInt32.size from rfl] at wrapped
    change Except.ok (Answer.label ⟨(Arena.empty.run _).2.labels.toNat⟩) = _
    rw [wrapped]
    rfl

end Arena

end ClassInstrument
