import ClassInstrument.Proofs.ClassFile.Stability
import ClassInstrument.Proofs.Pipeline.Kept

/-!
# A class that no rule asks for

Phases in which no rule asks for a class do not decode it, so what becomes of it is left to the
host.  All that the pipeline itself has to read is whether the class asks for relocation.

* `Pipeline.Ignores` — no rule asks for a class;
* `Pipeline.outcome_runPhase_ignored` — a phase then does nothing;
* `Pipeline.left_to_host` — **what the host makes of the class is returned** if its annotations can
  be read, whether or not the rest of it can;
* `Pipeline.unreadable_not_left` — nothing is left to the host otherwise.
-/

namespace ClassInstrument

namespace Call

variable {σ α β : Type}

/-- The second of two calls starts where the first one ended. -/
theorem outcome_bind_of_ok {m : Call σ α} {v : α} {state : σ}
    (gives : (m.outcome state).1 = .ok v) (next : α → Call σ β) :
    (m >>= next).outcome state = (next v).outcome (m.outcome state).2 := by
  rw [outcome_bind]
  generalize m.outcome state = ended at gives
  obtain ⟨result, state'⟩ := ended
  subst gives
  rfl

end Call

namespace Pipeline

open Call

variable {σ : Type} (p : Pipeline σ)

/-- No rule asks for the class with some names. -/
def Ignores (name loader : String) : Prop :=
  ∀ rule ∈ p.early ++ p.late, ∀ state, ((rule.handles name loader).outcome state).1 = .ok false

/-! ### Phases -/

section Phase

variable {rules : List (Rule σ)} {name loader : String}
  (ignored : ∀ rule ∈ rules, ∀ state, ((rule.handles name loader).outcome state).1 = .ok false)

include ignored in
theorem outcome_filterAuxM_ignored (front : List (Rule σ)) (state : σ) :
    ((rules.filterAuxM (fun rule => rule.handles name loader) front : Call σ _).outcome state).1
      = .ok front := by
  induction rules generalizing state with
  | nil => rfl
  | cons rule rules ih =>
    refine (congrArg Prod.fst
      (outcome_bind_of_ok (ignored rule List.mem_cons_self state) _)).trans ?_
    exact ih (fun other member => ignored other (List.mem_cons_of_mem _ member)) _

include ignored in
/-- Rules are asked, and none of them applies. -/
theorem outcome_applicable_ignored (state : σ) :
    ((applicable rules name loader).outcome state).1 = .ok [] := by
  have none := outcome_filterAuxM_ignored ignored [] state
  exact (congrArg Prod.fst (outcome_bind_of_ok none fun picked => pure picked.reverse)).trans rfl

include ignored in
/-- A phase in which no rule asks for the class does nothing. -/
theorem outcome_runPhase_ignored (bytes : Bytes) (state : σ) :
    ((p.runPhase rules name loader bytes).outcome state).1 = .ok (false, bytes) := by
  unfold runPhase
  rw [outcome_bind_of_ok (outcome_applicable_ignored ignored state)]
  rfl

end Phase

/-! ### Collaborators whose answer does not matter -/

theorem outcome_dumpIn (modes : List DumpMode) (name : String) (bytes : Bytes) (state : σ) :
    ((p.dumpIn modes name bytes).outcome state).1 = .ok () := by
  unfold dumpIn
  split
  · rfl
  · split <;> rfl

theorem outcome_remember (original made : Bytes) (state : σ) :
    ((p.remember original made).outcome state).1 = .ok () := by
  unfold remember
  split
  · rfl
  · next cache _ =>
    rw [outcome_bind_of_ok (m := (cache.put original made).attempt) rfl]
    rfl

/-- A cache that fails or finds nothing is as good as none. -/
theorem outcome_lookup_unknown {bytes : Bytes} {state : σ}
    (unknown : ∀ cache, p.cache = some cache →
      ∀ found, ((cache.get bytes).outcome state).1 ≠ .ok (some found)) :
    ((p.lookup bytes).outcome state).1 = .ok none := by
  unfold lookup
  split
  · rfl
  · next cache given =>
    rw [outcome_bind_of_ok (m := (cache.get bytes).attempt)
      (v := ((cache.get bytes).outcome state).1) rfl]
    have other := unknown cache given
    cases answer : ((cache.get bytes).outcome state).1 with
    | error e => rfl
    | ok found =>
      cases found with
      | none => rfl
      | some found => exact absurd answer (other found)

/-! ### The way of the class -/

/-- The world in which the host gets a class that no rule asks for: by then a class that is denied
may have been dumped, and for any other one the cache and the early rules were asked. -/
def worldOfHost (name loader : String) (bytes : Bytes) (state : σ) : σ :=
  if p.isDenied name then ((p.dumpIn [.force] name bytes).outcome state).2
  else ((p.runPhase p.early name loader bytes).outcome ((p.lookup bytes).outcome state).2).2

/-- What is returned if the host gets this far: the bytes that it made, unless it cannot be told
from others whether the class asks for relocation. -/
def leftToHost (name : String) (bytes made : Bytes) : Except Failure Outcome :=
  (Relocation.isMarked (if p.isDenied name then made else bytes)).map fun _ => .bytes made

section Process

variable {p} {name loader : String} {bytes made : Bytes} {state : σ}
  (host : ((p.mandatory name loader bytes).outcome (p.worldOfHost name loader bytes state)).1
    = .ok made)

include host in
theorem outcome_processDenied_left (denied : p.isDenied name = true)
    (unmarked : Relocation.isMarked made ≠ .ok true) :
    ((p.processDenied name loader bytes).outcome state).1 = p.leftToHost name bytes made := by
  rw [worldOfHost, if_pos denied] at host
  unfold processDenied leftToHost
  rw [outcome_bind_of_ok (p.outcome_dumpIn _ _ _ _), outcome_bind_of_ok host, if_pos denied]
  cases marked : Relocation.isMarked made with
  | error e => rfl
  | ok relocate =>
    obtain rfl : relocate = false := Bool.eq_false_iff.2 fun same => unmarked (same ▸ marked)
    rfl

include host in
theorem outcome_processFresh_left (allowed : p.isDenied name = false)
    (ignored : p.Ignores name loader) (unmarked : Relocation.isMarked bytes ≠ .ok true) :
    ((p.processFresh name loader bytes).outcome ((p.lookup bytes).outcome state).2).1
      = p.leftToHost name bytes made := by
  obtain ⟨early, late⟩ := List.forall_mem_append.1 ignored
  rw [worldOfHost, allowed, if_neg Bool.false_ne_true] at host
  unfold processFresh leftToHost
  rw [allowed, if_neg Bool.false_ne_true]
  cases marked : Relocation.isMarked bytes with
  | error e => rfl
  | ok relocate =>
    obtain rfl : relocate = false := Bool.eq_false_iff.2 fun same => unmarked (same ▸ marked)
    rw [outcome_bind_of_ok (m := Call.ofExcept (.ok false)) rfl, outcome_ofExcept,
      outcome_bind_of_ok (p.outcome_runPhase_ignored early bytes _)]
    dsimp only
    rw [outcome_bind_of_ok host, if_neg Bool.false_ne_true,
      outcome_bind_of_ok (p.outcome_runPhase_ignored late made _)]
    dsimp only
    rw [Bool.not_false, if_pos rfl, outcome_bind_of_ok (p.outcome_remember _ _ _),
      outcome_bind_of_ok (p.outcome_dumpIn _ _ _ _)]
    rfl

end Process

/-- **A class that no rule asks for is left to the host.**  The first call for its name returns what
the host made of it, byte for byte, as soon as the annotations of the class can be read: those of
the bytes that came in, or for a denied class those of the bytes that the host made.  Nothing else
has to be readable.  If these annotations cannot be read, the call fails with what is wrong with
them. -/
theorem left_to_host {p : Pipeline σ} {name loader : String} {bytes made : Bytes} {claims : Claims}
    {state : σ} (first : claims.contains name = false) (some : bytes ≠ [])
    (unmarked : Relocation.isMarked bytes ≠ .ok true) (ignored : p.Ignores name loader)
    (host : ((p.mandatory name loader bytes).outcome (p.worldOfHost name loader bytes state)).1
      = .ok made)
    (unmarked' : Relocation.isMarked made ≠ .ok true)
    (unknown : ∀ cache, p.cache = .some cache →
      ∀ found, ((cache.get bytes).outcome state).1 ≠ .ok (.some found)) :
    (p.transform name loader bytes claims state).1
      = (Relocation.isMarked (if p.isDenied name then made else bytes)).map
        fun _ => .bytes made := by
  have free : claims.claim name = (true, (claims.claim name).2) := by
    unfold Claims.contains at first
    simp [Claims.claim, first]
  have full : bytes.isEmpty = false := by simpa using some
  unfold transform
  rw [free]
  show ((p.process name loader bytes).outcome state).1 = p.leftToHost name bytes made
  unfold process
  rw [full, if_neg Bool.false_ne_true]
  cases denied : p.isDenied name with
  | true => exact outcome_processDenied_left host denied unmarked'
  | false =>
    rw [if_neg Bool.false_ne_true, outcome_bind_of_ok (p.outcome_lookup_unknown unknown)]
    exact outcome_processFresh_left host denied ignored unmarked

/-! ### Classes that can be read in part, and not at all -/

/-- A pipeline without rules whose host leaves every class as it is. -/
def bystander : Pipeline Unit where
  early := []
  late := []
  mandatory _ _ bytes := pure bytes
  cache := none
  escape _ := id
  dump := none
  denylist := ["a."]
  hierarchy := .flat

/-- A class file that is followed by something else. -/
def trailedHeader : Header where
  minor := 0
  major := 52
  pool := .ofEntries [.utf8 "A", .classRef 1]
  body := [0, 0x21, 0, 2, 0, 0, 0, 0, 0, 0, 0, 0, 0, 0, 0xFF]

/-- It is no class that can be decoded, but its annotations can be read. -/
theorem isMarked_trailed : ∃ bytes, bytes ≠ [] ∧ (∀ c, ClassFile.decode .all bytes ≠ .ok c) ∧
    Relocation.isMarked bytes = .ok false := by
  obtain ⟨bytes, encoded⟩ : ∃ bytes, trailedHeader.encode = .ok bytes := ⟨_, rfl⟩
  have wf : trailedHeader.pool.WellFormed :=
    Pool.WellFormed.empty.foldl_push (by decide) (by decide)
  obtain ⟨pool, -, slots, decoded⟩ := Header.decode_encode wf (by decide) (by decide) encoded
  refine ⟨bytes, ?_, ?_, ?_⟩
  · rintro rfl
    cases decoded
  · intro c
    unfold ClassFile.decode
    rw [decoded]
    obtain ⟨entries, lookup⟩ := pool
    dsimp only at slots
    subst slots
    nofun
  · unfold Relocation.isMarked
    rw [decoded]
    obtain ⟨entries, lookup⟩ := pool
    dsimp only at slots
    subst slots
    rfl

/-- The host gets the class that can be read in part, and what it makes of it is returned. -/
theorem left_to_host_trailed : ∃ bytes, (∀ c, ClassFile.decode .all bytes ≠ .ok c) ∧
    Claims.empty.contains "b.B" = false ∧ bytes ≠ [] ∧ Relocation.isMarked bytes ≠ .ok true ∧
    bystander.Ignores "b.B" "b.B" ∧
    ((bystander.mandatory "b.B" "b.B" bytes).outcome
      (bystander.worldOfHost "b.B" "b.B" bytes ())).1 = .ok bytes ∧
    (bystander.transform "b.B" "b.B" bytes .empty ()).1 = .ok (.bytes bytes) := by
  obtain ⟨bytes, some, unreadable, unmarked⟩ := isMarked_trailed
  have free : Claims.empty.contains "b.B" = false := by simp [Claims.contains, Claims.empty]
  have differs : Relocation.isMarked bytes ≠ .ok true := by
    rw [unmarked]
    simp
  have ignored : bystander.Ignores "b.B" "b.B" := List.forall_mem_nil _
  have unknown : ∀ cache, bystander.cache = Option.some cache →
      ∀ found, ((cache.get bytes).outcome ()).1 ≠ .ok (Option.some found) := by
    intro cache known
    cases known
  refine ⟨bytes, unreadable, free, some, differs, ignored, rfl, ?_⟩
  rw [left_to_host (p := bystander) free some differs ignored rfl differs unknown,
    if_neg (by decide), unmarked]
  rfl

/-- **Bytes that are no class file are not left to the host**, whether or not their name is denied:
the end of the class file is met when its annotations are looked for. -/
theorem unreadable_not_left :
    ((bystander.transform "a.A" "a.A" [1] .empty ()).1 = .error .outOfBounds
      ∧ (bystander.transform "b.B" "b.B" [1] .empty ()).1 = .error .outOfBounds)
    ∧ ¬∀ (p : Pipeline Unit) (name loader : String) (bytes made : Bytes), bytes ≠ [] →
        Relocation.isMarked bytes ≠ .ok true → p.Ignores name loader →
        (∀ state, ((p.mandatory name loader bytes).outcome state).1 = .ok made) →
        Relocation.isMarked made ≠ .ok true → p.cache = none →
        (p.transform name loader bytes .empty ()).1 = .ok (.bytes made) := by
  have fails : ∀ name, (bystander.transform name name [1] .empty ()).1 = .error .outOfBounds := by
    intro name
    have free : Claims.empty.claim name = (true, (Claims.empty.claim name).2) := by
      simp [Claims.claim, Claims.empty]
    unfold transform
    rw [free]
    show ((if bystander.isDenied name then _ else _ : Call Unit Outcome).outcome ()).1 = _
    split <;> rfl
  refine ⟨⟨fails _, fails _⟩, fun left => ?_⟩
  have unmarked : Relocation.isMarked [1] ≠ .ok true := by
    show Except.error _ ≠ _
    simp
  have returned := left bystander "b.B" "b.B" [1] [1] (List.cons_ne_nil _ _) unmarked
    (List.forall_mem_nil _) (fun _ => rfl) unmarked rfl
  rw [fails] at returned
  cases returned

end Pipeline

end ClassInstrument
