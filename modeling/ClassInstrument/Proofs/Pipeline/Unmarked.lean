import ClassInstrument.Host.Basic
import ClassInstrument.Proofs.ClassFile.Clean
import ClassInstrument.Proofs.Pipeline.Recorded

/-!
# Relocated classes lose their marker

A class that asks for relocation is handed out without the annotation that asks for it, and without
the annotations by which its methods ask to be inlined, whatever rules and the host do in between:
the rule that takes them off comes last, and what it took off does not come back when the class is
written.

* `Rule.Orderly` — a rule that reports what it changes, and adds nothing that could not be read
  again or that would be taken for something else;
* `Relocation.Unmarked` — bytes in which nobody sees these annotations;
* `Relocation.unmarked_of_decode`, `Relocation.unmarked_of_encode` — a class without them, as it was
  read and as it is written;
* `Pipeline.relocated_unmarked` — every class that is handed out on the way of a marked class.
-/

namespace ClassInstrument

open Call Contact

/-! ### Rules -/

/-- All annotations of a class and its methods. -/
def ClassFile.allAnnotations (c : ClassFile) : List Annotation :=
  c.annotations.toList ++ c.methods.flatMap fun m => m.annotations.toList

/-- The attributes that a class is not given as bytes. -/
def Attribute.reserved : List String :=
  [Code.attributeName, BootstrapTable.attributeName, Annotations.visibleName,
    Annotations.invisibleName]

/-- A change of a class in which the version stays supported, every new annotation can be read
again, and no new attribute is taken for something else.  The constants stay ones that a class was
read with. -/
structure ClassFile.OrderlyChange (c c' : ClassFile) : Prop where
  constants : c.constants.Original → c'.constants.Original
  version : Header.oldestMajor ≤ c.major ∧ c.major ≤ Header.newestMajor →
    Header.oldestMajor ≤ c'.major ∧ c'.major ≤ Header.newestMajor
  annotations : ∀ a ∈ c'.allAnnotations, a ∈ c.allAnnotations ∨ a.Readable
  attributes : ∀ a ∈ c'.attributes, a ∈ c.attributes ∨ a.name ∉ Attribute.reserved
  methodAttributes : ∀ m' ∈ c'.methods, ∀ a ∈ m'.attributes,
    (∃ m ∈ c.methods, a ∈ m.attributes) ∨ a.name ∉ Attribute.reserved

/-- A rule that reports every change that it makes, and makes orderly changes only. -/
structure Rule.Orderly {σ : Type} (rule : Rule σ) : Prop where
  reports : ∀ draft state draft', ((rule.rewrite draft).outcome state).1 = .ok (false, draft') →
    draft'.unit = draft.unit
  orderly : ∀ draft state changed draft',
    ((rule.rewrite draft).outcome state).1 = .ok (changed, draft') →
      draft.unit.OrderlyChange draft'.unit

namespace ClassFile

theorem kept_of_not_reserved {a : Attribute} (h : a.name ∉ Attribute.reserved) :
    a.roleInClass .all = .kept ∧ a.roleInMethod .all = .kept := by
  simp only [Attribute.reserved, List.mem_cons, List.not_mem_nil, or_false, not_or] at h
  obtain ⟨code, bootstrap, visible, invisible⟩ := h
  simp [Attribute.roleInClass, Attribute.roleInMethod, ReadOptions.all, code, bootstrap, visible,
    invisible]

theorem readable_allAnnotations {c : ClassFile} (h : c.Clean) :
    ∀ a ∈ c.allAnnotations, a.Readable := by
  intro a member
  rcases List.mem_append.1 member with own | inside
  · exact h.annotations a own
  · obtain ⟨m, inside, member⟩ := List.mem_flatMap.1 inside
    exact h.methodAnnotations m inside a member

/-- Orderly changes keep classes clean. -/
theorem OrderlyChange.clean {c c' : ClassFile} (change : c.OrderlyChange c') (h : c.Clean) :
    c'.Clean := by
  have readable : ∀ a ∈ c'.allAnnotations, a.Readable := fun a member =>
    (change.annotations a member).elim (readable_allAnnotations h a) id
  obtain ⟨old, new⟩ := change.version ⟨h.old, h.new⟩
  refine ⟨change.constants h.constants, old, new,
    fun a member => readable a (List.mem_append_left _ member), fun a member => ?_,
    fun m inside a member => readable a (List.mem_append_right _
      (List.mem_flatMap.2 ⟨m, inside, member⟩)), fun m inside a member => ?_⟩
  · exact (change.attributes a member).elim (h.attributes a) fun other =>
      (kept_of_not_reserved other).1
  · rcases change.methodAttributes m inside a member with ⟨m, inside, member⟩ | other
    · exact h.methodAttributes m inside a member
    · exact (kept_of_not_reserved other).2

end ClassFile

/-! ### Taking the marker off -/

namespace Annotations

variable {a : Annotations} {desc target : String}

theorem has_removeType : (a.removeType desc).2.has desc = false := by
  simp [removeType, keep, has, toList]

theorem has_of_unremoved (h : (a.removeType desc).1 = false) : a.has desc = false := by
  simpa [removeType, keep, has] using h

theorem has_renameType (different : target ≠ desc) :
    (a.renameType desc target).2.has desc = false := by
  have renamed : ∀ x : Annotation,
      ((if x.desc == desc then { x with desc := target } else x).desc == desc) = false := by
    intro x
    split
    · exact beq_eq_false_iff_ne.2 different
    · next other => exact Bool.eq_false_iff.2 other
  refine List.any_eq_false.2 fun y member => ?_
  simp only [renameType, toList, ← List.map_append] at member
  obtain ⟨x, -, rfl⟩ := List.mem_map.1 member
  exact Bool.eq_false_iff.1 (renamed x)

theorem readable_removeType (h : ∀ x ∈ a.toList, x.Readable) :
    ∀ x ∈ (a.removeType desc).2.toList, x.Readable := by
  intro x member
  refine h x ?_
  simp only [removeType, keep, toList, ← List.filter_append] at member
  exact (List.mem_filter.1 member).1

theorem readable_renameType (h : ∀ x ∈ a.toList, x.Readable) :
    ∀ x ∈ (a.renameType desc target).2.toList, x.Readable := by
  intro x member
  simp only [renameType, toList, ← List.map_append] at member
  obtain ⟨y, inside, rfl⟩ := List.mem_map.1 member
  have readable := h y inside
  split
  · exact ⟨readable.tagged, readable.shallow⟩
  · exact readable

end Annotations

namespace Relocation

/-- A class without the annotations that ask for relocation and for inlining. -/
structure Plain (c : ClassFile) : Prop where
  marker : c.annotations.has marker = false
  inlineMarker : ∀ m ∈ c.methods, m.annotations.has inlineMarker = false

theorem mem_methods_rewrite {d : Draft} {m : Method} (h : m ∈ (rewrite d).2.unit.methods) :
    ∃ before ∈ d.unit.methods, m = (promote before).2 := by
  obtain ⟨promoted, member, rfl⟩ := List.mem_map.1 h
  obtain ⟨before, inside, rfl⟩ := List.mem_map.1 member
  exact ⟨before, inside, rfl⟩

theorem plain_rewrite (d : Draft) : Plain (rewrite d).2.unit where
  marker := Annotations.has_removeType
  inlineMarker m member := by
    obtain ⟨before, -, rfl⟩ := mem_methods_rewrite member
    exact Annotations.has_renameType (by decide)

/-- If nothing was taken off, there was nothing. -/
theorem plain_of_unchanged {d : Draft} (h : (rewrite d).1 = false) : Plain d.unit := by
  obtain ⟨unmarked, unpromoted⟩ := Bool.or_eq_false_iff.1 h
  refine ⟨Annotations.has_of_unremoved unmarked, fun m member => ?_⟩
  have changed := List.any_eq_false.1 unpromoted (promote m) (List.mem_map_of_mem member)
  exact Bool.eq_false_iff.2 changed

theorem clean_rewrite {d : Draft} (h : d.unit.Clean) : (rewrite d).2.unit.Clean := by
  refine ⟨h.constants, h.old, h.new, Annotations.readable_removeType h.annotations, h.attributes,
    fun m member => ?_, fun m member => ?_⟩
  · obtain ⟨before, inside, rfl⟩ := mem_methods_rewrite member
    exact Annotations.readable_renameType (h.methodAnnotations before inside)
  · obtain ⟨before, inside, rfl⟩ := mem_methods_rewrite member
    exact h.methodAttributes before inside

/-- Bytes in which nobody sees the annotations: the header scan succeeds without the marker, and
whatever class is decoded has no method that asks to be inlined. -/
structure Unmarked (bytes : Bytes) : Prop where
  scanned : ∃ header types, Header.decode bytes = .ok header ∧
    header.annotationTypes = .ok types ∧ Relocation.marker ∉ types
  decoded : ∀ options c, ClassFile.decode options bytes = .ok c →
    ∀ m ∈ c.methods, m.annotations.has Relocation.inlineMarker = false

/-- The parts of a class decide what is seen. -/
theorem unmarked_of_parts {bytes : Bytes} {header : Header} {s : ClassSkeleton} {c : ClassFile}
    (decoded : Header.decode bytes = .ok header)
    (parts : (ClassSkeleton.decoder header.pool).onBytes header.body = .ok s)
    (own : s.attributes.foldlM (Annotations.ofAttribute header.pool) .empty = .ok c.annotations)
    (members : s.members.mapM (fun member => member.attributes.foldlM
      (Annotations.ofAttribute header.pool) .empty) = .ok (c.methods.map Method.annotations))
    (plain : Plain c) : Unmarked bytes where
  scanned := by
    obtain ⟨types, scanned, same⟩ := Header.annotationTypes_eq parts own
    refine ⟨header, types, decoded, scanned, fun member => ?_⟩
    have seen := same Relocation.marker
    rw [plain.marker, List.contains_iff_mem.2 member] at seen
    cases seen
  decoded := by
    intro options c' read m member
    obtain ⟨header', s', decoded', parts', made⟩ := ClassSkeleton.exists_of_decode read
    cases decoded.symm.trans decoded'
    cases parts.symm.trans parts'
    have again := Annotations.ofMembers_of_interpret made
    rw [members] at again
    have listed : m.annotations ∈ c.methods.map Method.annotations :=
      Except.ok.inj again ▸ List.mem_map_of_mem member
    obtain ⟨before, inside, same⟩ := List.mem_map.1 listed
    exact same ▸ plain.inlineMarker before inside

/-- A class without the annotations, as it was read. -/
theorem unmarked_of_decode {bytes : Bytes} {c : ClassFile} (read : ClassFile.decode .all bytes = .ok c)
    (plain : Plain c) : Unmarked bytes := by
  obtain ⟨header, s, decoded, parts, made⟩ := ClassSkeleton.exists_of_decode read
  exact unmarked_of_parts decoded parts (Annotations.ofAttributes_of_interpret made)
    (Annotations.ofMembers_of_interpret made) plain

/-- A clean class without the annotations, as it is written. -/
theorem unmarked_of_encode {c : ClassFile} (clean : c.Clean) {hierarchy : Hierarchy}
    {options : EncodeOptions} {bytes : Bytes} (written : c.encode hierarchy options = .ok bytes)
    (plain : Plain c) : Unmarked bytes := by
  obtain ⟨tables, header, s, bootstrap, encoded⟩ :=
    ClassFile.encoded_of_encode clean.constants.wellFormed clean.old clean.new written
  obtain ⟨own, members⟩ := encoded.annotations clean
  exact unmarked_of_parts encoded.decoded encoded.parts.onBytes own members plain

end Relocation

namespace Pipeline

variable {σ : Type} {p : Pipeline σ}

/-- The rule for classes that are relocated is asked last, and asks for every class. -/
theorem applicable_relocation (rules : List (Rule σ)) (name loader : String) :
    applicable (rules ++ [Relocation.rule]) name loader = do
      let asking ← applicable rules name loader
      return asking ++ [Relocation.rule] := by
  have picked : ∀ front : List (Rule σ), (rules ++ [Relocation.rule]).filterAuxM
      (fun rule : Rule σ => rule.handles name loader) front = do
        let asking ← rules.filterAuxM (fun rule : Rule σ => rule.handles name loader) front
        return Relocation.rule :: asking := by
    induction rules with
    | nil => exact fun front => rfl
    | cons first rules ih =>
      intro front
      simp only [List.cons_append, List.filterAuxM, bind_assoc, ih]
  unfold applicable List.filterM
  simp only [picked, bind_assoc, pure_bind, List.reverse_cons]

/-- What is known while the late rules run: the class stays clean, and as long as nothing is said
to have changed, it is the class that was read. -/
def Reported (unit : ClassFile) (result : Bool × Draft) : Prop :=
  result.2.unit.Clean ∧ (result.1 = false → result.2.unit = unit)

theorem reported_runRule {unit : ClassFile} {rule : Rule σ} (orderly : rule.Orderly)
    {result result' : Bool × Draft} {state : σ} (before : Reported unit result)
    (ends : ((runRule result rule).outcome state).1 = .ok result') : Reported unit result' := by
  unfold runRule at ends
  rw [outcome_bind, outcome_withReason] at ends
  cases rewritten : (rule.rewrite result.2).outcome state with
  | mk made state' =>
    rw [rewritten] at ends
    cases made with
    | error e => cases ends
    | ok made =>
      obtain ⟨changed, draft⟩ := made
      cases ends
      have made : ((rule.rewrite result.2).outcome state).1 = .ok (changed, draft) := by
        rw [rewritten]
      refine ⟨(orderly.orderly _ _ _ _ made).clean before.1, fun unchanged => ?_⟩
      obtain ⟨first, rfl⟩ := Bool.or_eq_false_iff.1 unchanged
      rw [orderly.reports _ _ _ made, before.2 first]

/-- What comes of the late rules of a marked class, once the others have run. -/
theorem unmarked_of_reported {bytes : Bytes} {unit : ClassFile}
    (read : ClassFile.decode .all bytes = .ok unit) {result : Bool × Draft}
    (reported : Reported unit result) {hierarchy : Hierarchy} {made : Bytes}
    (ends : (if result.1 || (Relocation.rewrite result.2).1 then
      (Relocation.rewrite result.2).2.encode hierarchy else .ok bytes) = .ok made) :
    Relocation.Unmarked made := by
  split at ends
  · exact Relocation.unmarked_of_encode (Relocation.clean_rewrite reported.1) ends
      (Relocation.plain_rewrite _)
  · next unchanged =>
    cases ends
    obtain ⟨first, last⟩ := Bool.or_eq_false_iff.1 (Bool.eq_false_iff.2 unchanged)
    exact Relocation.unmarked_of_decode read (reported.2 first ▸ Relocation.plain_of_unchanged last)

theorem foldlM_relocation (result : Bool × Draft) :
    [Relocation.rule].foldlM runRule result = (pure (result.1 || (Relocation.rewrite result.2).1,
      (Relocation.rewrite result.2).2) : Call σ (Bool × Draft)) := rfl

/-- What the late rules of a marked class do. -/
theorem records_relocate (orderly : ∀ rule ∈ p.late, rule.Orderly) (name loader : String)
    (bytes : Bytes) :
    Records (p.runPhase (p.late ++ [Relocation.rule]) name loader bytes)
      (p.recorded.runPhase (p.recorded.late ++ [Relocation.rule]) name loader bytes) fun r added =>
        Quiet added ∧ ∀ changed made, r = .ok (changed, made) → Relocation.Unmarked made := by
  unfold runPhase
  rw [applicable_relocation, applicable_relocation]
  simp only [bind_assoc, pure_bind]
  refine Tracks.bind (tracks_applicable (Rule.tracked_all p.late) name loader) ?_ ?_
  · rintro e r' added ⟨own, ⟨_, ⟨⟩, rfl⟩ | ⟨_, _, ⟨⟩, _⟩⟩
    exact ⟨rfl, rfl, own.quiet, fun _ _ h => nomatch h⟩
  rintro asking r' added ⟨own, ⟨_, ⟨⟩, rfl⟩ | ⟨_, asking', ⟨⟩, rfl, both, among⟩⟩
  refine ⟨asking', rfl, Records.mono (P := fun r added => Quiet added ∧
    ∀ changed made, r = .ok (changed, made) → Relocation.Unmarked made) ?_
    fun r later ⟨quieter, ends⟩ => ⟨own.quiet.append quieter, ends⟩⟩
  have some : ∀ {τ : Type} (rules : List (Rule τ)), ¬ (rules ++ [Relocation.rule]).isEmpty = true := by
    simp
  rw [if_neg (some asking), if_neg (some asking')]
  simp only [List.foldlM_append, foldlM_relocation, bind_assoc, pure_bind]
  refine Records.bind (Records.ofExcept (P := fun r added => added = [] ∧
    r = ClassFile.decode .all bytes) ⟨rfl, rfl⟩) ?_ ?_
  · rintro e _ ⟨rfl, -⟩
    exact ⟨.nil, fun _ _ h => nomatch h⟩
  rintro unit _ ⟨rfl, read⟩
  have start : Reported unit (false, Draft.ofClass unit) :=
    ⟨ClassFile.clean_of_decode read.symm, fun _ => rfl⟩
  have ran := records_runRules both (fun result rule member state before result' ends =>
    reported_runRule (orderly rule (among member)) before ends) start
  refine Records.bind ran (fun e added h => ⟨h.1.quiet, fun _ _ h => nomatch h⟩) ?_
  rintro result added ⟨called, holds⟩
  have quieter := called.quiet
  have ends : ∀ made, (if result.1 || (Relocation.rewrite result.2).1 then
      (Relocation.rewrite result.2).2.encode p.hierarchy else .ok bytes) = .ok made →
        Relocation.Unmarked made := fun _ => unmarked_of_reported read.symm (holds result rfl)
  split
  · next changed =>
    rw [if_pos changed] at ends
    refine Records.bind (Records.ofExcept (P := fun r added => added = [] ∧
      r = (Relocation.rewrite result.2).2.encode p.hierarchy) ⟨rfl, rfl⟩) ?_ ?_
    · rintro e _ ⟨rfl, -⟩
      exact ⟨by simpa using quieter, fun _ _ h => nomatch h⟩
    rintro made _ ⟨rfl, written⟩
    refine Records.pure ⟨by simpa using quieter, ?_⟩
    rintro _ _ ⟨⟩
    exact ends made written.symm
  · next unchanged =>
    rw [if_neg unchanged] at ends
    refine Records.pure ⟨by simpa using quieter, ?_⟩
    rintro _ _ ⟨⟩
    exact ends bytes rfl

/-- The way of a marked class that the cache does not know. -/
theorem records_processFresh_marked (orderly : ∀ rule ∈ p.late, rule.Orderly) (name loader : String)
    {bytes : Bytes} (marked : Relocation.isMarked bytes = .ok true) :
    Records (p.processFresh name loader bytes) (p.recorded.processFresh name loader bytes)
      fun r added => ∀ outcome, r = .ok outcome → outcome = .redirected ∧
        ∃ made, injections added = [made] ∧ Relocation.Unmarked made := by
  have skips : SkipsQuiet fun (r : Except Failure Outcome) added => ∀ outcome, r = .ok outcome →
      outcome = .redirected ∧ ∃ made, injections added = [made] ∧ Relocation.Unmarked made :=
    { skip := by
        intro r added later quiet holds outcome ends
        simpa [quiet.injections] using holds outcome ends
      stop := fun _ _ _ _ h => nomatch h }
  unfold processFresh
  rw [marked]
  refine Records.bind (Records.ofExcept (P := fun r added => added = [] ∧ r = .ok true) ⟨rfl, rfl⟩)
    (fun e _ h => nomatch h.2) ?_
  rintro _ _ ⟨rfl, ⟨⟩⟩
  refine (p.quietly_runPhase (Rule.tracked_all p.early) name loader bytes).bind_records skips
    fun early => ?_
  refine (p.quietly_mandatory name loader early.2).bind_records skips fun made => ?_
  refine Records.bind (records_relocate orderly name loader made) (fun e _ _ _ h => nomatch h) ?_
  rintro ⟨late, last⟩ added ⟨quiet, unmarked⟩
  refine Records.mono (P := fun r added => ∀ outcome, r = .ok outcome → outcome = .redirected ∧
    ∃ made, injections added = [made] ∧ Relocation.Unmarked made) ?_
    fun r later => skips.skip r added later quiet
  refine (p.quietly_dumpIn _ name last).bind_records skips fun _ => ?_
  refine (p.records_finish last true).mono ?_
  rintro r added ⟨-, rfl, sent⟩ outcome ends
  cases ends
  exact ⟨rfl, last, sent, unmarked late last rfl⟩

theorem isEmpty_of_marked {bytes : Bytes} (marked : Relocation.isMarked bytes = .ok true) :
    bytes.isEmpty = false := by
  cases bytes with
  | nil =>
    have refused : Relocation.isMarked [] = .error .outOfBounds := rfl
    rw [refused] at marked
    cases marked
  | cons byte bytes => rfl

/-- **A relocated class never carries its marker outside.**  Late rules report what they change and
make orderly changes.  The first call for a name, which is not denied, is given bytes that carry the
marker and that the cache does not know.  If it does not fail, the class is handed out, once, and
nobody sees the marker in the bytes that are handed out, nor a method that asks to be inlined. -/
theorem relocated_unmarked (orderly : ∀ rule ∈ p.late, rule.Orderly) (request : Request)
    (claims : Claims) (state : σ) (first : claims.contains request.name = false)
    (allowed : p.isDenied request.name = false)
    (missing : ((p.lookup request.bytes).outcome state).1 = .ok none)
    (marked : Relocation.isMarked request.bytes = .ok true) :
    ∀ outcome, (p.report request claims state).1.result = .ok outcome → outcome = .redirected ∧
      ∃ made, injections (p.report request claims state).1.contacts = [made] ∧
        Relocation.Unmarked made := by
  have claimed : claims.claim request.name = (true, (claims.claim request.name).2) := by
    simpa [Claims.claim, Claims.contains] using first
  have denied : p.recorded.isDenied request.name = false := allowed
  obtain ⟨asked, looked, quiet, found, answer, -⟩ :=
    (p.records_lookup request.bytes).outcome_eq state []
  obtain rfl : found = none := Except.ok.inj (answer.symm.trans missing)
  obtain ⟨added, fresh, ends⟩ := (records_processFresh_marked orderly request.name request.loader
    marked).outcome_eq ((p.lookup request.bytes).outcome state).2 asked
  have whole : (p.recorded.process request.name request.loader request.bytes).outcome (state, []) =
      (((p.processFresh request.name request.loader request.bytes).outcome
        ((p.lookup request.bytes).outcome state).2).1,
      ((p.processFresh request.name request.loader request.bytes).outcome
        ((p.lookup request.bytes).outcome state).2).2, asked ++ added) := by
    unfold process
    rw [isEmpty_of_marked marked, denied, if_neg Bool.false_ne_true, if_neg Bool.false_ne_true,
      outcome_bind, looked, missing]
    exact fresh
  unfold report transform
  rw [claimed]
  simp only [whole]
  simpa [quiet.injections] using ends

/-! ### A marked class -/

/-- A rule that adds annotations that can be read again is orderly. -/
theorem orderly_annotate {script : RuleScript} {visible : Bool} {annotations : List Annotation}
    (edits : script.edits = [.annotate visible annotations])
    (readable : ∀ a ∈ annotations, a.Readable) : script.toRule.Orderly := by
  have rewritten : ∀ draft state, ((script.toRule.rewrite draft).outcome state).1 =
      .ok (true, Edit.withAnnotations draft (draft.unit.annotations.add visible annotations)) := by
    intro draft state
    simp only [RuleScript.toRule, outcome_bind, outcome_modify, outcome_ofExcept, edits]
    rfl
  refine ⟨fun draft state draft' ends => ?_, fun draft state changed draft' ends => ?_⟩
  · rw [rewritten] at ends
    cases ends
  · rw [rewritten] at ends
    cases ends
    refine ⟨id, id, fun a member => ?_, fun a member => .inl member,
      fun m inside a member => .inl ⟨m, inside, member⟩⟩
    rcases List.mem_append.1 member with own | inside
    · exact (Annotations.mem_add.1 own).imp (List.mem_append_left _) (readable a)
    · exact .inl (List.mem_append_right _ inside)

/-- A small class file with the annotation that asks for relocation. -/
def markedHeader : Header where
  minor := 0
  major := 52
  pool := .ofEntries [.utf8 "A", .classRef 1, .utf8 "RuntimeVisibleAnnotations",
    .utf8 "Lclassweave/api/ForceRelocation;"]
  body := [0, 0x21, 0, 2, 0, 0, 0, 0, 0, 0, 0, 0, 0, 1, 0, 3, 0, 0, 0, 6, 0, 1, 0, 4, 0, 0]

/-- The class in it, its constants being in a given pool. -/
def markedClass (pool : Pool) : ClassFile where
  minor := 0
  major := 52
  access := 0x21
  name := "A"
  superName := none
  interfaces := []
  fields := []
  methods := []
  annotations := ⟨[.marker Relocation.marker], []⟩
  attributes := []
  constants := ⟨pool, .empty⟩

/-- The small class is read, and seen to be marked. -/
theorem decode_marked : ∃ bytes pool, pool.slots = markedHeader.pool.slots ∧
    ClassFile.decode .all bytes = .ok (markedClass pool) ∧
    Relocation.isMarked bytes = .ok true := by
  obtain ⟨bytes, encoded⟩ : ∃ bytes, markedHeader.encode = .ok bytes := ⟨_, rfl⟩
  have wf : markedHeader.pool.WellFormed :=
    Pool.WellFormed.empty.foldl_push (by decide) (by decide)
  obtain ⟨pool, -, slots, decoded⟩ := Header.decode_encode wf (by decide) (by decide) encoded
  refine ⟨bytes, pool, slots, ?_, ?_⟩
  · unfold ClassFile.decode
    rw [decoded]
    obtain ⟨entries, lookup⟩ := pool
    dsimp only at slots
    subst slots
    rfl
  · unfold Relocation.isMarked
    rw [decoded]
    obtain ⟨entries, lookup⟩ := pool
    dsimp only at slots
    subst slots
    rfl

/-- A rule that adds the marker again. -/
def remarkingScript : RuleScript :=
  ⟨⟨"example", "remarking"⟩, "", false, [.annotate true [.marker Relocation.marker]]⟩

/-- A pipeline without a cache whose late rule adds the marker again. -/
def remarking : Pipeline Host where
  early := []
  late := [remarkingScript.toRule]
  mandatory := MandatoryScript.passThrough.run
  cache := none
  escape := Host.escape
  dump := none
  denylist := []
  hierarchy := .flat

/-- The small class is written without its annotations. -/
theorem encode_unmarked {pool : Pool} (slots : pool.slots = markedHeader.pool.slots)
    (wf : (markedClass pool).constants.WellFormed) :
    ∃ made, ({ markedClass pool with annotations := .empty } : ClassFile).encode .flat .none
      = .ok made := by
  have owner : Builder.addClass "A" (markedClass pool).constants
      = .ok 2 (markedClass pool).constants := by
    have text : Builder.addUtf8 "A" (markedClass pool).constants
        = .ok 1 (markedClass pool).constants := Builder.add_of_known wf (by simp) (i := 1) ?_
    refine (Builder.bind_of_ok text).trans (Builder.add_of_known wf (by simp) (i := 2) ?_)
    all_goals
      rw [show (markedClass pool).constants.pool.slots = _ from slots]
      decide
  obtain ⟨body, written⟩ : ∃ body, ClassFile.encodeBody
      { markedClass pool with annotations := .empty } .flat .none (markedClass pool).constants
        = .ok body (markedClass pool).constants :=
    ⟨_, (Builder.bind_of_ok owner).trans rfl⟩
  unfold ClassFile.encode
  rw [show ClassFile.constants _ = (markedClass pool).constants from rfl, written]
  obtain ⟨entries, lookup⟩ := pool
  dsimp only at slots
  subst slots
  exact ⟨_, rfl⟩

/-- The late rules change the class: the marker is added again, and both are taken off. -/
theorem runPhase_marked {bytes made : Bytes} {pool : Pool}
    (read : ClassFile.decode .all bytes = .ok (markedClass pool))
    (written : ({ markedClass pool with annotations := .empty } : ClassFile).encode .flat .none
      = .ok made) (state : Host) :
    ∃ state', (remarking.runPhase (remarking.late ++ [Relocation.rule]) "a.A" "a.A" bytes).outcome
      state = (.ok (true, made), state') := by
  have asking : (applicable (remarking.late ++ [Relocation.rule]) "a.A" "a.A").outcome state
      = (.ok (remarking.late ++ [Relocation.rule]), state.note (.asked remarkingScript.name)) := rfl
  have ran : ∀ h, ∃ h', ((remarking.late ++ [Relocation.rule]).foldlM runRule
      (false, Draft.ofClass (markedClass pool))).outcome h
        = (.ok (true, ⟨{ markedClass pool with annotations := .empty }, .none⟩), h') :=
    fun h => ⟨_, rfl⟩
  obtain ⟨state', ran⟩ := ran (state.note (.asked remarkingScript.name))
  have encoded : Draft.encode ⟨{ markedClass pool with annotations := .empty }, .none⟩
      remarking.hierarchy = .ok made := written
  refine ⟨state', ?_⟩
  unfold runPhase
  simp only [outcome_bind, asking]
  rw [if_neg (by decide)]
  simp only [outcome_bind, outcome_ofExcept, read, ran, if_true, encoded, outcome_pure]

/-- The small class is handed out. -/
theorem process_marked (state : Host) : ∃ bytes state', Relocation.isMarked bytes = .ok true ∧
    (remarking.process "a.A" "a.A" bytes).outcome state = (.ok .redirected, state') := by
  obtain ⟨bytes, pool, slots, read, marked⟩ := decode_marked
  obtain ⟨made, written⟩ := encode_unmarked slots (ClassFile.wellFormed_of_decode read).1
  obtain ⟨state', late⟩ := runPhase_marked read written state
  have denied : remarking.isDenied "a.A" = false := by decide
  have early : (remarking.runPhase remarking.early "a.A" "a.A" bytes).outcome state
      = (.ok (false, bytes), state) := rfl
  have host : (remarking.mandatory "a.A" "a.A" bytes).outcome state = (.ok bytes, state) := rfl
  have unknown : (remarking.lookup bytes).outcome state = (.ok none, state) := rfl
  refine ⟨bytes, Host.escape made state', marked, ?_⟩
  unfold process
  rw [isEmpty_of_marked marked, denied, if_neg Bool.false_ne_true, if_neg Bool.false_ne_true,
    outcome_bind, unknown]
  unfold processFresh
  simp only [outcome_bind, outcome_ofExcept, marked, early, host, if_true, late]
  rfl

/-- The small class is handed out without the marker, though a rule added it again. -/
theorem relocated_unmarked_remarking : ∃ bytes, (∀ rule ∈ remarking.late, rule.Orderly) ∧
    Relocation.isMarked bytes = .ok true ∧
    (remarking.report ⟨"a.A", "a.A", bytes⟩ .empty (Host.ofFiles default)).1.result
      = .ok .redirected ∧
    ∃ made, injections (remarking.report ⟨"a.A", "a.A", bytes⟩ .empty
      (Host.ofFiles default)).1.contacts = [made] ∧ Relocation.Unmarked made := by
  obtain ⟨bytes, state', marked, ends⟩ := process_marked (Host.ofFiles default)
  have orderly : ∀ rule ∈ remarking.late, rule.Orderly := by
    intro rule member
    cases List.mem_singleton.1 member
    have again : remarkingScript.toRule.Orderly := orderly_annotate rfl fun a member => by
      cases List.mem_singleton.1 member
      exact ⟨trivial, by decide⟩
    exact again
  have free : Claims.empty.claim "a.A" = (true, (Claims.empty.claim "a.A").2) := by
    simp [Claims.claim, Claims.empty]
  have result : (remarking.report ⟨"a.A", "a.A", bytes⟩ .empty (Host.ofFiles default)).1.result
      = .ok .redirected := by
    obtain ⟨contacts, same, -, -⟩ :=
      remarking.report_eq ⟨"a.A", "a.A", bytes⟩ .empty (Host.ofFiles default)
    rw [same]
    show (remarking.transform "a.A" "a.A" bytes .empty (Host.ofFiles default)).1 = _
    unfold transform
    rw [free]
    exact congrArg Prod.fst ends
  have allowed : remarking.isDenied "a.A" = false := by decide
  exact ⟨bytes, orderly, marked, result, (relocated_unmarked orderly ⟨"a.A", "a.A", bytes⟩ .empty
    (Host.ofFiles default) (by simp [Claims.contains, Claims.empty]) allowed rfl marked _ result).2⟩

end Pipeline

end ClassInstrument
