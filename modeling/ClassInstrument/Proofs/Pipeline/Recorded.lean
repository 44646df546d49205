import ClassInstrument.Pipeline.Basic
import ClassInstrument.Proofs.Pipeline.Tracks

/-!
# What a pipeline does to its collaborators

A pipeline can be run beside a record of everything it asks of its rules, of the host's own
transformation, of the cache and of the sinks.  The record changes nothing: results and worlds are
those of the pipeline itself.

* `Contact` — one thing that is asked of a collaborator;
* `Pipeline.recorded` — the pipeline with a record beside its world;
* `records_process` — a class is processed as without the record, and what the record then holds
  about the cache and about classes handed out is what `Delivered` says.
-/

namespace ClassInstrument

open Call

/-- One thing that a pipeline asks of a collaborator. -/
inductive Contact where
  /-- A rule is asked whether it might change a class. -/
  | asked (rule : Identifier)
  | rewrote (rule : Identifier)
  /-- The host's own transformation is given a class. -/
  | mandatory (bytes : Bytes)
  /-- The cache is asked for what was made from some bytes; a cache that fails finds nothing. -/
  | looked (bytes : Bytes) (found : Option Bytes)
  /-- The cache is told what was made from some bytes, whether or not it takes that. -/
  | put (original made : Bytes)
  | dumped (name : String) (bytes : Bytes)
  /-- A class is handed out. -/
  | injected (bytes : Bytes)
deriving DecidableEq, Repr

namespace Contact

/-- What the cache is told. -/
def put? : Contact → Option (Bytes × Bytes)
  | put original made => some (original, made)
  | _ => none

/-- The class that is handed out. -/
def injected? : Contact → Option Bytes
  | injected bytes => some bytes
  | _ => none

/-- The answer of a cache, none if it fails. -/
def answer : Except Failure (Option Bytes) → Option Bytes
  | .ok found => found
  | .error _ => none

/-- Everything that the cache is told in a record. -/
def puts (record : List Contact) : List (Bytes × Bytes) := record.filterMap put?

/-- The classes that are handed out in a record. -/
def injections (record : List Contact) : List Bytes := record.filterMap injected?

/-- The cache only answers with something that it was told earlier for exactly the same bytes. -/
def Honest (record : List Contact) : Prop :=
  ∀ before bytes found behind, record = before ++ .looked bytes (some found) :: behind →
    .put bytes found ∈ before

/-- A record in which the cache is told nothing and nothing is handed out. -/
structure Quiet (record : List Contact) : Prop where
  puts : puts record = []
  injections : injections record = []

@[simp] theorem puts_append (first second : List Contact) :
    puts (first ++ second) = puts first ++ puts second := List.filterMap_append

@[simp] theorem injections_append (first second : List Contact) :
    injections (first ++ second) = injections first ++ injections second := List.filterMap_append

theorem mem_puts {record : List Contact} {original made : Bytes} :
    (original, made) ∈ puts record ↔ put original made ∈ record := by
  simp only [puts, List.mem_filterMap]
  refine ⟨fun ⟨contact, member, same⟩ => ?_, fun member => ⟨_, member, rfl⟩⟩
  cases contact <;> simp_all [put?]

theorem honest_concat {record : List Contact} {contact : Contact} :
    Honest (record ++ [contact]) ↔ Honest record ∧
      ∀ bytes found, contact = .looked bytes (some found) → .put bytes found ∈ record := by
  constructor
  · refine fun h => ⟨fun before bytes found behind same => ?_, fun bytes found same => ?_⟩
    · exact h before bytes found (behind ++ [contact]) (by simp [same])
    · exact h record bytes found [] (by rw [same])
  · rintro ⟨front, last⟩ before bytes found behind same
    rcases List.eq_nil_or_concat behind with rfl | ⟨behind, other, rfl⟩
    · obtain ⟨rfl, only⟩ := List.append_inj' same rfl
      exact last bytes found (List.singleton_inj.1 only)
    · rw [List.concat_eq_append, ← List.cons_append, ← List.append_assoc] at same
      exact front before bytes found behind (List.append_inj' same rfl).1

theorem Quiet.nil : Quiet [] := ⟨rfl, rfl⟩

theorem Quiet.append {first second : List Contact} (h : Quiet first) (h' : Quiet second) :
    Quiet (first ++ second) := ⟨by simp [h.puts, h'.puts], by simp [h.injections, h'.injections]⟩

/-- A record in which only rules are called. -/
def OfRules (record : List Contact) : Prop :=
  ∀ contact ∈ record, ∃ rule, contact = asked rule ∨ contact = rewrote rule

theorem OfRules.nil : OfRules [] := fun _ h => nomatch h

theorem OfRules.append {first second : List Contact} (h : OfRules first) (h' : OfRules second) :
    OfRules (first ++ second) :=
  fun contact member => (List.mem_append.1 member).elim (h contact) (h' contact)

/-- Nothing is read off a record of rules that is read off no call of a rule. -/
theorem OfRules.filterMap {α : Type} {f : Contact → Option α} {record : List Contact}
    (h : OfRules record) (asked : ∀ rule, f (asked rule) = none)
    (rewrote : ∀ rule, f (rewrote rule) = none) : record.filterMap f = [] := by
  refine List.filterMap_eq_nil_iff.2 fun contact member => ?_
  obtain ⟨rule, rfl | rfl⟩ := h contact member
  · exact asked rule
  · exact rewrote rule

theorem OfRules.quiet {record : List Contact} (h : OfRules record) : Quiet record :=
  ⟨h.filterMap (fun _ => rfl) fun _ => rfl, h.filterMap (fun _ => rfl) fun _ => rfl⟩

/-- A postcondition to which some records make no difference, and that holds of calls that fail
before anything else is recorded. -/
structure Skips (Q : List Contact → Prop) {α : Type}
    (P : Except Failure α → List Contact → Prop) : Prop where
  skip : ∀ r added later, Q added → P r later → P r (added ++ later)
  stop : ∀ e added, Q added → P (.error e) added

/-- A postcondition to which quiet records make no difference. -/
abbrev SkipsQuiet {α : Type} (P : Except Failure α → List Contact → Prop) : Prop := Skips Quiet P

theorem SkipsQuiet.and {α : Type} {P Q : Except Failure α → List Contact → Prop}
    (h : SkipsQuiet P) (h' : SkipsQuiet Q) : SkipsQuiet fun r added => P r added ∧ Q r added where
  skip r _ _ quiet holds := ⟨h.skip r _ _ quiet holds.1, h'.skip r _ _ quiet holds.2⟩
  stop e added quiet := ⟨h.stop e added quiet, h'.stop e added quiet⟩

theorem skipsQuiet_quiet {α : Type} :
    SkipsQuiet fun (_ : Except Failure α) added => Quiet added where
  skip _ _ _ := Quiet.append
  stop _ _ := id

end Contact

open Contact

/-- What comes after a call whose record makes no difference decides. -/
theorem Call.Records.bind_skips {σ α β : Type} {plain : Call σ α}
    {call : Call (σ × List Contact) α} {Q : List Contact → Prop} {next : α → Call σ β}
    {next' : α → Call (σ × List Contact) β} {P : Except Failure β → List Contact → Prop}
    (first : Records plain call fun _ added => Q added) (skips : Skips Q P)
    (goesOn : ∀ value, Records (next value) (next' value) P) :
    Records (plain >>= next) (call >>= next') P :=
  Records.bind first skips.stop fun value _ skipped =>
    (goesOn value).mono fun r later => skips.skip r _ later skipped

/-- Both calls have the same result, and what is recorded is quiet. -/
def Call.Quietly {σ α : Type} (plain : Call σ α) (call : Call (σ × List Contact) α) : Prop :=
  Records plain call fun _ added => Quiet added

namespace Call.Quietly

variable {σ α β : Type} {plain : Call σ α} {call : Call (σ × List Contact) α}

theorem pure {value : α} : Quietly (Pure.pure value : Call σ α) (Pure.pure value) :=
  Records.pure .nil

theorem ofExcept {result : Except Failure α} :
    Quietly (Call.ofExcept result : Call σ α) (Call.ofExcept result) := Records.ofExcept .nil

/-- What comes after a quiet call decides. -/
theorem bind_records {next : α → Call σ β} {next' : α → Call (σ × List Contact) β}
    {P : Except Failure β → List Contact → Prop} (first : Quietly plain call)
    (skips : SkipsQuiet P) (goesOn : ∀ value, Records (next value) (next' value) P) :
    Records (plain >>= next) (call >>= next') P :=
  Records.bind_skips first skips goesOn

theorem bind {next : α → Call σ β} {next' : α → Call (σ × List Contact) β}
    (first : Quietly plain call) (goesOn : ∀ value, Quietly (next value) (next' value)) :
    Quietly (plain >>= next) (call >>= next') :=
  first.bind_records skipsQuiet_quiet goesOn

end Call.Quietly

/-! ### The record -/

/-- A rule whose calls are noted. -/
def Rule.recorded {σ : Type} (rule : Rule σ) : Rule (σ × List Contact) where
  name := rule.name
  handles name loader := (rule.handles name loader).noting fun _ => .asked rule.name
  rewrite draft := (rule.rewrite draft).noting fun _ => .rewrote rule.name

/-- A cache whose calls are noted. -/
def Cache.recorded {σ : Type} (cache : Cache σ) : Cache (σ × List Contact) where
  name := cache.name
  load := fun (state, record) =>
    match cache.load state with
    | .ok _ state => .ok () (state, record)
    | .error e state => .error e (state, record)
  save := fun (state, record) =>
    match cache.save state with
    | .ok _ state => .ok () (state, record)
    | .error e state => .error e (state, record)
  get bytes := (cache.get bytes).noting fun found => .looked bytes (answer found)
  put original made := (cache.put original made).noting fun _ => .put original made

namespace Pipeline

variable {σ : Type} (p : Pipeline σ)

/-- The same pipeline with another cache, or with none. -/
def withCache (cache : Option (Cache σ)) : Pipeline σ := { p with cache }

/-- The pipeline with a record beside its world. -/
def recorded : Pipeline (σ × List Contact) where
  early := p.early.map Rule.recorded
  late := p.late.map Rule.recorded
  mandatory name loader bytes := (p.mandatory name loader bytes).noting fun _ => .mandatory bytes
  cache := p.cache.map Cache.recorded
  escape bytes := noted (.injected bytes) (p.escape bytes)
  dump := p.dump.map fun sink =>
    ⟨sink.mode, fun name bytes => noted (.dumped name bytes) (sink.write name bytes)⟩
  denylist := p.denylist
  hierarchy := p.hierarchy

/-! ### The calls to single collaborators -/

theorem records_dumpIn (modes : List DumpMode) (name : String) (bytes : Bytes) :
    Records (p.dumpIn modes name bytes) (p.recorded.dumpIn modes name bytes)
      fun r added => r = .ok () ∧ Quiet added := by
  unfold dumpIn recorded
  cases p.dump with
  | none => exact Records.pure ⟨rfl, .nil⟩
  | some sink =>
    simp only [Option.map_some]
    by_cases mode : modes.contains sink.mode
    · simp only [if_pos mode]
      exact Records.noted ⟨rfl, rfl, rfl⟩
    · simp only [if_neg mode]
      exact Records.pure ⟨rfl, .nil⟩

/-- Looking up never fails; what is found is what the record says the cache found. -/
theorem records_lookup (bytes : Bytes) :
    Records (p.lookup bytes) (p.recorded.lookup bytes) fun r added =>
      Quiet added ∧ ∃ found, r = .ok found ∧
        (added = [.looked bytes found] ∨ p.cache = none ∧ added = [] ∧ found = none) := by
  unfold lookup
  simp only [recorded]
  cases p.cache with
  | none => exact Records.pure ⟨.nil, none, rfl, .inr ⟨rfl, rfl, rfl⟩⟩
  | some cache =>
    have noted : Records (cache.get bytes) (cache.recorded.get bytes)
        fun r added => added = [.looked bytes (answer r)] :=
      Records.noting (fun found => Contact.looked bytes (answer found)) fun _ => rfl
    refine Records.bind noted.attempt (fun e _ ⟨_, h, _⟩ => nomatch h) ?_
    rintro tried _ ⟨_, ⟨⟩, rfl⟩
    cases tried with
    | ok found => exact Records.pure ⟨⟨rfl, rfl⟩, found, rfl, .inl rfl⟩
    | error e => exact Records.pure ⟨⟨rfl, rfl⟩, none, rfl, .inl rfl⟩

/-- Telling the cache never fails, and nothing else is done. -/
theorem records_remember_eq (original made : Bytes) :
    Records (p.remember original made) (p.recorded.remember original made) fun r added =>
      r = .ok () ∧ (added = [.put original made] ∨ added = []) := by
  unfold remember
  simp only [recorded]
  cases p.cache with
  | none => exact Records.pure ⟨rfl, .inr rfl⟩
  | some cache =>
    have noted : Records (cache.put original made) (cache.recorded.put original made)
        fun _ added => added = [.put original made] :=
      Records.noting (fun _ => Contact.put original made) fun _ => rfl
    refine Records.bind noted.attempt (fun e _ ⟨_, h, _⟩ => nomatch h) ?_
    rintro tried _ ⟨_, ⟨⟩, rfl⟩
    exact Records.pure ⟨rfl, .inl rfl⟩

theorem records_remember (original made : Bytes) :
    Records (p.remember original made) (p.recorded.remember original made) fun r added =>
      r = .ok () ∧ injections added = [] ∧ ∀ entry ∈ puts added, entry = (original, made) := by
  refine (p.records_remember_eq original made).mono ?_
  rintro r added ⟨done, rfl | rfl⟩
  · exact ⟨done, rfl, fun _ member => List.mem_singleton.1 member⟩
  · exact ⟨done, rfl, fun _ h => nomatch h⟩

/-- What is left of a class at the end: it is returned or handed out, and never both. -/
def finished (bytes : Bytes) (relocate : Bool) : Outcome × List Bytes :=
  if relocate then (.redirected, [bytes]) else (.bytes bytes, [])

/-- At the end a class is handed out or not, and nothing else is done. -/
theorem records_finish_eq (bytes : Bytes) (relocate : Bool) :
    Records (p.finish bytes relocate) (p.recorded.finish bytes relocate) fun r added =>
      r = .ok (finished bytes relocate).1 ∧
        added = (finished bytes relocate).2.map Contact.injected := by
  unfold finish
  cases relocate with
  | false => exact Records.pure ⟨rfl, rfl⟩
  | true =>
    have escaped : Records (modify (p.escape bytes))
        (modify (p.recorded.escape bytes)) fun r added => r = .ok () ∧ added = [.injected bytes] :=
      Records.noted ⟨rfl, rfl⟩
    refine Records.bind escaped (fun e _ ⟨h, _⟩ => nomatch h) ?_
    rintro _ _ ⟨_, rfl⟩
    exact Records.pure ⟨rfl, rfl⟩

theorem records_finish (bytes : Bytes) (relocate : Bool) :
    Records (p.finish bytes relocate) (p.recorded.finish bytes relocate) fun r added =>
      puts added = [] ∧ r = .ok (finished bytes relocate).1 ∧
        injections added = (finished bytes relocate).2 := by
  refine (p.records_finish_eq bytes relocate).mono ?_
  rintro r added ⟨done, rfl⟩
  cases relocate with
  | false => exact ⟨rfl, done, rfl⟩
  | true => exact ⟨rfl, done, rfl⟩

end Pipeline

/-! ### Rules -/

/-- A rule beside a record that does what a rule does, and in which only rules are called. -/
structure Rule.Tracked {σ : Type} (rule : Rule σ) (rule' : Rule (σ × List Contact)) : Prop where
  name : rule'.name = rule.name
  handles : ∀ name loader,
    Records (rule.handles name loader) (rule'.handles name loader) fun _ added => OfRules added
  rewrite : ∀ draft, Records (rule.rewrite draft) (rule'.rewrite draft) fun _ added => OfRules added

theorem Rule.tracked_recorded {σ : Type} (rule : Rule σ) : rule.Tracked rule.recorded where
  name := rfl
  handles _ _ := Records.noting (fun _ => Contact.asked rule.name) fun _ _ member =>
    ⟨rule.name, .inl (List.mem_singleton.1 member)⟩
  rewrite _ := Records.noting (fun _ => Contact.rewrote rule.name) fun _ _ member =>
    ⟨rule.name, .inr (List.mem_singleton.1 member)⟩

theorem Relocation.tracked_rule {σ : Type} : Rule.Tracked (σ := σ) rule rule where
  name := rfl
  handles _ _ := Records.pure .nil
  rewrite _ := Records.pure .nil

theorem Rule.tracked_all {σ : Type} (rules : List (Rule σ)) :
    List.Forall₂ Rule.Tracked rules (rules.map Rule.recorded) := by
  rw [List.forall₂_map_right_iff, List.forall₂_same]
  exact fun rule _ => rule.tracked_recorded

namespace Pipeline

variable {σ : Type} (p : Pipeline σ) {rules : List (Rule σ)}
  {rules' : List (Rule (σ × List Contact))}

theorem tracks_applicable (same : List.Forall₂ Rule.Tracked rules rules') (name loader : String) :
    Tracks (applicable rules name loader) (applicable rules' name loader) fun r r' added =>
      OfRules added ∧ ((∃ e, r = .error e ∧ r' = .error e) ∨ ∃ asking asking', r = .ok asking ∧
        r' = .ok asking' ∧ List.Forall₂ Rule.Tracked asking asking' ∧ asking ⊆ rules) :=
  Tracks.filterM same .nil (fun _ _ => OfRules.append) fun _ _ tracked =>
    tracked.handles name loader

theorem records_runRule {rule : Rule σ} {rule' : Rule (σ × List Contact)}
    (tracked : rule.Tracked rule') (result : Bool × Draft) :
    Records (runRule result rule) (runRule result rule') fun _ added => OfRules added := by
  unfold runRule
  rw [tracked.name]
  have rewritten : Records ((rule.rewrite result.2).withReason (.ruleFailed rule.name))
      ((rule'.rewrite result.2).withReason (.ruleFailed rule.name)) fun _ added => OfRules added :=
    (tracked.rewrite result.2).withReason.mono fun _ _ ⟨_, _, own⟩ => own
  refine Records.bind rewritten (fun _ _ own => own) fun _ added own => Records.pure ?_
  rwa [List.append_nil]

/-- Rules that run one after the other, with an invariant that every rule keeps. -/
theorem records_runRules {J : Bool × Draft → Prop}
    (same : List.Forall₂ Rule.Tracked rules rules')
    (kept : ∀ result, ∀ rule ∈ rules, ∀ state, J result → ∀ result',
      ((runRule result rule).outcome state).1 = .ok result' → J result')
    {result : Bool × Draft} (first : J result) :
    Records (rules.foldlM runRule result) (rules'.foldlM runRule result) fun r added =>
      OfRules added ∧ ∀ result, r = .ok result → J result := by
  refine Records.foldlM same .nil (fun _ _ => OfRules.append) ?_ first
  intro value rule member rule' tracked holds state record
  obtain ⟨added, world, result, own⟩ := records_runRule tracked value state record
  exact ⟨added, world, result, own, fun next h => kept value rule member state holds next h⟩

/-- A phase calls nothing but its rules. -/
theorem records_runPhase (same : List.Forall₂ Rule.Tracked rules rules') (name loader : String)
    (bytes : Bytes) :
    Records (p.runPhase rules name loader bytes) (p.recorded.runPhase rules' name loader bytes)
      fun _ added => OfRules added := by
  have skips : ∀ {α : Type}, Skips (α := α) OfRules fun _ added => OfRules added :=
    ⟨fun _ _ _ => OfRules.append, fun _ _ => id⟩
  unfold Records runPhase
  refine Tracks.bind (tracks_applicable same name loader) ?_ ?_
  · rintro e r' added ⟨own, ⟨_, ⟨⟩, rfl⟩ | ⟨_, _, ⟨⟩, _⟩⟩
    exact ⟨rfl, rfl, own⟩
  · rintro asking r' added ⟨own, ⟨_, ⟨⟩, rfl⟩ | ⟨_, asking', ⟨⟩, rfl, both, _⟩⟩
    refine ⟨asking', rfl, Records.mono ?_ fun r later => own.append⟩
    have empty : asking'.isEmpty = asking.isEmpty := by cases both <;> rfl
    rw [empty]
    split
    · exact Records.pure .nil
    · refine Records.bind_skips (Records.ofExcept .nil) skips fun unit =>
        Records.bind_skips ?_ skips fun (changed, draft) => ?_
      · exact (records_runRules (J := fun _ => True) both (fun _ _ _ _ _ _ _ => trivial)
          trivial).mono fun _ _ h => h.1
      · cases changed with
        | true => exact Records.bind_skips (Records.ofExcept .nil) skips fun _ => Records.pure .nil
        | false => exact Records.pure .nil

theorem quietly_runPhase (same : List.Forall₂ Rule.Tracked rules rules') (name loader : String)
    (bytes : Bytes) :
    Quietly (p.runPhase rules name loader bytes) (p.recorded.runPhase rules' name loader bytes) :=
  (p.records_runPhase same name loader bytes).mono fun _ _ => OfRules.quiet

/-! ### The way of a class -/

/-- What a record holds about the cache and about classes handed out, once a call ended with a
result. -/
structure Delivered (result : Except Failure Outcome) (record : List Contact) : Prop where
  /-- A call that fails tells the cache nothing and hands out nothing. -/
  failed : ∀ e, result = .error e → puts record = [] ∧ injections record = []
  /-- A class that is returned is not handed out. -/
  returned : ∀ bytes, result = .ok (.bytes bytes) → injections record = []
  /-- A class that is not returned is handed out once, and the cache is told nothing. -/
  redirected : result = .ok .redirected → puts record = [] ∧ ∃ made, injections record = [made]

/-- The cache is only told of a class that is returned, and that it was made from the bytes of the
request. -/
def Remembered (original : Bytes) (result : Except Failure Outcome) (record : List Contact) :
    Prop :=
  ∀ entry ∈ puts record, entry.1 = original ∧ result = .ok (.bytes entry.2)

namespace Delivered

theorem of_error {record : List Contact} (quiet : Quiet record) (e : Failure) :
    Delivered (.error e) record where
  failed _ _ := ⟨quiet.puts, quiet.injections⟩
  returned _ h := nomatch h
  redirected h := nomatch h

theorem of_bytes {record : List Contact} (bytes : Bytes) (h : injections record = []) :
    Delivered (.ok (.bytes bytes)) record where
  failed _ h := nomatch h
  returned _ _ := h
  redirected h := nomatch h

theorem of_redirected {record : List Contact} {made : Bytes} (h : puts record = [])
    (h' : injections record = [made]) : Delivered (.ok .redirected) record where
  failed _ h := nomatch h
  returned _ h := nomatch h
  redirected _ := ⟨h, made, h'⟩

end Delivered

theorem Remembered.of_puts {original : Bytes} {result : Except Failure Outcome}
    {record : List Contact} (h : puts record = []) : Remembered original result record := by
  intro entry member
  rw [h] at member
  cases member

theorem skipsQuiet_delivered : SkipsQuiet Delivered where
  skip r added later quiet h := by
    constructor <;> simp only [puts_append, injections_append, quiet.puts, quiet.injections,
      List.nil_append]
    exacts [h.failed, h.returned, h.redirected]
  stop e added quiet := .of_error quiet e

theorem skipsQuiet_puts {α : Type} :
    SkipsQuiet fun (_ : Except Failure α) added => puts added = [] where
  skip r added later quiet h := by simpa [quiet.puts] using h
  stop e added quiet := quiet.puts

theorem skipsQuiet_remembered (original : Bytes) : SkipsQuiet (Remembered original) where
  skip r added later quiet h := by simpa [Remembered, quiet.puts] using h
  stop e added quiet entry member := by simp [quiet.puts] at member

/-- The end of every way. -/
theorem records_finish_delivered (bytes : Bytes) (relocate : Bool) :
    Records (p.finish bytes relocate) (p.recorded.finish bytes relocate) fun r added =>
      Delivered r added ∧ puts added = [] := by
  refine (p.records_finish bytes relocate).mono ?_
  rintro r added ⟨told, rfl, out⟩
  cases relocate with
  | false => exact ⟨.of_bytes bytes out, told⟩
  | true => exact ⟨.of_redirected told out, told⟩

theorem quietly_dumpIn (modes : List DumpMode) (name : String) (bytes : Bytes) :
    Quietly (p.dumpIn modes name bytes) (p.recorded.dumpIn modes name bytes) :=
  (p.records_dumpIn modes name bytes).mono fun _ _ h => h.2

theorem quietly_mandatory (name loader : String) (bytes : Bytes) :
    Quietly (p.mandatory name loader bytes) (p.recorded.mandatory name loader bytes) :=
  Records.noting (fun _ => Contact.mandatory bytes) fun _ => ⟨rfl, rfl⟩

/-- A class that no rule sees is never told to the cache. -/
theorem records_processDenied (name loader : String) (bytes : Bytes) :
    Records (p.processDenied name loader bytes) (p.recorded.processDenied name loader bytes)
      fun r added => Delivered r added ∧ puts added = [] := by
  have skips := skipsQuiet_delivered.and (skipsQuiet_puts (α := Outcome))
  refine (p.quietly_dumpIn _ name bytes).bind_records skips fun _ => ?_
  refine (p.quietly_mandatory name loader bytes).bind_records skips fun made => ?_
  exact Quietly.ofExcept.bind_records skips fun relocate =>
    p.records_finish_delivered made relocate

/-- A class that the cache does not know. -/
theorem records_processFresh (name loader : String) (original : Bytes) :
    Records (p.processFresh name loader original) (p.recorded.processFresh name loader original)
      fun r added => Delivered r added ∧ Remembered original r added := by
  have skips := skipsQuiet_delivered.and (skipsQuiet_remembered original)
  unfold processFresh
  refine Quietly.ofExcept.bind_records skips fun relocate => ?_
  refine (p.quietly_runPhase (Rule.tracked_all p.early) name loader original).bind_records skips
    fun early => ?_
  refine (p.quietly_mandatory name loader early.2).bind_records skips fun made => ?_
  cases relocate with
  | true =>
    have rules : List.Forall₂ Rule.Tracked (p.late ++ [Relocation.rule])
        (p.recorded.late ++ [Relocation.rule]) :=
      List.rel_append (Rule.tracked_all p.late) (.cons Relocation.tracked_rule .nil)
    refine (p.quietly_runPhase rules name loader made).bind_records skips fun late => ?_
    refine (p.quietly_dumpIn _ name late.2).bind_records skips fun _ => ?_
    exact (p.records_finish_delivered late.2 true).mono fun _ _ h => ⟨h.1, .of_puts h.2⟩
  | false =>
    refine (p.quietly_runPhase (Rule.tracked_all p.late) name loader made).bind_records skips
      fun late => ?_
    refine (p.records_remember original late.2).bind (fun e _ h => nomatch h.1) ?_
    rintro _ told ⟨_, out, entries⟩
    refine (p.records_dumpIn _ name late.2).bind (fun e _ h => nomatch h.1) ?_
    rintro _ dumped ⟨_, quiet⟩
    refine (p.records_finish late.2 false).mono ?_
    rintro _ later ⟨untold, rfl, unsent⟩
    refine ⟨.of_bytes late.2 (by simp [out, quiet.injections, unsent, finished]), ?_⟩
    intro entry member
    obtain rfl := entries entry (by simpa [quiet.puts, untold] using member)
    exact ⟨rfl, rfl⟩

/-! ### One call -/

/-- A class that is seen for the first time. -/
theorem records_process (name loader : String) (bytes : Bytes) :
    Records (p.process name loader bytes) (p.recorded.process name loader bytes) Delivered := by
  have denylist : p.recorded.isDenied name = p.isDenied name := rfl
  unfold process
  rw [denylist]
  split
  · exact Records.pure (.of_bytes bytes rfl)
  split
  · exact (p.records_processDenied name loader bytes).mono fun _ _ h => h.1
  · have looked : Quietly (p.lookup bytes) (p.recorded.lookup bytes) :=
      (p.records_lookup bytes).mono fun _ _ h => h.1
    refine looked.bind_records skipsQuiet_delivered fun found => ?_
    cases found with
    | some known => exact Records.pure (.of_bytes known rfl)
    | none => exact (p.records_processFresh name loader bytes).mono fun _ _ h => h.1

/-- A call for a name does not notice the record, and touches no collaborator if the name is
claimed. -/
theorem transform_recorded (name loader : String) (bytes : Bytes) (claims : Claims) (state : σ)
    (record : List Contact) :
    ∃ added, p.recorded.transform name loader bytes claims (state, record) =
        ((p.transform name loader bytes claims state).1,
          (p.transform name loader bytes claims state).2.1,
          (p.transform name loader bytes claims state).2.2, record ++ added) ∧
      (claims.contains name →
        (p.transform name loader bytes claims state).1 = .ok (.bytes bytes) ∧ added = []) ∧
      Delivered (p.transform name loader bytes claims state).1 added := by
  simp only [transform, Claims.claim, Claims.contains]
  cases claimed : claims.names.contains name with
  | true => exact ⟨[], by simp, fun _ => ⟨rfl, rfl⟩, .of_bytes bytes rfl⟩
  | false =>
    obtain ⟨added, same, delivered⟩ := (p.records_process name loader bytes).outcome_eq state record
    exact ⟨added, by rw [Bool.not_false, same], fun h => (nomatch h), delivered⟩

end Pipeline

/-! ### Runs -/

/-- A call to a pipeline. -/
structure Request where
  name : String
  loader : String
  bytes : Bytes

/-- What became of a call, and what was asked of collaborators meanwhile. -/
structure Report where
  result : Except Failure Outcome
  contacts : List Contact

namespace Pipeline

variable {σ : Type} (p : Pipeline σ)

/-- The results of calls one after the other. -/
def answers : List Request → Claims → σ → List (Except Failure Outcome)
  | [], _, _ => []
  | request :: later, claims, state =>
    match p.transform request.name request.loader request.bytes claims state with
    | (result, claims, state) => result :: answers later claims state

/-- One call beside a record that starts empty. -/
def report (request : Request) (claims : Claims) (state : σ) : Report × Claims × σ :=
  match p.recorded.transform request.name request.loader request.bytes claims (state, []) with
  | (result, claims, state, contacts) => (⟨result, contacts⟩, claims, state)

/-- The reports of calls one after the other. -/
def serve : List Request → Claims → σ → List Report
  | [], _, _ => []
  | request :: later, claims, state =>
    match p.report request claims state with
    | (report, claims, state) => report :: serve later claims state

/-- The names claimed and the world after some calls. -/
def after : List Request → Claims → σ → Claims × σ
  | [], claims, state => (claims, state)
  | request :: later, claims, state =>
    match p.report request claims state with
    | (_, claims, state) => after later claims state

theorem serve_cons (request : Request) (later : List Request) (claims : Claims) (state : σ) :
    p.serve (request :: later) claims state = (p.report request claims state).1 ::
      p.serve later (p.report request claims state).2.1 (p.report request claims state).2.2 := rfl

theorem serve_append (first second : List Request) (claims : Claims) (state : σ) :
    p.serve (first ++ second) claims state = p.serve first claims state ++
      p.serve second (p.after first claims state).1 (p.after first claims state).2 := by
  induction first generalizing claims state with
  | nil => rfl
  | cons request first ih => simp [serve_cons, after, ih]

@[simp] theorem length_serve (requests : List Request) (claims : Claims) (state : σ) :
    (p.serve requests claims state).length = requests.length := by
  induction requests generalizing claims state with
  | nil => rfl
  | cons request requests ih => simp [serve_cons, ih]

/-- **One call.**  Result, claims and world are those without the record. -/
theorem report_eq (request : Request) (claims : Claims) (state : σ) :
    ∃ contacts,
      p.report request claims state =
        (⟨(p.transform request.name request.loader request.bytes claims state).1, contacts⟩,
          (p.transform request.name request.loader request.bytes claims state).2) ∧
      (claims.contains request.name →
        (p.transform request.name request.loader request.bytes claims state).1 =
          .ok (.bytes request.bytes) ∧ contacts = []) ∧
      Delivered (p.transform request.name request.loader request.bytes claims state).1 contacts := by
  obtain ⟨added, same, silent, delivered⟩ :=
    p.transform_recorded request.name request.loader request.bytes claims state []
  exact ⟨added, by rw [report, same]; rfl, silent, delivered⟩

theorem contains_report (request : Request) (claims : Claims) (state : σ) (name : String) :
    (p.report request claims state).2.1.contains name ↔
      claims.contains name ∨ name = request.name := by
  obtain ⟨contacts, same, -, -⟩ := p.report_eq request claims state
  rw [same]
  have inserted : ((claims.claim request.name).2.contains name = true) ↔
      claims.contains name ∨ name = request.name := by
    simp only [Claims.claim, Claims.contains, Std.HashSet.contains_insert, Bool.or_eq_true,
      beq_iff_eq]
    exact ⟨fun h => h.symm.imp_right Eq.symm, fun h => h.symm.imp_left Eq.symm⟩
  rw [← inserted]
  unfold transform
  split <;> rename_i claimed <;> rw [claimed]

/-- The names claimed after some calls are those claimed before and those of the calls. -/
theorem contains_after (requests : List Request) (claims : Claims) (state : σ) (name : String) :
    (p.after requests claims state).1.contains name ↔
      claims.contains name ∨ name ∈ requests.map Request.name := by
  induction requests generalizing claims state with
  | nil => simp [after]
  | cons request requests ih =>
    rw [after, ih, contains_report, List.map_cons, List.mem_cons, or_assoc]

/-- A run beside records has the results of the run without them. -/
theorem serve_answers (requests : List Request) (claims : Claims) (state : σ) :
    (p.serve requests claims state).map Report.result = p.answers requests claims state := by
  induction requests generalizing claims state with
  | nil => rfl
  | cons request requests ih =>
    obtain ⟨contacts, same, -, -⟩ := p.report_eq request claims state
    simp only [serve_cons, answers, List.map_cons, same, ih]

end Pipeline

end ClassInstrument
