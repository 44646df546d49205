import ClassInstrument.Proofs.Pipeline.Kept

/-!
# A cache that nobody sees

A pipeline whose rules and host look at nothing but the class gives the same results with a cache
as without one, and hands out the same classes, as long as the cache only answers with what it was
told during the run.

* `Pipeline.Deterministic` — rules and host depend on the class only;
* `Contact.Honest` — the cache only answers with what it was told before;
* `Call.Fixed` — calls that all have one result and hand out the same classes, whatever the world;
* `Pipeline.Trusted` — every entry of the cache is what a fresh run gives;
* `Pipeline.cache_unseen` — results and classes handed out are those without the cache.
-/

namespace ClassInstrument

open Call Contact

/-- What the one who calls sees of a call: its result, and the classes handed out. -/
def Report.visible (report : Report) : Except Failure Outcome × List Bytes :=
  (report.result, injections report.contacts)

namespace Pipeline

variable {σ : Type} (p : Pipeline σ)

/-- Rules and host look at nothing but the class: neither the world nor the names it has change what
they give. -/
structure Deterministic : Prop where
  handles : ∀ rule ∈ p.early ++ p.late, ∃ answer, ∀ name loader state,
    ((rule.handles name loader).outcome state).1 = answer
  rewrite : ∀ rule ∈ p.early ++ p.late, ∀ draft, ∃ answer, ∀ state,
    ((rule.rewrite draft).outcome state).1 = answer
  mandatory : ∀ bytes, ∃ answer, ∀ name loader state,
    ((p.mandatory name loader bytes).outcome state).1 = answer

end Pipeline

/-! ### Calls with one result -/

/-- Calls of a world with a record that all have the same result and hand out the same classes; the
value that they give, if they give one, has the property `V`. -/
def Call.Fixed {σ ι α : Type} (V : α → Prop) (calls : ι → Call (σ × List Contact) α) : Prop :=
  ∃ result out, (∀ value, result = .ok value → V value) ∧
    ∀ i state record, ∃ state' added,
      (calls i).outcome (state, record) = (result, state', record ++ added) ∧
        injections added = out

namespace Call.Fixed

variable {σ ι α β : Type} {V : α → Prop} {W : β → Prop} {f : ι → Call (σ × List Contact) α}

theorem pure {value : α} (h : V value) :
    Fixed V fun _ : ι => (Pure.pure value : Call (σ × List Contact) α) :=
  ⟨.ok value, [], fun _ same => Except.ok.inj same ▸ h,
    fun _ state record => ⟨state, [], by simp, rfl⟩⟩

theorem ofExcept (result : Except Failure α) :
    Fixed (fun _ => True) fun _ : ι => (Call.ofExcept result : Call (σ × List Contact) α) :=
  ⟨result, [], fun _ _ => trivial,
    fun _ state record => ⟨state, [], by simp [outcome_ofExcept], rfl⟩⟩

theorem bind {g : ι → α → Call (σ × List Contact) β} (first : Fixed V f)
    (next : ∀ value, V value → Fixed W fun i => g i value) : Fixed W fun i => f i >>= g i := by
  obtain ⟨result, out, valid, first⟩ := first
  cases result with
  | error e =>
    refine ⟨.error e, out, fun _ h => (nomatch h), fun i state record => ?_⟩
    obtain ⟨state', added, ends, sent⟩ := first i state record
    exact ⟨state', added, by rw [outcome_bind, ends], sent⟩
  | ok value =>
    obtain ⟨result, out', valid, next⟩ := next value (valid value rfl)
    refine ⟨result, out ++ out', valid, fun i state record => ?_⟩
    obtain ⟨state', added, goesOn, sent⟩ := first i state record
    obtain ⟨state'', later, ends, sent'⟩ := next i state' (record ++ added)
    refine ⟨state'', added ++ later, ?_, by simp [sent, sent']⟩
    rw [outcome_bind, goesOn, ← List.append_assoc]
    exact ends

theorem withReason (reason : Failure → Failure) (h : Fixed V f) :
    Fixed (fun _ => True) fun i => (f i).withReason reason := by
  obtain ⟨result, out, -, h⟩ := h
  refine ⟨result.mapError reason, out, fun _ _ => trivial, fun i state record => ?_⟩
  obtain ⟨state', added, ends, sent⟩ := h i state record
  exact ⟨state', added, by rw [outcome_withReason, ends], sent⟩

/-- Some of the calls. -/
theorem comp {κ : Type} (h : Fixed V f) (i : κ → ι) : Fixed V fun k => f (i k) := by
  obtain ⟨result, out, valid, h⟩ := h
  exact ⟨result, out, valid, fun k => h (i k)⟩

/-- Calls whose results and records are known. -/
theorem of_records {plain : ι → Call σ α} {result : Except Failure α} {out : List Bytes}
    (h : ∀ i, Records (plain i) (f i) fun r added => r = result ∧ injections added = out) :
    Fixed (fun _ => True) f := by
  refine ⟨result, out, fun _ _ => trivial, fun i state record => ?_⟩
  obtain ⟨added, same, ends, sent⟩ := (h i).outcome_eq state record
  exact ⟨_, added, by rw [same, ends], sent⟩

/-- Calls of the plain world with one result, noted without handing out anything. -/
theorem noting {plain : ι → Call σ α} {result : Except Failure α} (note : Contact)
    (silent : note.injected? = none) (h : ∀ i state, ((plain i).outcome state).1 = result) :
    Fixed (fun _ => True) fun i => (plain i).noting fun _ => note := by
  refine ⟨result, [], fun _ _ => trivial, fun i state record =>
    ⟨((plain i).outcome state).2, [note], ?_, by simp [injections, silent]⟩⟩
  rw [outcome_noting, h]

end Call.Fixed

/-! ### Rules -/

/-- The names under which a class is known. -/
abbrev Names := String × String

/-- A rule of a world with a record that depends on the class only. -/
structure Rule.Constant {σ : Type} (rule : Rule (σ × List Contact)) : Prop where
  handles : Fixed (fun _ => True) fun names : Names => rule.handles names.1 names.2
  rewrite : ∀ draft, Fixed (fun _ => True) fun _ : Names => rule.rewrite draft

theorem Relocation.constant_rule {σ : Type} : Rule.Constant (σ := σ) rule where
  handles := .pure trivial
  rewrite _ := .pure trivial

namespace Pipeline

variable {σ : Type} {p : Pipeline σ} {rules : List (Rule (σ × List Contact))}

theorem Deterministic.constant (h : p.Deterministic) {rule : Rule σ}
    (member : rule ∈ p.early ++ p.late) : rule.recorded.Constant where
  handles := by
    obtain ⟨answer, same⟩ := h.handles rule member
    exact .noting (.asked rule.name) rfl fun names state => same names.1 names.2 state
  rewrite draft := by
    obtain ⟨answer, same⟩ := h.rewrite rule member draft
    exact .noting (.rewrote rule.name) rfl fun _ state => same state

/-- All rules that ask for a class are among those given. -/
theorem fixed_applicable (constant : ∀ rule ∈ rules, rule.Constant) :
    Fixed (fun asking => ∀ rule ∈ asking, rule.Constant)
      fun names : Names => applicable rules names.1 names.2 := by
  have picked : ∀ front : List (Rule (σ × List Contact)), (∀ rule ∈ front, rule.Constant) →
      Fixed (fun asking => ∀ rule ∈ asking, rule.Constant) fun names : Names =>
        rules.filterAuxM (fun rule => rule.handles names.1 names.2) front := by
    induction rules with
    | nil => exact fun front valid => .pure valid
    | cons rule rules ih =>
      intro front valid
      have here := constant rule List.mem_cons_self
      refine here.handles.bind fun asks _ =>
        ih (fun rule member => constant rule (List.mem_cons_of_mem _ member)) _ ?_
      cases asks with
      | true => exact List.forall_mem_cons.2 ⟨here, valid⟩
      | false => exact valid
  exact (picked [] fun _ h => nomatch h).bind fun asking valid =>
    .pure fun rule member => valid rule (List.mem_reverse.1 member)

theorem fixed_runRules (constant : ∀ rule ∈ rules, rule.Constant) (result : Bool × Draft) :
    Fixed (fun _ => True) fun _ : Names => rules.foldlM runRule result := by
  induction rules generalizing result with
  | nil => exact .pure trivial
  | cons rule rules ih =>
    simp only [List.foldlM_cons]
    have here := (constant rule List.mem_cons_self).rewrite result.2
    refine Fixed.bind (V := fun _ => True) ((here.withReason _).bind fun _ _ => .pure trivial)
      fun result _ => ?_
    exact ih (fun rule member => constant rule (List.mem_cons_of_mem _ member)) result

variable (p) in
theorem fixed_runPhase (constant : ∀ rule ∈ rules, rule.Constant) (bytes : Bytes) :
    Fixed (fun _ => True) fun names : Names =>
      p.recorded.runPhase rules names.1 names.2 bytes := by
  refine (fixed_applicable constant).bind fun asking valid => ?_
  split
  · exact .pure trivial
  · refine (Fixed.ofExcept _).bind fun unit _ => (fixed_runRules valid _).bind ?_
    rintro ⟨changed, draft⟩ _
    cases changed with
    | true => exact (Fixed.ofExcept _).bind fun _ _ => .pure trivial
    | false => exact .pure trivial

/-! ### The way of a class -/

/-- The names of a class, and the cache of the pipeline it goes through. -/
structure Way (σ : Type) where
  names : Names
  cache : Option (Cache σ)

variable (deterministic : p.Deterministic)

include deterministic

theorem fixed_mandatory (bytes : Bytes) :
    Fixed (fun _ => True) fun names : Names => p.recorded.mandatory names.1 names.2 bytes := by
  obtain ⟨answer, same⟩ := deterministic.mandatory bytes
  exact .noting (.mandatory bytes) rfl fun names state => same names.1 names.2 state

omit deterministic in
theorem fixed_dumpIn (modes : List DumpMode) (bytes : Bytes) :
    Fixed (fun _ => True) fun names : Names => p.recorded.dumpIn modes names.1 bytes :=
  .of_records fun names => (p.records_dumpIn modes names.1 bytes).mono fun _ _ h =>
    ⟨h.1, h.2.injections⟩

omit deterministic in
theorem fixed_finish {ι : Type} (bytes : Bytes) (relocate : Bool) :
    Fixed (fun _ => True) fun _ : ι => p.recorded.finish bytes relocate :=
  .of_records fun _ => (p.records_finish bytes relocate).mono fun _ _ h => h.2

/-- A class that no rule sees has the same fate under the same bytes. -/
theorem fixed_processDenied (bytes : Bytes) :
    Fixed (fun _ => True) fun names : Names =>
      p.recorded.processDenied names.1 names.2 bytes :=
  (fixed_dumpIn _ bytes).bind fun _ _ => (fixed_mandatory deterministic bytes).bind fun _ _ =>
    (Fixed.ofExcept _).bind fun _ _ => fixed_finish _ _

/-- A class that the cache does not know has the same fate under every name and with every
cache. -/
theorem fixed_processFresh (original : Bytes) :
    Fixed (fun _ => True) fun way : Way σ =>
      (p.withCache way.cache).recorded.processFresh way.names.1 way.names.2 original := by
  have early : ∀ rule ∈ p.recorded.early, rule.Constant := by
    intro rule member
    obtain ⟨plain, among, rfl⟩ := List.mem_map.1 member
    exact deterministic.constant (List.mem_append_left _ among)
  have late : ∀ rule ∈ p.recorded.late, rule.Constant := by
    intro rule member
    obtain ⟨plain, among, rfl⟩ := List.mem_map.1 member
    exact deterministic.constant (List.mem_append_right _ among)
  have relocating : ∀ rule ∈ p.recorded.late ++ [Relocation.rule], rule.Constant := by
    intro rule member
    rcases List.mem_append.1 member with among | last
    · exact late rule among
    · exact List.mem_singleton.1 last ▸ Relocation.constant_rule
  unfold processFresh
  refine (Fixed.ofExcept _).bind fun relocate _ => ?_
  refine ((fixed_runPhase p early original).comp Way.names).bind fun first _ => ?_
  refine ((fixed_mandatory deterministic first.2).comp Way.names).bind fun made _ => ?_
  have ends : ∀ (modes : List DumpMode) (bytes : Bytes),
      Fixed (fun _ => True) fun way : Way σ =>
        (p.withCache way.cache).recorded.dumpIn modes way.names.1 bytes >>= fun _ =>
          (p.withCache way.cache).recorded.finish bytes relocate := fun modes bytes =>
    ((fixed_dumpIn modes bytes).comp Way.names).bind fun _ _ => fixed_finish bytes relocate
  cases relocate with
  | true =>
    exact ((fixed_runPhase p relocating made).comp Way.names).bind fun second _ => ends _ second.2
  | false =>
    refine ((fixed_runPhase p late made).comp Way.names).bind fun second _ => ?_
    have told : Fixed (fun _ => True) fun way : Way σ =>
        (p.withCache way.cache).recorded.remember original second.2 :=
      .of_records fun way => ((p.withCache way.cache).records_remember original second.2).mono
        fun _ _ h => ⟨h.1, h.2.1⟩
    exact told.bind fun _ _ => ends _ second.2

omit deterministic in
/-- Every entry of the cache is what a class with those bytes becomes that the cache does not know:
under every name, in every world and with every cache. -/
def Trusted (p : Pipeline σ) (told : List (Bytes × Bytes)) : Prop :=
  ∀ entry ∈ told, ∀ (way : Way σ) state record, ∃ state' added,
    ((p.withCache way.cache).recorded.processFresh way.names.1 way.names.2 entry.1).outcome
        (state, record) = (.ok (.bytes entry.2), state', record ++ added) ∧
      injections added = []

/-- What a class becomes that the cache does not know, with and without a cache; what the cache is
told is trustworthy. -/
theorem processFresh_unseen (name loader : String) (bytes : Bytes) (state state' : σ)
    (record record' : List Contact) :
    ∃ result s s' added added',
      (p.recorded.processFresh name loader bytes).outcome (state, record) =
        (result, s, record ++ added) ∧
      ((p.withCache none).recorded.processFresh name loader bytes).outcome (state', record') =
        (result, s', record' ++ added') ∧
      injections added = injections added' ∧ p.Trusted (puts added) := by
  obtain ⟨result, out, -, fixed⟩ := fixed_processFresh deterministic bytes
  obtain ⟨s, added, ends, sent⟩ := fixed ⟨(name, loader), p.cache⟩ state record
  obtain ⟨s', added', ends', sent'⟩ := fixed ⟨(name, loader), none⟩ state' record'
  refine ⟨result, s, s', added, added', ends, ends', sent.trans sent'.symm, ?_⟩
  intro entry member way here before
  obtain ⟨again, same, delivered, remembered⟩ :=
    (p.records_processFresh name loader bytes).outcome_eq state record
  have both := ends.symm.trans same
  simp only [Prod.mk.injEq, List.append_cancel_left_eq] at both
  obtain ⟨value, -, rfl⟩ := both
  rw [← value] at delivered remembered
  obtain ⟨original, returned⟩ := remembered entry member
  obtain ⟨s'', added'', ends'', sent''⟩ := fixed way here before
  exact ⟨s'', added'', by rw [original, ← returned, ends''],
    by rw [sent'', ← sent, delivered.returned _ returned]⟩

/-- A class that no rule sees, with and without a cache. -/
theorem processDenied_unseen (name loader : String) (bytes : Bytes) (state state' : σ) :
    ∃ result s s' added added',
      (p.recorded.processDenied name loader bytes).outcome (state, []) = (result, s, added) ∧
      ((p.withCache none).recorded.processDenied name loader bytes).outcome (state', []) =
        (result, s', added') ∧
      injections added = injections added' ∧ puts added = [] := by
  obtain ⟨result, out, -, fixed⟩ := fixed_processDenied deterministic bytes
  obtain ⟨s, added, ends, sent⟩ := fixed (name, loader) state []
  obtain ⟨s', added', ends', sent'⟩ := fixed (name, loader) state' []
  refine ⟨result, s, s', added, added', ends, ends', sent.trans sent'.symm, ?_⟩
  obtain ⟨again, same, -, untold⟩ :=
    (p.records_processDenied name loader bytes).outcome_eq state []
  have both := ends.symm.trans same
  simp only [Prod.mk.injEq, List.append_cancel_left_eq] at both
  obtain ⟨-, -, rfl⟩ := both
  exact untold

/-- **One class.**  If what the cache was told is trustworthy and it answers with nothing else, the
class has the same fate with the cache as without. -/
theorem process_unseen {told : List (Bytes × Bytes)} (trusted : p.Trusted told)
    (name loader : String) (bytes : Bytes) (state state' : σ)
    (honest : ∀ known, ((p.recorded.process name loader bytes).outcome (state, [])).2.2 =
      [.looked bytes (some known)] → (bytes, known) ∈ told) :
    ∃ result s s' added added',
      (p.recorded.process name loader bytes).outcome (state, []) = (result, s, added) ∧
      ((p.withCache none).recorded.process name loader bytes).outcome (state', []) =
        (result, s', added') ∧
      injections added = injections added' ∧ p.Trusted (puts added) := by
  have nothing : p.Trusted [] := fun _ h => nomatch h
  unfold process at honest ⊢
  by_cases empty : bytes.isEmpty
  · simp only [if_pos empty]
    exact ⟨.ok (.bytes bytes), state, state', [], [], rfl, rfl, rfl, nothing⟩
  by_cases denied : p.isDenied name
  · have denied' : p.recorded.isDenied name = true := denied
    have denied'' : (p.withCache none).recorded.isDenied name = true := denied
    simp only [if_neg empty, if_pos denied', if_pos denied'']
    obtain ⟨result, s, s', added, added', ends, ends', sent, untold⟩ :=
      processDenied_unseen deterministic name loader bytes state state'
    exact ⟨result, s, s', added, added', ends, ends', sent, untold ▸ nothing⟩
  have denied' : ¬ p.recorded.isDenied name = true := denied
  have denied'' : ¬ (p.withCache none).recorded.isDenied name = true := denied
  simp only [if_neg empty, if_neg denied', if_neg denied''] at honest ⊢
  obtain ⟨first, looked, quiet, found, answer, known⟩ :=
    (p.records_lookup bytes).outcome_eq state []
  have unknown : ((p.withCache none).recorded.lookup bytes).outcome (state', []) =
      (.ok none, state', []) := rfl
  simp only [outcome_bind, unknown, looked, answer, List.nil_append] at honest ⊢
  cases found with
  | none =>
    obtain ⟨result, s, s', added, added', ends, ends', sent, valid⟩ := processFresh_unseen
      deterministic name loader bytes ((p.lookup bytes).outcome state).2 state' first []
    refine ⟨result, s, s', first ++ added, added', ends, ends', ?_, ?_⟩
    · simp [quiet.injections, sent]
    · simpa [quiet.puts] using valid
  | some known =>
    rcases known with rfl | ⟨_, _, ⟨⟩⟩
    obtain ⟨s', added', ends', sent'⟩ :=
      trusted (bytes, known) (honest known rfl) ⟨(name, loader), none⟩ state' []
    exact ⟨.ok (.bytes known), _, s', _, added', rfl, ends', sent'.symm, nothing⟩

/-- One call, whether or not its name is claimed. -/
theorem report_unseen {told : List (Bytes × Bytes)} (trusted : p.Trusted told)
    (request : Request) (claims : Claims) (state state' : σ)
    (honest : ∀ known, (p.report request claims state).1.contacts =
      [.looked request.bytes (some known)] → (request.bytes, known) ∈ told) :
    ∃ report report' claims' s s',
      p.report request claims state = (report, claims', s) ∧
      (p.withCache none).report request claims state' = (report', claims', s') ∧
      report.visible = report'.visible ∧ p.Trusted (puts report.contacts) := by
  unfold report transform at honest ⊢
  cases claimed : claims.claim request.name with
  | mk free claims' =>
    rw [claimed] at honest
    cases free with
    | false =>
      exact ⟨_, _, claims', state, state', rfl, rfl, rfl, fun _ h => nomatch h⟩
    | true =>
      obtain ⟨result, s, s', added, added', ends, ends', sent, valid⟩ :=
        process_unseen deterministic trusted request.name request.loader request.bytes state state'
          honest
      refine ⟨⟨result, added⟩, ⟨result, added'⟩, claims', s, s', ?_, ?_, ?_, valid⟩
      · simp only [ends]
      · simp only [ends']
      · simp only [Report.visible, sent]

/-- **A run.**  What was told before is trustworthy, and everything told on the way is as well. -/
theorem serve_unseen (requests : List Request) {earlier : List Contact}
    (trusted : p.Trusted (puts earlier)) (claims : Claims) (state state' : σ)
    (honest : Honest (earlier ++ (p.serve requests claims state).flatMap Report.contacts)) :
    (p.serve requests claims state).map Report.visible =
      ((p.withCache none).serve requests claims state').map Report.visible := by
  induction requests generalizing earlier claims state state' with
  | nil => rfl
  | cons request requests ih =>
    rw [serve_cons, List.flatMap_cons] at honest
    obtain ⟨report, report', claims', s, s', here, there, same, valid⟩ :=
      report_unseen deterministic trusted request claims state state' fun known only =>
        mem_puts.2 (honest earlier _ known _ (by rw [only]; rfl))
    simp only [serve_cons, here, there, List.map_cons] at honest ⊢
    have told : p.Trusted (puts (earlier ++ report.contacts)) := by
      intro entry member
      rw [puts_append] at member
      exact (List.mem_append.1 member).elim (trusted entry) (valid entry)
    rw [same, ih told claims' s s' (by simpa using honest)]

/-- **Nobody sees the cache.**  Rules and host look at nothing but the class, and the cache only
answers with what it was told in this run for exactly the same bytes; it may forget, fail to answer
and fail to be told.  Then every call gives the result, and hands out the classes, that it gives and
hands out on the pipeline without the cache. -/
theorem cache_unseen (requests : List Request) (state state' : σ)
    (honest : Honest ((p.serve requests .empty state).flatMap Report.contacts)) :
    (p.serve requests .empty state).map Report.visible =
      ((p.withCache none).serve requests .empty state').map Report.visible :=
  have nothing : p.Trusted (puts []) := fun _ h => nomatch h
  serve_unseen deterministic requests nothing .empty state state' honest

omit deterministic in
/-- Rules and a transformation that are given as data look at nothing but the class, if the rules
ask for every class. -/
theorem deterministic_of_scripts {p : Pipeline Host} {scripts : List RuleScript}
    {script : MandatoryScript} (rules : p.early ++ p.late = scripts.map RuleScript.toRule)
    (every : ∀ script ∈ scripts, script.start = "") (mandatory : p.mandatory = script.run) :
    p.Deterministic where
  handles := by
    intro rule member
    obtain ⟨script, among, rfl⟩ := List.mem_map.1 (rules ▸ member)
    refine ⟨.ok true, fun name loader state => ?_⟩
    simp only [RuleScript.toRule, outcome_bind, outcome_modify, outcome_pure]
    simp [every script among, startsWith]
  rewrite := by
    intro rule member draft
    obtain ⟨script, among, rfl⟩ := List.mem_map.1 (rules ▸ member)
    refine ⟨Edit.applyAll script.edits draft, fun state => ?_⟩
    simp only [RuleScript.toRule, outcome_bind, outcome_modify, outcome_ofExcept]
  mandatory := by
    intro bytes
    refine ⟨script.apply bytes, fun name loader state => ?_⟩
    rw [mandatory]
    cases script <;> simp only [MandatoryScript.run, outcome_bind, outcome_modify, outcome_ofExcept,
      outcome_pure, MandatoryScript.apply]

/-- A rule that changes every class. -/
def markingScript : RuleScript := ⟨⟨"example", "marking"⟩, "", false, [.interface "Marked"]⟩

/-- A pipeline with a cache on disk and a rule that changes every class. -/
def marking : Pipeline Host where
  early := [markingScript.toRule]
  late := []
  mandatory := MandatoryScript.passThrough.run
  cache := some (CacheScript.diskCache DiskCache.defaultName 0)
  escape := Host.escape
  dump := none
  denylist := []
  hierarchy := .flat

/-- A host with an empty cache on disk. -/
def hostWithDisk : Host := { Host.ofFiles default with disks := [.new DiskCache.defaultName "cache"] }

/-- The same class under two names. -/
def twoNames : List Request :=
  let bytes := [0xCA, 0xFE, 0xBA, 0xBE, 0, 0, 0, 52, 0, 3, 1, 0, 1, 0x41, 7, 0, 1, 0, 0x21, 0, 2,
    0, 0, 0, 0, 0, 0, 0, 0, 0, 0]
  [⟨"a.A", "a.A", bytes⟩, ⟨"b.A", "b.A", bytes⟩]

omit deterministic in
/-- The second name may get what the cache on disk holds for the first one, and nobody sees that. -/
theorem cache_unseen_twoNames :
    marking.Deterministic ∧
    Honest ((marking.serve twoNames .empty hostWithDisk).flatMap Report.contacts) ∧
    (marking.serve twoNames .empty hostWithDisk).map Report.visible =
      ((marking.withCache none).serve twoNames .empty hostWithDisk).map Report.visible := by
  have rules : marking.early ++ marking.late = [markingScript].map RuleScript.toRule := rfl
  have mandatory : marking.mandatory = MandatoryScript.passThrough.run := rfl
  have deterministic : marking.Deterministic :=
    deterministic_of_scripts rules (by simp [markingScript]) mandatory
  have honest := honest_disk (leavesDisks_of_scripts rules mandatory rfl rfl) rfl twoNames
    hostWithDisk (by decide) rfl (by simp [twoNames])
  exact ⟨deterministic, honest, cache_unseen deterministic twoNames _ _ honest⟩

end Pipeline

end ClassInstrument
