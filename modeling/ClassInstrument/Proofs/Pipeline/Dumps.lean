import ClassInstrument.Proofs.Pipeline.Recorded

/-!
# What is dumped when dumps are forced

A sink that is forced gets classes in two places: a class that no rule sees before the host's own
transformation, and any other class at the very end of its way.  So what a call dumps is what its
loader gets, unless the class takes one of two short ways: it is known to the cache, or it is
denied.

* `Contact.dumps` — what is dumped in a record;
* `Pipeline.Delivers` — what the loader of a class gets, or what is handed out instead;
* `Pipeline.Shown` — a call dumps what it delivers, and nothing if it fails;
* `Pipeline.ForcedWay` — **the three ways of a class**;
* `Pipeline.forced_dumps` — what every call of a run dumps, and when that is what it delivers.
-/

namespace ClassInstrument

open Call

namespace Contact

/-- The class that is dumped, with the name it is dumped under. -/
def dumped? : Contact → Option (String × Bytes)
  | dumped name bytes => some (name, bytes)
  | _ => none

/-- Everything that is dumped in a record. -/
def dumps (record : List Contact) : List (String × Bytes) := record.filterMap dumped?

@[simp] theorem dumps_append (first second : List Contact) :
    dumps (first ++ second) = dumps first ++ dumps second := List.filterMap_append

/-- A record in which nothing is dumped and nothing is handed out. -/
structure Withheld (record : List Contact) : Prop where
  dumps : dumps record = []
  injections : injections record = []

theorem OfRules.withheld {record : List Contact} (h : OfRules record) : Withheld record :=
  ⟨h.filterMap (fun _ => rfl) fun _ => rfl, h.filterMap (fun _ => rfl) fun _ => rfl⟩

end Contact

open Contact

namespace Pipeline

variable {σ : Type} (p : Pipeline σ)

/-- Every class is to be dumped. -/
def Forces : Prop := ∃ write, p.dump = some ⟨.force, write⟩

/-- A call gives its loader some bytes, or hands them out. -/
def Delivers (result : Except Failure Outcome) (record : List Contact) (made : Bytes) : Prop :=
  result = .ok (.bytes made) ∧ injections record = [] ∨
    result = .ok .redirected ∧ injections record = [made]

/-- A call dumps what it delivers, once and under a name, and nothing if it fails. -/
structure Shown (name : String) (result : Except Failure Outcome) (record : List Contact) :
    Prop where
  failed : ∀ e, result = .error e → dumps record = []
  delivered : ∀ outcome, result = .ok outcome →
    ∃ made, dumps record = [(name, made)] ∧ Delivers result record made

theorem skips_shown (name : String) : Skips Withheld (Shown name) where
  skip r added later withheld h := by
    constructor <;> simp only [Delivers, dumps_append, injections_append, withheld.dumps,
      withheld.injections, List.nil_append]
    exacts [h.failed, h.delivered]
  stop e added withheld := ⟨fun _ _ => withheld.dumps, fun _ h => nomatch h⟩

theorem skips_undumped {α : Type} : Skips (fun record => dumps record = [])
    fun (_ : Except Failure α) added => dumps added = [] where
  skip r added later h h' := by rw [dumps_append, h, h', List.append_nil]
  stop e added := id

/-! ### The calls to single collaborators -/

theorem withheld_mandatory (name loader : String) (bytes : Bytes) :
    Records (p.mandatory name loader bytes) (p.recorded.mandatory name loader bytes)
      fun _ added => Withheld added :=
  Records.noting (fun _ => Contact.mandatory bytes) fun _ => ⟨rfl, rfl⟩

theorem withheld_runPhase {rules : List (Rule σ)} {rules' : List (Rule (σ × List Contact))}
    (same : List.Forall₂ Rule.Tracked rules rules') (name loader : String) (bytes : Bytes) :
    Records (p.runPhase rules name loader bytes) (p.recorded.runPhase rules' name loader bytes)
      fun _ added => Withheld added :=
  (p.records_runPhase same name loader bytes).mono fun _ _ => OfRules.withheld

theorem withheld_remember (original made : Bytes) :
    Records (p.remember original made) (p.recorded.remember original made)
      fun _ added => Withheld added := by
  refine (p.records_remember_eq original made).mono ?_
  rintro r added ⟨-, rfl | rfl⟩ <;> exact ⟨rfl, rfl⟩

variable {p} in
/-- A forced sink gets the class wherever that mode is one of some. -/
theorem records_dumpIn_forced (forced : p.Forces) {modes : List DumpMode}
    (asks : modes.contains .force = true) (name : String) (bytes : Bytes) :
    Records (p.dumpIn modes name bytes) (p.recorded.dumpIn modes name bytes) fun r added =>
      r = .ok () ∧ added = [.dumped name bytes] := by
  obtain ⟨write, sink⟩ := forced
  unfold dumpIn recorded
  simp only [sink, Option.map_some, asks, if_true]
  exact Records.noted ⟨rfl, rfl⟩

/-- The end of a way delivers the class, and dumps nothing more. -/
theorem records_finish_delivers (bytes : Bytes) (relocate : Bool) :
    Records (p.finish bytes relocate) (p.recorded.finish bytes relocate) fun r added =>
      Delivers r added bytes ∧ dumps added = [] := by
  refine (p.records_finish_eq bytes relocate).mono ?_
  rintro r added ⟨rfl, rfl⟩
  cases relocate with
  | false => exact ⟨.inl ⟨rfl, rfl⟩, rfl⟩
  | true => exact ⟨.inr ⟨rfl, rfl⟩, rfl⟩

/-! ### The ways of a class -/

section Forced

variable {p} (forced : p.Forces)

include forced

/-- The last class of a way is dumped, and then delivered. -/
theorem records_dump_finish {modes : List DumpMode} (asks : modes.contains .force = true)
    (name : String) (bytes : Bytes) (relocate : Bool) :
    Records (p.dumpIn modes name bytes >>= fun _ => p.finish bytes relocate)
      (p.recorded.dumpIn modes name bytes >>= fun _ => p.recorded.finish bytes relocate)
      (Shown name) := by
  refine Records.bind (records_dumpIn_forced forced asks name bytes) (fun e _ h => nomatch h.1) ?_
  rintro _ _ ⟨-, rfl⟩
  refine (p.records_finish_delivers bytes relocate).mono fun r added ⟨delivers, undumped⟩ => ?_
  refine ⟨fun e failed => ?_, fun outcome _ => ⟨bytes, ?_, ?_⟩⟩
  · rcases delivers with ⟨returned, -⟩ | ⟨redirected, -⟩
    · rw [failed] at returned
      cases returned
    · rw [failed] at redirected
      cases redirected
  · rw [dumps_append, undumped]
    rfl
  · have unsent : injections [.dumped name bytes] = [] := rfl
    rwa [Delivers, injections_append, unsent, List.nil_append]

/-- A class that the cache does not know is shown as it is delivered. -/
theorem shown_processFresh (name loader : String) (original : Bytes) :
    Records (p.processFresh name loader original) (p.recorded.processFresh name loader original)
      (Shown name) := by
  have skips := skips_shown name
  have asks : ∀ changed : Bool,
      (if changed then [DumpMode.on, .force] else [.force]).contains .force = true := by decide
  unfold processFresh
  refine Records.bind_skips (Records.ofExcept ⟨rfl, rfl⟩) skips fun relocate => ?_
  refine Records.bind_skips (p.withheld_runPhase (Rule.tracked_all p.early) name loader original)
    skips fun early => ?_
  refine Records.bind_skips (p.withheld_mandatory name loader early.2) skips fun made => ?_
  cases relocate with
  | true =>
    have rules : List.Forall₂ Rule.Tracked (p.late ++ [Relocation.rule])
        (p.recorded.late ++ [Relocation.rule]) :=
      List.rel_append (Rule.tracked_all p.late) (.cons Relocation.tracked_rule .nil)
    refine Records.bind_skips (p.withheld_runPhase rules name loader made) skips fun late => ?_
    exact records_dump_finish forced (asks _) name late.2 true
  | false =>
    refine Records.bind_skips (p.withheld_runPhase (Rule.tracked_all p.late) name loader made)
      skips fun late => ?_
    refine Records.bind_skips (p.withheld_remember original late.2) skips fun _ => ?_
    exact records_dump_finish forced (asks _) name late.2 false

/-- A class that no rule sees is dumped as it came, whatever becomes of it. -/
theorem dumps_processDenied (name loader : String) (bytes : Bytes) :
    Records (p.processDenied name loader bytes) (p.recorded.processDenied name loader bytes)
      fun _ added => dumps added = [(name, bytes)] := by
  have skips := skips_undumped (α := Outcome)
  unfold processDenied
  refine Records.bind (records_dumpIn_forced forced rfl name bytes) (fun e _ h => nomatch h.1) ?_
  rintro _ _ ⟨-, rfl⟩
  have rest : Records (p.mandatory name loader bytes >>= fun made =>
        Call.ofExcept (Relocation.isMarked made) >>= fun relocate => p.finish made relocate)
      (p.recorded.mandatory name loader bytes >>= fun made =>
        Call.ofExcept (Relocation.isMarked made) >>= fun relocate =>
          p.recorded.finish made relocate) fun _ added => dumps added = [] := by
    refine Records.bind_skips ((p.withheld_mandatory name loader bytes).mono fun _ _ h => h.dumps)
      skips fun made => ?_
    have checked : Records (Call.ofExcept (Relocation.isMarked made) : Call σ Bool)
        (Call.ofExcept (Relocation.isMarked made)) fun _ added => dumps added = [] :=
      Records.ofExcept rfl
    refine Records.bind_skips checked skips fun relocate => ?_
    exact (p.records_finish_delivers made relocate).mono fun _ _ h => h.2
  refine rest.mono fun r added undumped => ?_
  rw [dumps_append, undumped]
  rfl

end Forced

/-! ### One call -/

/-- **The three ways of a class**, with what each of them dumps. -/
inductive ForcedWay (request : Request) : Report → Prop
  /-- A class that no rule sees is dumped as it came. -/
  | denied {report : Report} (denied : p.isDenied request.name = true)
      (dumped : dumps report.contacts = [(request.name, request.bytes)]) : ForcedWay request report
  /-- A class that the cache knows is returned, and not dumped. -/
  | known {made : Bytes} (allowed : p.isDenied request.name = false) :
      ForcedWay request ⟨.ok (.bytes made), [.looked request.bytes (some made)]⟩
  /-- Any other class is dumped as it is delivered. -/
  | fresh {report : Report} (allowed : p.isDenied request.name = false)
      (shown : Shown request.name report.result report.contacts) : ForcedWay request report

variable {p}

/-- A class that is not empty takes one of the ways when it is seen for the first time. -/
theorem forcedWay_process (forced : p.Forces) (request : Request) (some' : request.bytes ≠ []) :
    Records (p.process request.name request.loader request.bytes)
      (p.recorded.process request.name request.loader request.bytes)
      fun r added => p.ForcedWay request ⟨r, added⟩ := by
  have denylist : p.recorded.isDenied request.name = p.isDenied request.name := rfl
  unfold process
  have nonempty : ¬request.bytes.isEmpty = true := by simpa using some'
  rw [denylist, if_neg nonempty, if_neg nonempty]
  cases denied : p.isDenied request.name with
  | true =>
    exact (dumps_processDenied forced request.name request.loader request.bytes).mono
      fun _ _ dumped => .denied denied dumped
  | false =>
    rw [if_neg Bool.false_ne_true, if_neg Bool.false_ne_true]
    refine Records.bind (p.records_lookup request.bytes) (fun e _ ⟨_, _, h, _⟩ => nomatch h) ?_
    rintro found asked ⟨-, _, ⟨⟩, looked⟩
    cases found with
    | some made =>
      rcases looked with rfl | ⟨-, -, ⟨⟩⟩
      exact Records.pure (.known denied)
    | none =>
      have withheld : Withheld asked := by
        rcases looked with rfl | ⟨-, rfl, -⟩ <;> exact ⟨rfl, rfl⟩
      exact (shown_processFresh forced request.name request.loader request.bytes).mono
        fun r later shown =>
          .fresh denied ((skips_shown request.name).skip r asked later withheld shown)

/-- **When a call that succeeds dumps what it delivers.** -/
theorem ForcedWay.faithful_iff {request : Request} {report : Report}
    (way : p.ForcedWay request report) {outcome : Outcome} (ok : report.result = .ok outcome) :
    (∃ made, dumps report.contacts = [(request.name, made)] ∧
        Delivers report.result report.contacts made) ↔
      (∀ made, report.contacts ≠ [.looked request.bytes (some made)]) ∧
        (p.isDenied request.name = true →
          Delivers report.result report.contacts request.bytes) := by
  cases way with
  | denied denied dumped =>
    have other : ∀ made, report.contacts ≠ [.looked request.bytes (some made)] := by
      intro made same
      rw [same] at dumped
      cases dumped
    constructor
    · rintro ⟨made, same, delivers⟩
      rw [dumped] at same
      cases same
      exact ⟨other, fun _ => delivers⟩
    · exact fun ⟨_, delivers⟩ => ⟨request.bytes, dumped, delivers denied⟩
  | known allowed =>
    refine iff_of_false ?_ fun ⟨other, _⟩ => other _ rfl
    rintro ⟨made, ⟨⟩, -⟩
  | fresh allowed shown =>
    obtain ⟨made, dumped, delivers⟩ := shown.delivered outcome ok
    refine iff_of_true ⟨made, dumped, delivers⟩ ⟨fun other same => ?_, fun denied => ?_⟩
    · rw [same] at dumped
      cases dumped
    · rw [allowed] at denied
      cases denied

/-- What holds of the first call for a name holds of its report. -/
theorem report_first {P : Except Failure Outcome → List Contact → Prop} {request : Request}
    (records : Records (p.process request.name request.loader request.bytes)
      (p.recorded.process request.name request.loader request.bytes) P)
    {claims : Claims} (free : claims.contains request.name = false) (state : σ) :
    P (p.report request claims state).1.result (p.report request claims state).1.contacts := by
  have claimed : claims.claim request.name = (true, (claims.claim request.name).2) := by
    simpa [Claims.claim, Claims.contains] using free
  obtain ⟨added, same, holds⟩ := records.outcome_eq state []
  rw [List.nil_append] at same
  unfold report transform
  rw [claimed]
  simpa only [same] using holds

/-- A call for a name that was asked for before, or with no bytes, dumps nothing. -/
theorem dumps_report_silent {request : Request} {claims : Claims}
    (silent : claims.contains request.name = true ∨ request.bytes = []) (state : σ) :
    dumps (p.report request claims state).1.contacts = [] := by
  cases claimed : claims.contains request.name with
  | true =>
    obtain ⟨contacts, same, given, -⟩ := p.report_eq request claims state
    rw [same, (given claimed).2]
    rfl
  | false =>
    have empty : request.bytes.isEmpty = true := by
      rw [claimed] at silent
      simpa using silent
    refine report_first (P := fun _ added => dumps added = []) ?_ claimed state
    unfold process
    rw [if_pos empty, if_pos empty]
    exact Records.pure rfl

/-- **What forced dumps show.**  The results of a run are those of the plain pipeline.  A call for a
name that was asked for before, or with no bytes, dumps nothing.  Any other call takes one of the
three ways, and if it succeeds, it dumps exactly what it delivers, once and under its name, unless
the class was known to the cache, or is denied and was changed by the host's own transformation. -/
theorem forced_dumps (forced : p.Forces) (state : σ) :
    (∀ requests,
      (p.serve requests .empty state).map Report.result = p.answers requests .empty state) ∧
    ∀ history request later, ∃ report,
      (p.serve (history ++ request :: later) .empty state)[history.length]? = some report ∧
      (request.name ∈ history.map Request.name ∨ request.bytes = [] →
        dumps report.contacts = []) ∧
      (request.name ∉ history.map Request.name → request.bytes ≠ [] →
        p.ForcedWay request report ∧ ∀ outcome, report.result = .ok outcome →
          ((∃ made, dumps report.contacts = [(request.name, made)] ∧
              Delivers report.result report.contacts made) ↔
            (∀ made, report.contacts ≠ [.looked request.bytes (some made)]) ∧
              (p.isDenied request.name = true →
                Delivers report.result report.contacts request.bytes))) := by
  refine ⟨fun requests => p.serve_answers requests .empty state, fun history request later => ?_⟩
  let claims := (p.after history .empty state).1
  let before := (p.after history .empty state).2
  have claimed : claims.contains request.name ↔ request.name ∈ history.map Request.name := by
    refine (p.contains_after history .empty state request.name).trans ?_
    simp [Claims.contains, Claims.empty]
  refine ⟨(p.report request claims before).1, ?_, fun silent => ?_, fun unseen some' => ?_⟩
  · rw [serve_append, List.getElem?_append_right (by simp)]
    simp [serve_cons, claims, before]
  · exact dumps_report_silent (silent.imp_left claimed.2) before
  · have way : p.ForcedWay request (p.report request claims before).1 :=
      report_first (forcedWay_process forced request some')
        (Bool.not_eq_true _ ▸ mt claimed.1 unseen) before
    exact ⟨way, fun outcome ok => way.faithful_iff ok⟩

/-! ### Two short ways -/

/-- A pipeline with a cache that knows every class, and a host whose own transformation fails. -/
def shortcuts : Pipeline Unit where
  early := []
  late := []
  mandatory _ _ _ := throw (.transform "failed")
  cache := some ⟨⟨"example", "all"⟩, pure (), pure (), fun _ => pure (some [3]), fun _ _ => pure ()⟩
  escape _ := id
  dump := some ⟨.force, fun _ _ => id⟩
  denylist := ["a."]
  hierarchy := .flat

/-- A class that is denied, and one that is not. -/
def shortcutRun : List Request := [⟨"a.A", "a.A", [1]⟩, ⟨"b.B", "b.B", [2]⟩]

theorem serve_shortcutRun : shortcuts.serve shortcutRun .empty () =
    [⟨.error (.transform "failed"), [.dumped "a.A" [1], .mandatory [1]]⟩,
      ⟨.ok (.bytes [3]), [.looked [2] (some [3])]⟩] := by
  have free : Claims.empty.claim "a.A" = (true, (Claims.empty.claim "a.A").2) := by
    simp [Claims.claim, Claims.empty]
  have free' : (Claims.empty.claim "a.A").2.claim "b.B"
      = (true, ((Claims.empty.claim "a.A").2.claim "b.B").2) := by
    simp [Claims.claim, Claims.empty]
  unfold shortcutRun serve serve serve report transform
  rw [free]
  dsimp only
  rw [free']
  rfl

/-- The denied class is dumped though its call fails, and the other one is returned and not
dumped. -/
theorem forced_dumps_shortcuts : shortcuts.Forces ∧
    (∃ report, (shortcuts.serve shortcutRun .empty ())[0]? = some report ∧
      report.result = .error (.transform "failed") ∧ dumps report.contacts = [("a.A", [1])]) ∧
    ∃ report, (shortcuts.serve shortcutRun .empty ())[1]? = some report ∧
      report.result = .ok (.bytes [3]) ∧
      ¬∃ made, dumps report.contacts = [("b.B", made)] ∧
        Delivers report.result report.contacts made := by
  have forced : shortcuts.Forces := ⟨_, rfl⟩
  obtain ⟨-, each⟩ := forced_dumps forced ()
  refine ⟨forced, ?_, ?_⟩
  · obtain ⟨report, here, -, first⟩ := each [] ⟨"a.A", "a.A", [1]⟩ [⟨"b.B", "b.B", [2]⟩]
    obtain ⟨way, -⟩ := first (by simp) (by simp)
    have there := here
    rw [show [] ++ _ :: _ = shortcutRun from rfl, serve_shortcutRun] at there
    have denied : shortcuts.isDenied "a.A" = true := by decide
    refine ⟨report, here, ?_, ?_⟩
    · cases there
      rfl
    · cases way with
      | denied _ dumped => exact dumped
      | known allowed | fresh allowed _ =>
        rw [denied] at allowed
        cases allowed
  · obtain ⟨report, here, -, first⟩ := each [⟨"a.A", "a.A", [1]⟩] ⟨"b.B", "b.B", [2]⟩ []
    obtain ⟨-, faithful⟩ := first (by simp) (by simp)
    have there := here
    rw [show [_] ++ [_] = shortcutRun from rfl, serve_shortcutRun] at there
    cases there
    refine ⟨_, here, rfl, fun shown => ?_⟩
    exact ((faithful _ rfl).1 shown).1 _ rfl

end Pipeline

end ClassInstrument
