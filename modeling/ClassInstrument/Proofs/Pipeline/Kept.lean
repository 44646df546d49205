import ClassInstrument.Host.Basic
import ClassInstrument.Proofs.Cache.Entries
import ClassInstrument.Proofs.Pipeline.Recorded

/-!
# What a pipeline keeps

A pipeline does nothing to the world by itself: what all its collaborators keep, it keeps.  So a
cache on disk that nobody else changes answers with nothing but what it was told.

* `Call.Keeps` — a call keeps a property of the world, whether or not it fails;
* `Pipeline.Keeps`, `Pipeline.keeps_process` — collaborators that keep a property, and the way of a
  class;
* `Pipeline.honest_disk` — the cache on disk is honest as long as digests do not collide.
-/

namespace ClassInstrument

/-- A call keeps a property of the world, whether or not it fails. -/
def Call.Keeps {σ α : Type} (I : σ → Prop) (call : Call σ α) : Prop :=
  ∀ state, I state → I (call.outcome state).2

namespace Call.Keeps

variable {σ α β γ : Type} {I : σ → Prop} {call : Call σ α}

theorem pure (value : α) : Keeps I (Pure.pure value : Call σ α) := fun _ h => h

theorem ofExcept (result : Except Failure α) : Keeps I (Call.ofExcept result) := by
  intro state h
  rwa [outcome_ofExcept]

theorem modify {change : σ → σ} (h : ∀ state, I state → I (change state)) :
    Keeps I (modify change) := h

/-- One call after another; the second one is for a value that the first one gives. -/
theorem bind_of_gives {next : α → Call σ β} (first : Keeps I call)
    (goesOn : ∀ state value state', call.outcome state = (.ok value, state') →
      Keeps I (next value)) : Keeps I (call >>= next) := by
  intro state h
  have kept := first state h
  rw [outcome_bind]
  cases out : call.outcome state with
  | mk result state' =>
    rw [out] at kept
    cases result with
    | error e => exact kept
    | ok value => exact goesOn state value state' out state' kept

theorem bind {next : α → Call σ β} (first : Keeps I call) (goesOn : ∀ value, Keeps I (next value)) :
    Keeps I (call >>= next) := first.bind_of_gives fun _ value _ _ => goesOn value

theorem attempt (h : Keeps I call) : Keeps I call.attempt := h

theorem withReason (reason : Failure → Failure) (h : Keeps I call) :
    Keeps I (call.withReason reason) := by
  intro state holds
  rw [outcome_withReason]
  exact h state holds

theorem filterM {test : α → Call σ Bool} {l : List α} (tests : ∀ a ∈ l, Keeps I (test a)) :
    Keeps I (l.filterM test) := by
  have all : ∀ front, Keeps I (l.filterAuxM test front) := by
    induction l with
    | nil => exact fun front => .pure front
    | cons a l ih =>
      exact fun front => (tests a List.mem_cons_self).bind fun _ =>
        ih (fun a member => tests a (List.mem_cons_of_mem _ member)) _
  exact (all []).bind fun _ => .pure _

theorem foldlM {step : β → α → Call σ β} {l : List α}
    (steps : ∀ value, ∀ a ∈ l, Keeps I (step value a)) (value : β) : Keeps I (l.foldlM step value) := by
  induction l generalizing value with
  | nil => exact .pure value
  | cons a l ih =>
    rw [List.foldlM_cons]
    exact (steps value a List.mem_cons_self).bind
      (ih fun value a member => steps value a (List.mem_cons_of_mem _ member))

end Call.Keeps

open Call

/-- A rule keeps a property of the world. -/
structure Rule.Keeps {σ : Type} (I : σ → Prop) (rule : Rule σ) : Prop where
  handles : ∀ name loader, Call.Keeps I (rule.handles name loader)
  rewrite : ∀ draft, Call.Keeps I (rule.rewrite draft)

namespace Pipeline

variable {σ : Type} {I : σ → Prop} {p : Pipeline σ} {rules : List (Rule σ)}

/-- The collaborators of a pipeline keep a property of the world; for the cache this is only said
about what it is asked of some bytes. -/
structure Keeps (I : σ → Prop) (p : Pipeline σ) (bytes : Bytes) : Prop where
  rules : ∀ rule ∈ p.early ++ p.late, rule.Keeps I
  mandatory : ∀ name loader bytes, Call.Keeps I (p.mandatory name loader bytes)
  get : ∀ cache, p.cache = some cache → Call.Keeps I (cache.get bytes)
  put : ∀ cache, p.cache = some cache → ∀ made, Call.Keeps I (cache.put bytes made)
  escape : ∀ bytes state, I state → I (p.escape bytes state)
  dump : ∀ sink, p.dump = some sink → ∀ name bytes state, I state → I (sink.write name bytes state)

theorem mem_of_applicable {name loader : String} {state state' : σ} {asking : List (Rule σ)}
    (gives : (applicable rules name loader).outcome state = (.ok asking, state')) :
    ∀ rule ∈ asking, rule ∈ rules := by
  have picked := tracks_applicable (Rule.tracked_all rules) name loader state []
  rw [gives] at picked
  obtain ⟨_, _, _, ⟨_, h, _⟩ | ⟨among, _, h, _, _, subset⟩⟩ := picked
  · cases h
  · cases h
    exact fun rule member => subset member

theorem keeps_runPhase (kept : ∀ rule ∈ rules, rule.Keeps I) (name loader : String) (bytes : Bytes) :
    Call.Keeps I (p.runPhase rules name loader bytes) := by
  have picks : Call.Keeps I (applicable rules name loader) :=
    Keeps.filterM fun rule member => (kept rule member).handles name loader
  refine picks.bind_of_gives fun state asking state' gives => ?_
  have among := mem_of_applicable gives
  split
  · exact .pure _
  · refine Keeps.bind (.ofExcept _) fun unit => Keeps.bind ?_ ?_
    · exact .foldlM (fun result rule member => Keeps.bind
        (.withReason _ ((kept rule (among rule member)).rewrite result.2)) fun _ => .pure _) _
    · rintro ⟨changed, draft⟩
      cases changed with
      | true => exact Keeps.bind (.ofExcept _) fun _ => .pure _
      | false => exact .pure _

theorem keeps_dumpIn {bytes : Bytes} (kept : p.Keeps I bytes) (modes : List DumpMode)
    (name : String) (made : Bytes) : Call.Keeps I (p.dumpIn modes name made) := by
  unfold dumpIn
  cases used : p.dump with
  | none => exact .pure _
  | some sink =>
    simp only
    split
    · exact .modify (kept.dump sink used name made)
    · exact .pure _

theorem keeps_finish {bytes : Bytes} (kept : p.Keeps I bytes) (made : Bytes) (relocate : Bool) :
    Call.Keeps I (p.finish made relocate) := by
  cases relocate with
  | false => exact .pure _
  | true => exact .bind (.modify (kept.escape made)) fun _ => .pure _

theorem keeps_lookup {bytes : Bytes} (kept : p.Keeps I bytes) :
    Call.Keeps I (p.lookup bytes) := by
  unfold lookup
  cases used : p.cache with
  | none => exact .pure _
  | some cache =>
    refine (kept.get cache used).attempt.bind fun tried => ?_
    cases tried <;> exact .pure _

theorem keeps_remember {bytes : Bytes} (kept : p.Keeps I bytes) (made : Bytes) :
    Call.Keeps I (p.remember bytes made) := by
  unfold remember
  cases used : p.cache with
  | none => exact .pure _
  | some cache => exact (kept.put cache used made).attempt.bind fun _ => .pure _

theorem keeps_processDenied {bytes : Bytes} (kept : p.Keeps I bytes) (name loader : String) :
    Call.Keeps I (p.processDenied name loader bytes) :=
  (keeps_dumpIn kept _ name bytes).bind fun _ => (kept.mandatory name loader bytes).bind fun made =>
    (Keeps.ofExcept _).bind fun relocate => keeps_finish kept made relocate

theorem keeps_processFresh {bytes : Bytes} (kept : p.Keeps I bytes) (name loader : String) :
    Call.Keeps I (p.processFresh name loader bytes) := by
  have early := keeps_runPhase (p := p) fun rule member =>
    kept.rules rule (List.mem_append_left _ member)
  have late : ∀ rule ∈ p.late, rule.Keeps I := fun rule member =>
    kept.rules rule (List.mem_append_right _ member)
  have relocation : Rule.Keeps I (Relocation.rule : Rule σ) := ⟨fun _ _ => .pure _, fun _ => .pure _⟩
  have ends : ∀ modes made relocate,
      Call.Keeps I (p.dumpIn modes name made >>= fun _ => p.finish made relocate) :=
    fun modes made relocate =>
      (keeps_dumpIn kept modes name made).bind fun _ => keeps_finish kept made relocate
  refine (Keeps.ofExcept _).bind fun relocate => (early name loader bytes).bind fun first =>
    (kept.mandatory name loader first.2).bind fun made => ?_
  cases relocate with
  | true =>
    have rules : ∀ rule ∈ p.late ++ [Relocation.rule], rule.Keeps I := fun rule member =>
      (List.mem_append.1 member).elim (late rule) fun last => List.mem_singleton.1 last ▸ relocation
    exact (keeps_runPhase rules name loader made).bind fun second => ends _ second.2 true
  | false =>
    exact (keeps_runPhase late name loader made).bind fun second =>
      (keeps_remember kept second.2).bind fun _ => ends _ second.2 false

/-- The way of a class keeps what all collaborators keep. -/
theorem keeps_process {bytes : Bytes} (kept : p.Keeps I bytes) (name loader : String) :
    Call.Keeps I (p.process name loader bytes) := by
  unfold process
  split
  · exact .pure _
  split
  · exact keeps_processDenied kept name loader
  · refine (keeps_lookup kept).bind fun found => ?_
    cases found with
    | some known => exact .pure _
    | none => exact keeps_processFresh kept name loader

end Pipeline

/-! ### A cache on disk -/

open Contact CacheScript

/-- What a cache on disk holds was told to it, and it only answered with what it was told; all of
this is about bytes of some set. -/
structure DiskTold (number : Nat) (asked : Bytes → Prop) (record : List Contact) (h : Host) :
    Prop where
  present : number < h.disks.length
  told : ∀ entry ∈ puts record, asked entry.1
  stored : ∀ bytes found, (diskState h number).get? bytes = some found →
    ∃ original, DiskCache.key original = DiskCache.key bytes ∧ (original, found) ∈ puts record
  honest : Honest record

namespace DiskTold

variable {number : Nat} {asked : Bytes → Prop} {record : List Contact} {h h' : Host}

/-- A contact that is no business of the cache. -/
theorem concat (holds : DiskTold number asked record h) {contact : Contact}
    (untold : contact.put? = none) (unasked : ∀ bytes found, contact ≠ .looked bytes (some found))
    (same : h'.disks = h.disks) : DiskTold number asked (record ++ [contact]) h' := by
  have puts_eq : puts (record ++ [contact]) = puts record := by simp [puts, untold]
  refine ⟨same ▸ holds.present, puts_eq ▸ holds.told, fun bytes found here => ?_,
    honest_concat.2 ⟨holds.honest, fun bytes found h => absurd h (unasked bytes found)⟩⟩
  rw [puts_eq]
  exact holds.stored bytes found (by rwa [diskState, ← same])

/-- The cache is asked: digests do not collide, so it answers for the very bytes. -/
theorem concat_looked (holds : DiskTold number asked record h)
    (distinct : ∀ a b, asked a → asked b → DiskCache.key a = DiskCache.key b → a = b)
    {bytes : Bytes} (among : asked bytes) :
    DiskTold number asked (record ++ [.looked bytes ((diskState h number).get? bytes)]) h := by
  have puts_eq : ∀ found, puts (record ++ [.looked bytes found]) = puts record := by
    simp [puts, put?]
  refine ⟨holds.present, (puts_eq _).symm ▸ holds.told, (puts_eq _).symm ▸ holds.stored,
    honest_concat.2 ⟨holds.honest, fun other found same => ?_⟩⟩
  obtain ⟨rfl, here⟩ := Contact.looked.inj same
  obtain ⟨original, digest, member⟩ := holds.stored _ found here
  rw [← distinct original _ (holds.told _ member) among digest]
  exact mem_puts.1 member

/-- The cache is told something. -/
theorem concat_put (holds : DiskTold number asked record h) {bytes : Bytes} (among : asked bytes)
    (made : Bytes) : DiskTold number asked (record ++ [.put bytes made])
      (setDisk h number ((diskState h number).put bytes made)) := by
  have puts_eq : puts (record ++ [.put bytes made]) = puts record ++ [(bytes, made)] := by
    simp [puts, put?]
  have state_eq : diskState (setDisk h number ((diskState h number).put bytes made)) number =
      (diskState h number).put bytes made := by
    simp [diskState, setDisk, holds.present]
  refine ⟨by simpa [setDisk] using holds.present, ?_, ?_,
    honest_concat.2 ⟨holds.honest, fun _ _ h => by cases h⟩⟩
  · rw [puts_eq]
    exact List.forall_mem_append.2 ⟨holds.told, List.forall_mem_singleton.2 among⟩
  · intro other found here
    rw [state_eq, DiskCache.get?_put] at here
    rw [puts_eq]
    split at here
    · rename_i digest
      exact ⟨bytes, digest.symm, by simp [Option.some.inj here]⟩
    · obtain ⟨original, digest, member⟩ := holds.stored other found here
      exact ⟨original, digest, List.mem_append_left _ member⟩

end DiskTold

namespace Pipeline

/-- No collaborator but the cache changes what is held of caches on disk. -/
def LeavesDisks (p : Pipeline Host) : Prop :=
  ∀ disks, (p.withCache none).Keeps (fun h => h.disks = disks) []

theorem keeps_script (script : RuleScript) (disks : List DiskCache) :
    script.toRule.Keeps fun h => h.disks = disks where
  handles _ _ := .bind (.modify fun _ holds => holds) fun _ => .pure _
  rewrite _ := .bind (.modify fun _ holds => holds) fun _ => .ofExcept _

theorem keeps_mandatoryScript (script : MandatoryScript) (disks : List DiskCache)
    (name loader : String) (bytes : Bytes) :
    Call.Keeps (fun h => h.disks = disks) (script.run name loader bytes) := by
  cases script with
  | passThrough => exact .pure _
  | _ => exact .bind (.modify fun _ holds => holds) fun _ => .ofExcept _

variable {p : Pipeline Host} {number : Nat} {asked : Bytes → Prop} {earlier : List Contact}

/-- Rules and a transformation that are given as data leave the caches on disk alone. -/
theorem leavesDisks_of_scripts {scripts : List RuleScript} {script : MandatoryScript}
    (rules : p.early ++ p.late = scripts.map RuleScript.toRule) (mandatory : p.mandatory = script.run)
    (escape : p.escape = Host.escape) (dump : p.dump = none) : p.LeavesDisks := fun disks =>
  { rules := by
      intro rule member
      obtain ⟨script, -, rfl⟩ := List.mem_map.1 (rules ▸ member)
      exact keeps_script script disks
    mandatory := by
      rw [withCache, mandatory]
      exact keeps_mandatoryScript script disks
    get := fun _ h => nomatch h
    put := fun _ h => nomatch h
    escape := by
      rw [withCache, escape]
      exact fun _ _ holds => holds
    dump := by
      rw [withCache, dump]
      exact fun _ h => nomatch h }

theorem keeps_noting {α : Type} {call : Call Host α} (note : Contact)
    (leaves : ∀ disks, Call.Keeps (fun h => h.disks = disks) call)
    (untold : note.put? = none) (unasked : ∀ bytes found, note ≠ .looked bytes (some found)) :
    Call.Keeps (fun world : Host × List Contact => DiskTold number asked (earlier ++ world.2) world.1)
      (call.noting fun _ => note) := by
  rintro ⟨h, record⟩ holds
  rw [outcome_noting, ← List.append_assoc]
  exact holds.concat untold unasked (leaves h.disks h rfl)

theorem keeps_recorded {name : Identifier} (leaves : p.LeavesDisks)
    (cache : p.cache = some (diskCache name number))
    (distinct : ∀ a b, asked a → asked b → DiskCache.key a = DiskCache.key b → a = b)
    {bytes : Bytes} (among : asked bytes) :
    p.recorded.Keeps (fun world => DiskTold number asked (earlier ++ world.2) world.1) bytes where
  rules := by
    intro rule member
    rw [recorded, ← List.map_append] at member
    obtain ⟨plain, among, rfl⟩ := List.mem_map.1 member
    exact {
      handles := fun name loader => keeps_noting (.asked plain.name)
        (fun disks => ((leaves disks).rules plain among).handles name loader) rfl
        fun _ _ h => by cases h
      rewrite := fun draft => keeps_noting (.rewrote plain.name)
        (fun disks => ((leaves disks).rules plain among).rewrite draft) rfl fun _ _ h => by cases h }
  mandatory name loader bytes := keeps_noting (.mandatory bytes)
    (fun disks => (leaves disks).mandatory name loader bytes) rfl fun _ _ h => by cases h
  get := by
    rintro cache' used ⟨h, record⟩ holds
    rw [recorded, cache, Option.map_some, Option.some.injEq] at used
    subst used
    rw [Cache.recorded, outcome_noting, ← List.append_assoc]
    exact holds.concat_looked distinct among
  put := by
    rintro cache' used made ⟨h, record⟩ holds
    rw [recorded, cache, Option.map_some, Option.some.injEq] at used
    subst used
    rw [Cache.recorded, outcome_noting, ← List.append_assoc]
    exact holds.concat_put among made
  escape := by
    rintro made ⟨h, record⟩ holds
    change DiskTold number asked (earlier ++ (record ++ [.injected made])) (p.escape made h)
    rw [← List.append_assoc]
    exact holds.concat rfl (fun _ _ h => by cases h) ((leaves h.disks).escape made h rfl)
  dump := by
    rintro sink used name made ⟨h, record⟩ holds
    obtain ⟨plain, plainly, rfl⟩ := Option.map_eq_some_iff.1 used
    change DiskTold number asked (earlier ++ (record ++ [.dumped name made]))
      (plain.write name made h)
    rw [← List.append_assoc]
    exact holds.concat rfl (fun _ _ h => by cases h)
      ((leaves h.disks).dump plain plainly name made h rfl)

theorem diskTold_report {name : Identifier} (leaves : p.LeavesDisks)
    (cache : p.cache = some (diskCache name number))
    (distinct : ∀ a b, asked a → asked b → DiskCache.key a = DiskCache.key b → a = b)
    {request : Request} (among : asked request.bytes) (claims : Claims) {h : Host}
    (holds : DiskTold number asked earlier h) :
    DiskTold number asked (earlier ++ (p.report request claims h).1.contacts)
      (p.report request claims h).2.2 := by
  unfold report transform
  cases claims.claim request.name with
  | mk free claims' =>
    cases free with
    | false => simpa using holds
    | true =>
      have start : DiskTold number asked (earlier ++ []) h := by simpa using holds
      exact keeps_process (keeps_recorded leaves cache distinct among) request.name request.loader
        (h, []) start

/-- **Cache on disk.**  If the cache on disk starts empty, nobody else changes it, and no two of the
classes of a run have the same digest, it only answers with what it was told for the very bytes. -/
theorem honest_disk {name : Identifier} (leaves : p.LeavesDisks)
    (cache : p.cache = some (diskCache name number)) (requests : List Request) (h : Host)
    (present : number < h.disks.length) (empty : (diskState h number).entries = [])
    (distinct : ∀ a ∈ requests, ∀ b ∈ requests,
      DiskCache.key a.bytes = DiskCache.key b.bytes → a.bytes = b.bytes) :
    Honest ((p.serve requests .empty h).flatMap Report.contacts) := by
  have run : ∀ later : List Request, (∀ request ∈ later, request ∈ requests) →
      ∀ earlier claims h, DiskTold number (fun bytes => ∃ a ∈ requests, a.bytes = bytes) earlier h →
        Honest (earlier ++ (p.serve later claims h).flatMap Report.contacts) := by
    intro later
    induction later with
    | nil => exact fun _ earlier claims h holds => by simpa [serve] using holds.honest
    | cons request later ih =>
      intro among earlier claims h holds
      rw [serve_cons, List.flatMap_cons, ← List.append_assoc]
      refine ih (fun a member => among a (List.mem_cons_of_mem _ member)) _ _ _
        (diskTold_report leaves cache ?_ ⟨request, among request List.mem_cons_self, rfl⟩ claims holds)
      rintro _ _ ⟨a, ha, rfl⟩ ⟨b, hb, rfl⟩ digest
      exact distinct a ha b hb digest
  refine run requests (fun _ => id) [] .empty h ⟨present, fun _ h => (nomatch h), ?_, ?_⟩
  · intro bytes found here
    simp [DiskCache.get?, empty] at here
  · intro before bytes found behind same
    simp at same

end Pipeline

end ClassInstrument
