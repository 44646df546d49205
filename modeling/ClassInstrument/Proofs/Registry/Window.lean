import ClassInstrument.Registry.Basic
import Mathlib.Data.List.Nodup

/-!
# The registry is a one-way window

Whoever holds a registry may call it in any order, and calls in the wrong stage fail.  What it
answers is a matter of the calls alone that were made before: what they registered, and what the
first decision about the cache was.

* `RegistryCall`, `Registry.respond` — calls as data, and what one does;
* `Registry.Moves` — **everything that a call can do**, one case for each kind of call;
* `Exchange`, `Registry.log`, `Registry.after` — the calls of a run with their answers;
* `Registry.Reflects` — a registry holds what the calls of a log registered and decided;
* `Registry.Window` — what holds after any calls, and `Registry.one_way_window`.
-/

namespace ClassInstrument

/-! ### Calls -/

/-- A call to a registry. -/
inductive RegistryCall (σ : Type) where
  | begin
  | freeze
  | registerEarly (rule : Rule σ)
  | registerLate (rule : Rule σ)
  | registerCache (cache : Cache σ)
  | earlyRules
  | lateRules
  | cacheNames
  | select (settings : Settings)

namespace RegistryCall

variable {σ : Type}

/-- The stage that a call requires; the names of caches can be read at any time. -/
def stage? : RegistryCall σ → Option Lifecycle
  | begin => some .unopened
  | freeze | registerEarly _ | registerLate _ | registerCache _ => some .opened
  | earlyRules | lateRules | select _ => some .frozen
  | cacheNames => none

/-- Whether a call can be made in a stage. -/
def Fits (call : RegistryCall σ) (stage : Lifecycle) : Prop :=
  ∀ required, call.stage? = some required → stage = required

def early? : RegistryCall σ → Option (Rule σ)
  | registerEarly rule => some rule
  | _ => none

def late? : RegistryCall σ → Option (Rule σ)
  | registerLate rule => some rule
  | _ => none

def cache? : RegistryCall σ → Option (Cache σ)
  | registerCache cache => some cache
  | _ => none

end RegistryCall

/-- An answer of a registry. -/
inductive RegistryAnswer (σ : Type) where
  | done
  | rules (rules : List (Rule σ))
  | names (names : List Identifier)
  /-- The cache to use, and the settings as they were left. -/
  | decision (cache : Option (Cache σ)) (settings : Settings)

/-- A call with its answer. -/
structure Exchange (σ : Type) where
  call : RegistryCall σ
  answer : Except Failure (RegistryAnswer σ)

/-- A decision about the cache, and what became of the settings. -/
structure Decision (σ : Type) where
  before : Settings
  cache : Option (Cache σ)
  behind : Settings

namespace Decision

variable {σ : Type}

/-- What a decision between some caches is: none is used if there is none, and otherwise the
settings name the one that is used, and have to be saved if they did not do so before. -/
def Settles (d : Decision σ) (caches : List (Cache σ)) : Prop :=
  match d.cache with
  | none => caches = [] ∧ d.behind = d.before
  | some cache => cache ∈ caches ∧ d.behind = { d.before with
      cache := some cache.name.toText
      dirty := d.before.dirty || d.before.cache != some cache.name.toText }

end Decision

namespace Exchange

variable {σ : Type}

/-- What an exchange registers; a call that fails registers nothing. -/
def accepted? {α : Type} (item? : RegistryCall σ → Option α) : Exchange σ → Option α
  | ⟨call, .ok _⟩ => item? call
  | ⟨_, .error _⟩ => none

/-- The decision about the cache that an exchange tells. -/
def decision? : Exchange σ → Option (Decision σ)
  | ⟨.select before, .ok (.decision cache behind)⟩ => some ⟨before, cache, behind⟩
  | _ => none

/-- What a log registered. -/
def accepted {α : Type} (item? : RegistryCall σ → Option α) (log : List (Exchange σ)) : List α :=
  log.filterMap (accepted? item?)

/-- All decisions of a log. -/
def decisions (log : List (Exchange σ)) : List (Decision σ) := log.filterMap decision?

theorem accepted_concat {α : Type} (item? : RegistryCall σ → Option α) (log : List (Exchange σ))
    (e : Exchange σ) :
    accepted item? (log ++ [e]) = accepted item? log ++ (e.accepted? item?).toList := by
  rw [accepted, List.filterMap_append]
  rfl

theorem decisions_concat (log : List (Exchange σ)) (e : Exchange σ) :
    decisions (log ++ [e]) = decisions log ++ e.decision?.toList := by
  rw [decisions, List.filterMap_append]
  rfl

end Exchange

namespace Registry

open Exchange

variable {σ : Type} {r r' : Registry σ}

/-- Make a call. -/
def perform (r : Registry σ) : RegistryCall σ → Except Failure (RegistryAnswer σ × Registry σ)
  | .begin => r.begin.map fun r => (.done, r)
  | .freeze => r.freeze.map fun r => (.done, r)
  | .registerEarly rule => (r.registerEarly rule).map fun r => (.done, r)
  | .registerLate rule => (r.registerLate rule).map fun r => (.done, r)
  | .registerCache cache => (r.registerCache cache).map fun r => (.done, r)
  | .earlyRules => r.earlyRules.map fun rules => (.rules rules, r)
  | .lateRules => r.lateRules.map fun rules => (.rules rules, r)
  | .cacheNames => .ok (.names r.cacheNames, r)
  | .select s => (r.select s).map fun (cache, r, s) => (.decision cache s, r)

/-- The answer to a call, and the registry behind it: the old one if the call fails. -/
def respond (r : Registry σ) (call : RegistryCall σ) :
    Except Failure (RegistryAnswer σ) × Registry σ :=
  match r.perform call with
  | .ok (answer, r) => (.ok answer, r)
  | .error e => (.error e, r)

/-- **Everything that a call can do.** -/
inductive Moves (r : Registry σ) :
    RegistryCall σ → Except Failure (RegistryAnswer σ) → Registry σ → Prop
  | refused {call : RegistryCall σ} {stage : Lifecycle} (requires : call.stage? = some stage)
      (other : r.stage ≠ stage) (cause : Misuse) : Moves r call (.error (.misuse cause)) r
  | begun (stage : r.stage = .unopened) :
      Moves r .begin (.ok .done) { r with stage := .opened }
  | frozen (stage : r.stage = .opened) :
      Moves r .freeze (.ok .done) { r with stage := .frozen }
  | early (stage : r.stage = .opened) (rule : Rule σ) :
      Moves r (.registerEarly rule) (.ok .done) { r with early := r.early ++ [rule] }
  | late (stage : r.stage = .opened) (rule : Rule σ) :
      Moves r (.registerLate rule) (.ok .done) { r with late := r.late ++ [rule] }
  | cache (stage : r.stage = .opened) (cache : Cache σ) :
      Moves r (.registerCache cache) (.ok .done) { r with caches := r.caches ++ [cache] }
  | earlyRules (stage : r.stage = .frozen) : Moves r .earlyRules (.ok (.rules r.early)) r
  | lateRules (stage : r.stage = .frozen) : Moves r .lateRules (.ok (.rules r.late)) r
  | cacheNames : Moves r .cacheNames (.ok (.names (r.caches.map Cache.name))) r
  /-- The first decision is made by the settings. -/
  | chosen (stage : r.stage = .frozen) (open' : r.selected = none) (s : Settings) :
      Moves r (.select s) (.ok (.decision (r.choose s).1 (r.choose s).2))
        { r with selected := some (r.choose s).1 }
  /-- Later ones repeat it. -/
  | repeated (stage : r.stage = .frozen) {cache : Option (Cache σ)}
      (decided : r.selected = some cache) (s : Settings) :
      Moves r (.select s) (.ok (.decision cache s)) r

theorem require_of_ne {expected : Lifecycle} (other : r.stage ≠ expected) (operation : String) :
    r.require expected operation =
      .error (.misuse (.registryOperation operation expected r.stage)) :=
  if_neg other

theorem require_of_eq {expected : Lifecycle} (stage : r.stage = expected) (operation : String) :
    r.require expected operation = .ok () := if_pos stage

theorem moves_respond (r : Registry σ) (call : RegistryCall σ) :
    r.Moves call (r.respond call).1 (r.respond call).2 := by
  have refuse : ∀ {stage : Lifecycle} {cause : Misuse}, call.stage? = some stage →
      r.stage ≠ stage → r.perform call = .error (.misuse cause) →
      r.Moves call (r.respond call).1 (r.respond call).2 := by
    intro stage cause requires other failed
    rw [respond, failed]
    exact .refused requires other cause
  cases call with
  | begin =>
    by_cases stage : r.stage = .unopened
    · have done : r.begin = .ok { r with stage := .opened } := if_pos stage
      rw [respond, perform, done]
      exact .begun stage
    · have failed : r.begin = .error _ := if_neg stage
      exact refuse rfl stage (by rw [perform, failed]; rfl)
  | freeze =>
    by_cases stage : r.stage = .opened
    · have done : r.freeze = .ok { r with stage := .frozen } := if_pos stage
      rw [respond, perform, done]
      exact .frozen stage
    · have failed : r.freeze = .error _ := if_neg stage
      exact refuse rfl stage (by rw [perform, failed]; rfl)
  | registerEarly rule =>
    by_cases stage : r.stage = .opened
    · rw [respond, perform, registerEarly, require_of_eq stage]
      exact .early stage rule
    · exact refuse rfl stage (by rw [perform, registerEarly, require_of_ne stage]; rfl)
  | registerLate rule =>
    by_cases stage : r.stage = .opened
    · rw [respond, perform, registerLate, require_of_eq stage]
      exact .late stage rule
    · exact refuse rfl stage (by rw [perform, registerLate, require_of_ne stage]; rfl)
  | registerCache cache =>
    by_cases stage : r.stage = .opened
    · rw [respond, perform, registerCache, require_of_eq stage]
      exact .cache stage cache
    · exact refuse rfl stage (by rw [perform, registerCache, require_of_ne stage]; rfl)
  | earlyRules =>
    by_cases stage : r.stage = .frozen
    · rw [respond, perform, earlyRules, require_of_eq stage]
      exact .earlyRules stage
    · exact refuse rfl stage (by rw [perform, earlyRules, require_of_ne stage]; rfl)
  | lateRules =>
    by_cases stage : r.stage = .frozen
    · rw [respond, perform, lateRules, require_of_eq stage]
      exact .lateRules stage
    · exact refuse rfl stage (by rw [perform, lateRules, require_of_ne stage]; rfl)
  | cacheNames => exact .cacheNames
  | select s =>
    by_cases stage : r.stage = .frozen
    · rw [respond, perform, select, require_of_eq stage]
      cases decided : r.selected with
      | none => exact .chosen stage decided s
      | some cache => exact .repeated stage decided s
    · exact refuse rfl stage (by rw [perform, select, require_of_ne stage]; rfl)

/-- A call fails in the wrong stage, and then only. -/
theorem fits_iff (r : Registry σ) (call : RegistryCall σ) :
    (∃ answer, (r.respond call).1 = .ok answer) ↔ call.Fits r.stage := by
  have moves := r.moves_respond call
  generalize (r.respond call).1 = answer, (r.respond call).2 = r' at moves ⊢
  cases moves with
  | refused requires other cause =>
    exact iff_of_false (fun ⟨_, h⟩ => nomatch h) fun fits => other (fits _ requires)
  | cacheNames => exact iff_of_true ⟨_, rfl⟩ fun _ h => nomatch h
  | _ => exact iff_of_true ⟨_, rfl⟩ fun _ h => by cases h; assumption

/-- A call that fails is a misuse, and changes nothing. -/
theorem respond_error {call : RegistryCall σ} {e : Failure}
    (failed : (r.respond call).1 = .error e) :
    (∃ cause, e = .misuse cause) ∧ (r.respond call).2 = r := by
  have moves := r.moves_respond call
  rw [failed] at moves
  generalize (r.respond call).2 = r' at moves ⊢
  cases moves with
  | refused _ _ cause => exact ⟨⟨cause, rfl⟩, rfl⟩

/-- A registry stays in its stage or goes on to the next one. -/
theorem stage_respond (r : Registry σ) (call : RegistryCall σ) :
    (r.respond call).2.stage = r.stage ∨ r.stage.next? = some (r.respond call).2.stage := by
  have moves := r.moves_respond call
  generalize (r.respond call).1 = answer, (r.respond call).2 = r' at moves ⊢
  cases moves with
  | begun stage => exact .inr (by rw [stage]; rfl)
  | frozen stage => exact .inr (by rw [stage]; rfl)
  | _ => exact .inl rfl

/-! ### Runs -/

/-- The calls of a run with their answers. -/
def log : Registry σ → List (RegistryCall σ) → List (Exchange σ)
  | _, [] => []
  | r, call :: calls => ⟨call, (r.respond call).1⟩ :: log (r.respond call).2 calls

/-- The registry after some calls. -/
def after : Registry σ → List (RegistryCall σ) → Registry σ
  | r, [] => r
  | r, call :: calls => after (r.respond call).2 calls

theorem after_append (r : Registry σ) (first second : List (RegistryCall σ)) :
    r.after (first ++ second) = (r.after first).after second := by
  induction first generalizing r with
  | nil => rfl
  | cons call first ih => exact ih _

/-- A cache that the settings name is used, and otherwise the first one, which they name then. -/
theorem choose_cases (r : Registry σ) (s : Settings) :
    (r.caches = [] ∧ r.choose s = (none, s)) ∨
      (∃ cache ∈ r.caches, s.cache = some cache.name.toText ∧ r.choose s = (some cache, s)) ∨
      ∃ first ∈ r.caches, s.cache ≠ some first.name.toText ∧
        r.choose s = (some first, s.setCache (some first.name.toText)) := by
  unfold choose
  cases caches : r.caches with
  | nil => exact .inl ⟨rfl, rfl⟩
  | cons first rest =>
    cases found : s.cache.bind fun name =>
        (first :: rest).find? fun cache => cache.name.toText == name with
    | some cache =>
      obtain ⟨name, named, found⟩ := Option.bind_eq_some_iff.1 found
      have same : cache.name.toText = name := by simpa using List.find?_some found
      exact .inr (.inl ⟨cache, List.mem_of_find?_eq_some found, by rw [named, same], rfl⟩)
    | none =>
      refine .inr (.inr ⟨first, List.mem_cons_self, fun named => ?_, rfl⟩)
      simp [named] at found

/-- **What the first decision does.** -/
theorem settles_choose (r : Registry σ) (s : Settings) :
    Decision.Settles ⟨s, (r.choose s).1, (r.choose s).2⟩ r.caches := by
  obtain ⟨caches, same⟩ | ⟨cache, inside, named, same⟩ | ⟨first, inside, other, same⟩ :=
    r.choose_cases s
  · rw [same]
    exact ⟨caches, rfl⟩
  · rw [same]
    refine ⟨inside, ?_⟩
    simp [← named]
  · rw [same]
    refine ⟨inside, ?_⟩
    rw [Settings.setCache, if_neg other]
    simp [other]

/-- If no two caches have the same name, the one that the settings name is chosen. -/
theorem choose_named {cache : Cache σ} (inside : cache ∈ r.caches)
    (distinct : (r.caches.map (·.name.toText)).Nodup) {s : Settings}
    (named : s.cache = some cache.name.toText) : r.choose s = (some cache, s) := by
  have found : r.caches.find? (fun c => c.name.toText == cache.name.toText) = some cache := by
    obtain ⟨other, found⟩ := Option.isSome_iff_exists.1 (List.find?_isSome.2
      (⟨cache, inside, beq_self_eq_true _⟩ :
        ∃ c ∈ r.caches, (c.name.toText == cache.name.toText) = true))
    have same : other.name.toText = cache.name.toText := by simpa using List.find?_some found
    rw [found, List.inj_on_of_nodup_map distinct (List.mem_of_find?_eq_some found) inside same]
  unfold choose
  cases caches : r.caches with
  | nil =>
    rw [caches] at inside
    cases inside
  | cons first rest =>
    rw [caches] at found
    simp only [named, Option.bind_some, found]

/-! ### What a registry holds -/

/-- **A registry holds what the calls of a log registered and decided.** -/
structure Reflects (r : Registry σ) (log : List (Exchange σ)) : Prop where
  early : r.early = accepted RegistryCall.early? log
  late : r.late = accepted RegistryCall.late? log
  caches : r.caches = accepted RegistryCall.cache? log
  selected : r.selected = (decisions log).head?.map Decision.cache
  /-- The first decision settled the matter, at a time when no more caches could come. -/
  first : ∀ d ∈ (decisions log).head?, r.stage = .frozen ∧ d.Settles r.caches
  later : ∀ d ∈ (decisions log).tail, r.selected = some d.cache ∧ d.behind = d.before

theorem reflects_new : (new : Registry σ).Reflects [] :=
  ⟨rfl, rfl, rfl, rfl, fun _ h => (nomatch h), fun _ h => (nomatch h)⟩

/-- Calls that tell of no decision keep what is known of the decisions, while no cache is added
and a frozen registry stays so. -/
theorem Reflects.undecided {log : List (Exchange σ)} {e : Exchange σ} (h : r.Reflects log)
    (none' : e.decision? = none)
    (early : r'.early = r.early ++ (e.accepted? RegistryCall.early?).toList)
    (late : r'.late = r.late ++ (e.accepted? RegistryCall.late?).toList)
    (caches : r'.caches = r.caches ++ (e.accepted? RegistryCall.cache?).toList)
    (selected : r'.selected = r.selected)
    (kept : r.stage = .frozen → r'.stage = .frozen ∧ r'.caches = r.caches) :
    r'.Reflects (log ++ [e]) := by
  have same : decisions (log ++ [e]) = decisions log := by
    rw [decisions_concat, none', Option.toList_none, List.append_nil]
  refine ⟨?_, ?_, ?_, ?_, ?_, ?_⟩
  · rw [early, h.early, accepted_concat]
  · rw [late, h.late, accepted_concat]
  · rw [caches, h.caches, accepted_concat]
  · rw [selected, same, h.selected]
  · rw [same]
    intro d member
    obtain ⟨stage, settles⟩ := h.first d member
    exact ⟨(kept stage).1, (kept stage).2 ▸ settles⟩
  · rw [same, selected]
    exact h.later

/-- The first decision. -/
theorem Reflects.chosen {log : List (Exchange σ)} (h : r.Reflects log) (stage : r.stage = .frozen)
    (open' : r.selected = none) (s : Settings) :
    Reflects { r with selected := some (r.choose s).1 }
      (log ++ [⟨.select s, .ok (.decision (r.choose s).1 (r.choose s).2)⟩]) := by
  have before : decisions log = [] := by
    have := h.selected
    rw [open'] at this
    exact List.head?_eq_none_iff.1 (Option.map_eq_none_iff.1 this.symm)
  have now : decisions (log ++ [⟨.select s, .ok (.decision (r.choose s).1 (r.choose s).2)⟩])
      = [⟨s, (r.choose s).1, (r.choose s).2⟩] := by
    rw [decisions_concat, before]
    rfl
  refine ⟨?_, ?_, ?_, by rw [now]; rfl, ?_, ?_⟩
  · rw [h.early, accepted_concat]
    exact (List.append_nil _).symm
  · rw [h.late, accepted_concat]
    exact (List.append_nil _).symm
  · rw [h.caches, accepted_concat]
    exact (List.append_nil _).symm
  · rw [now]
    rintro d ⟨⟩
    exact ⟨stage, r.settles_choose s⟩
  · rw [now]
    exact fun _ h => nomatch h

/-- A later decision, which repeats the first. -/
theorem Reflects.repeated {log : List (Exchange σ)} (h : r.Reflects log)
    {cache : Option (Cache σ)} (decided : r.selected = some cache) (s : Settings) :
    r.Reflects (log ++ [⟨.select s, .ok (.decision cache s)⟩]) := by
  obtain ⟨first, rest, before⟩ : ∃ first rest, decisions log = first :: rest := by
    cases before : decisions log with
    | nil =>
      have := h.selected
      rw [before, decided] at this
      cases this
    | cons first rest => exact ⟨first, rest, rfl⟩
  have now : decisions (log ++ [⟨.select s, .ok (.decision cache s)⟩])
      = first :: (rest ++ [⟨s, cache, s⟩]) := by
    rw [decisions_concat, before]
    rfl
  obtain ⟨early, late, caches, selected, settled, kept⟩ := h
  rw [before] at selected settled kept
  refine ⟨?_, ?_, ?_, by rw [now]; exact selected, by rw [now]; exact settled, ?_⟩
  · rw [early, accepted_concat]
    exact (List.append_nil _).symm
  · rw [late, accepted_concat]
    exact (List.append_nil _).symm
  · rw [caches, accepted_concat]
    exact (List.append_nil _).symm
  · rw [now]
    intro d member
    rcases List.mem_append.1 member with old | last
    · exact kept d old
    · rw [List.mem_singleton.1 last]
      exact ⟨decided, rfl⟩

/-- One more call. -/
theorem Reflects.respond {log : List (Exchange σ)} (h : r.Reflects log) (call : RegistryCall σ) :
    (r.respond call).2.Reflects (log ++ [⟨call, (r.respond call).1⟩]) := by
  have moves := r.moves_respond call
  generalize (r.respond call).1 = answer, (r.respond call).2 = r' at moves ⊢
  have nothing : ∀ l : List (Rule σ), l = l ++ [] := fun l => (List.append_nil l).symm
  cases moves with
  | refused requires other cause =>
    refine h.undecided ?_ (nothing _) (nothing _) (List.append_nil _).symm rfl fun s => ⟨s, rfl⟩
    cases call <;> rfl
  | begun stage =>
    refine h.undecided rfl (nothing _) (nothing _) (List.append_nil _).symm rfl fun s => ?_
    rw [stage] at s
    cases s
  | frozen stage =>
    exact h.undecided rfl (nothing _) (nothing _) (List.append_nil _).symm rfl fun _ => ⟨rfl, rfl⟩
  | early stage rule =>
    exact h.undecided rfl rfl (nothing _) (List.append_nil _).symm rfl fun s => ⟨s, rfl⟩
  | late stage rule =>
    exact h.undecided rfl (nothing _) rfl (List.append_nil _).symm rfl fun s => ⟨s, rfl⟩
  | cache stage cache =>
    -- a frozen registry takes no cache, so the decision still stands
    refine h.undecided rfl (nothing _) (nothing _) rfl rfl fun s => ?_
    rw [stage] at s
    cases s
  | earlyRules _ | lateRules _ | cacheNames =>
    exact h.undecided rfl (nothing _) (nothing _) (List.append_nil _).symm rfl fun s => ⟨s, rfl⟩
  | chosen stage undecided s => exact h.chosen stage undecided s
  | repeated stage decided s => exact h.repeated decided s

/-- What a registry holds comes from the calls that were made. -/
theorem Reflects.run {log : List (Exchange σ)} (h : r.Reflects log)
    (calls : List (RegistryCall σ)) :
    (r.after calls).Reflects (log ++ r.log calls) := by
  induction calls generalizing r log with
  | nil => rwa [Registry.log, List.append_nil]
  | cons call calls ih =>
    have := ih (h.respond call)
    rwa [List.append_assoc] at this

theorem reflects_after (calls : List (RegistryCall σ)) :
    ((new : Registry σ).after calls).Reflects (new.log calls) := reflects_new.run calls

/-! ### Frozen registries -/

/-- A frozen registry does not change but for the decision about the cache. -/
theorem frozen_after (frozen : r.stage = .frozen) (calls : List (RegistryCall σ)) :
    (r.after calls).stage = .frozen ∧ (r.after calls).early = r.early ∧
      (r.after calls).late = r.late ∧ (r.after calls).caches = r.caches := by
  have one : ∀ (r : Registry σ) (call : RegistryCall σ), r.stage = .frozen →
      (r.respond call).2.stage = .frozen ∧ (r.respond call).2.early = r.early ∧
        (r.respond call).2.late = r.late ∧ (r.respond call).2.caches = r.caches := by
    intro r call frozen
    have moves := r.moves_respond call
    generalize (r.respond call).1 = answer, (r.respond call).2 = r' at moves ⊢
    cases moves with
    | begun stage | frozen stage | early stage _ | late stage _ | cache stage _ =>
      rw [stage] at frozen
      cases frozen
    | _ => exact ⟨frozen, rfl, rfl, rfl⟩
  induction calls generalizing r with
  | nil => exact ⟨frozen, rfl, rfl, rfl⟩
  | cons call calls ih =>
    obtain ⟨stage, early, late, caches⟩ := one r call frozen
    obtain ⟨stage', early', late', caches'⟩ := ih stage
    exact ⟨stage', early'.trans early, late'.trans late, caches'.trans caches⟩

/-- The answers of a frozen registry. -/
theorem respond_frozen (frozen : r.stage = .frozen) :
    (r.respond .earlyRules).1 = .ok (.rules r.early) ∧
      (r.respond .lateRules).1 = .ok (.rules r.late) ∧
      (r.respond .cacheNames).1 = .ok (.names (r.caches.map Cache.name)) := by
  refine ⟨?_, ?_, rfl⟩
  · rw [respond, perform, earlyRules, require_of_eq frozen]
    rfl
  · rw [respond, perform, lateRules, require_of_eq frozen]
    rfl

/-- The first decision of a frozen registry is made by the settings. -/
theorem respond_select (frozen : r.stage = .frozen) (undecided : r.selected = none) (s : Settings) :
    (r.respond (.select s)).1 = .ok (.decision (r.choose s).1 (r.choose s).2) := by
  rw [respond, perform, select, require_of_eq frozen]
  simp only [undecided]
  rfl

/-! ### The window -/

/-- **What holds of a registry after any calls**, whether or not they failed. -/
structure Window (calls : List (RegistryCall σ)) : Prop where
  /-- A call fails in the wrong stage, and then only. -/
  refuses : ∀ call, (∃ answer, ((new.after calls).respond call).1 = .ok answer) ↔
    call.Fits (new.after calls).stage
  /-- A call that fails changes nothing. -/
  unchanged : ∀ call e, ((new.after calls).respond call).1 = .error e →
    (∃ cause, e = .misuse cause) ∧ ((new.after calls).respond call).2 = new.after calls
  /-- Stages are never left but for the next one. -/
  onward : ∀ call, (new.after (calls ++ [call])).stage = (new.after calls).stage ∨
    (new.after calls).stage.next? = some (new.after (calls ++ [call])).stage
  /-- Once frozen, a registry shows for ever what was accepted up to then, in order. -/
  shows : (new.after calls).stage = .frozen → ∀ later,
    ((new.after (calls ++ later)).respond .earlyRules).1 =
        .ok (.rules (accepted RegistryCall.early? (new.log calls))) ∧
      ((new.after (calls ++ later)).respond .lateRules).1 =
        .ok (.rules (accepted RegistryCall.late? (new.log calls))) ∧
      ((new.after (calls ++ later)).respond .cacheNames).1 =
        .ok (.names ((accepted RegistryCall.cache? (new.log calls)).map Cache.name))
  /-- The first decision is made by the settings, which name the cache from then on; the others
  repeat it and leave the settings as they are. -/
  decides : ∀ first rest, decisions (new.log calls) = first :: rest →
    first.Settles (accepted RegistryCall.cache? (new.log calls)) ∧
      ∀ d ∈ rest, d.cache = first.cache ∧ d.behind = d.before
  /-- Settings that name the cache lead any other registry to the cache of that name, if it is
  registered there and no two names are the same, and they are left as they are. -/
  again : ∀ first ∈ (decisions (new.log calls)).head?, ∀ cache, first.cache = some cache →
    ∀ {σ' : Type} (calls' : List (RegistryCall σ')) (s : Settings),
      s.cache = first.behind.cache → (new.after calls').stage = .frozen →
      decisions (new.log calls') = [] →
      ((accepted RegistryCall.cache? (new.log calls')).map (·.name.toText)).Nodup →
      ∀ cache' ∈ accepted RegistryCall.cache? (new.log calls'),
        cache'.name.toText = cache.name.toText →
        ((new.after calls').respond (.select s)).1 = .ok (.decision (some cache') s)

/-- **A registry is a one-way window, and the choice of a cache is stable**, within one registry and
from one to the next. -/
theorem one_way_window (calls : List (RegistryCall σ)) : Window calls where
  refuses call := (new.after calls).fits_iff call
  unchanged _ _ failed := respond_error failed
  onward call := by
    rw [after_append]
    exact (new.after calls).stage_respond call
  shows frozen later := by
    have held := reflects_after calls
    obtain ⟨stage, early, late, caches⟩ := frozen_after frozen later
    rw [after_append, ← held.early, ← held.late, ← held.caches, ← early, ← late, ← caches]
    exact respond_frozen stage
  decides first rest all := by
    have held := reflects_after calls
    have settled := held.first first (by rw [all]; rfl)
    refine ⟨held.caches ▸ settled.2, fun d member => ?_⟩
    obtain ⟨same, left⟩ := held.later d (by rw [all]; exact member)
    rw [held.selected, all] at same
    exact ⟨(Option.some.inj same).symm, left⟩
  again first member cache used σ' calls' s same frozen undecided distinct cache' inside name := by
    have held := reflects_after calls
    have held' := reflects_after calls'
    have named : first.behind.cache = some cache.name.toText := by
      have settled := (held.first first member).2
      rw [Decision.Settles, used] at settled
      rw [settled.2]
    rw [← held'.caches] at distinct inside
    rw [respond_select frozen (by rw [held'.selected, undecided]; rfl),
      choose_named inside distinct (by rw [same, named, name])]

end Registry

end ClassInstrument
