import Mathlib.Data.List.Forall2
import ClassInstrument.Rule.Basic

/-!
# Calls beside a record

A world can be given a record in which its calls are noted.  A call of the world with the record
tracks the plain call if it does the same to the world and only adds to the record.

* `Call.noting` — make a call, and note it whether or not it fails;
* `Call.Tracks` — same effect on the world, results and new notes related by a postcondition;
* `Tracks.bind`, `Tracks.foldlM`, `Tracks.filterM` — the laws by which a composed call tracks
  another.
-/

namespace ClassInstrument.Call

variable {σ κ α β γ δ : Type}

/-- Make a call of a world that has a record, and note what came of it. -/
def noting (note : Except Failure α → κ) (call : Call σ α) : Call (σ × List κ) α :=
  fun (state, record) =>
    match call state with
    | .ok value state => .ok value (state, record ++ [note (.ok value)])
    | .error e state => .error e (state, record ++ [note (.error e)])

/-- Change a world that has a record, and note it. -/
def noted (note : κ) (change : σ → σ) : σ × List κ → σ × List κ :=
  fun (state, record) => (change state, record ++ [note])

/-! ### Outcomes -/

@[simp] theorem outcome_pure (value : α) (state : σ) :
    (pure value : Call σ α).outcome state = (.ok value, state) := rfl

@[simp] theorem outcome_modify (change : σ → σ) (state : σ) :
    (modify change : Call σ Unit).outcome state = (.ok (), change state) := rfl

theorem outcome_ofExcept (result : Except Failure α) (state : σ) :
    (ofExcept result : Call σ α).outcome state = (result, state) := by
  cases result <;> rfl

theorem outcome_bind (call : Call σ α) (next : α → Call σ β) (state : σ) :
    (call >>= next).outcome state =
      match call.outcome state with
      | (.ok value, state) => (next value).outcome state
      | (.error e, state) => (.error e, state) := by
  simp only [outcome, bind, EStateM.bind]
  cases call state <;> rfl

theorem outcome_attempt (call : Call σ α) (state : σ) :
    call.attempt.outcome state = (.ok (call.outcome state).1, (call.outcome state).2) := rfl

theorem outcome_withReason (reason : Failure → Failure) (call : Call σ α) (state : σ) :
    (call.withReason reason).outcome state =
      ((call.outcome state).1.mapError reason, (call.outcome state).2) := by
  simp only [outcome, withReason]
  cases call state <;> rfl

theorem outcome_noting (note : Except Failure α → κ) (call : Call σ α) (state : σ)
    (record : List κ) :
    (call.noting note).outcome (state, record) =
      ((call.outcome state).1, (call.outcome state).2,
        record ++ [note (call.outcome state).1]) := by
  simp only [outcome, noting]
  cases call state <;> rfl

/-! ### Tracking -/

/-- The call `call` of a world with a record does to the world what `plain` does, and only adds to
the record; `P` relates both results and what was added. -/
def Tracks (plain : Call σ α) (call : Call (σ × List κ) β)
    (P : Except Failure α → Except Failure β → List κ → Prop) : Prop :=
  ∀ state record, ∃ added,
    (call.outcome (state, record)).2 = ((plain.outcome state).2, record ++ added) ∧
      P (plain.outcome state).1 (call.outcome (state, record)).1 added

/-- Both calls have the same result, and `P` holds of it and what was added to the record. -/
def Records (plain : Call σ α) (call : Call (σ × List κ) α)
    (P : Except Failure α → List κ → Prop) : Prop :=
  Tracks plain call fun result result' added => result' = result ∧ P result added

namespace Tracks

variable {plain : Call σ α} {call : Call (σ × List κ) β}
  {P : Except Failure α → Except Failure β → List κ → Prop}

theorem mono {Q : Except Failure α → Except Failure β → List κ → Prop}
    (h : Tracks plain call P) (imp : ∀ r r' added, P r r' added → Q r r' added) :
    Tracks plain call Q := by
  intro state record
  obtain ⟨added, kept, holds⟩ := h state record
  exact ⟨added, kept, imp _ _ _ holds⟩

theorem pure {a : α} {b : β} (h : P (.ok a) (.ok b) []) :
    Tracks (Pure.pure a : Call σ α) (Pure.pure b) P := fun state record => ⟨[], by simp, h⟩

theorem ofExcept {result : Except Failure α} {result' : Except Failure β}
    (h : P result result' []) :
    Tracks (Call.ofExcept result : Call σ α) (Call.ofExcept result') P := by
  intro state record
  rw [outcome_ofExcept, outcome_ofExcept]
  exact ⟨[], by simp, h⟩

/-- One call after another: a failure ends both, and values are handed on. -/
theorem bind {next : α → Call σ γ} {next' : β → Call (σ × List κ) δ}
    {Q : Except Failure γ → Except Failure δ → List κ → Prop} (first : Tracks plain call P)
    (failed : ∀ e r' added, P (.error e) r' added → r' = .error e ∧ Q (.error e) (.error e) added)
    (goesOn : ∀ a r' added, P (.ok a) r' added → ∃ b, r' = .ok b ∧
      Tracks (next a) (next' b) fun r r' later => Q r r' (added ++ later)) :
    Tracks (plain >>= next) (call >>= next') Q := by
  intro state record
  obtain ⟨added, kept, holds⟩ := first state record
  rw [outcome_bind, outcome_bind]
  generalize plain.outcome state = here at kept holds
  generalize call.outcome (state, record) = there at kept holds
  obtain ⟨result, state'⟩ := here
  obtain ⟨result', world⟩ := there
  subst kept
  cases result with
  | error e =>
    obtain ⟨rfl, final⟩ := failed e result' added holds
    exact ⟨added, rfl, final⟩
  | ok a =>
    obtain ⟨b, rfl, rest⟩ := goesOn a result' added holds
    obtain ⟨later, kept, holds⟩ := rest state' (record ++ added)
    exact ⟨added ++ later, by rw [kept, List.append_assoc], holds⟩

end Tracks

/-! ### Calls with the same result -/

namespace Records

variable {plain : Call σ α} {call : Call (σ × List κ) α} {P Q : Except Failure α → List κ → Prop}

theorem mono (h : Records plain call P) (imp : ∀ r added, P r added → Q r added) :
    Records plain call Q :=
  Tracks.mono h fun _ _ _ ⟨same, holds⟩ => ⟨same, imp _ _ holds⟩

/-- What a call does from one state, and what it adds to the record. -/
theorem outcome_eq (h : Records plain call P) (state : σ) (record : List κ) :
    ∃ added, call.outcome (state, record) =
        ((plain.outcome state).1, (plain.outcome state).2, record ++ added) ∧
      P (plain.outcome state).1 added := by
  obtain ⟨added, kept, same, holds⟩ := h state record
  exact ⟨added, Prod.ext same kept, holds⟩

theorem pure {value : α} (h : P (.ok value) []) :
    Records (Pure.pure value : Call σ α) (Pure.pure value) P :=
  Tracks.pure ⟨rfl, h⟩

theorem ofExcept {result : Except Failure α} (h : P result []) :
    Records (Call.ofExcept result : Call σ α) (Call.ofExcept result) P :=
  Tracks.ofExcept ⟨rfl, h⟩

theorem bind {next : α → Call σ β} {next' : α → Call (σ × List κ) β}
    {Q : Except Failure β → List κ → Prop} (first : Records plain call P)
    (failed : ∀ e added, P (.error e) added → Q (.error e) added)
    (goesOn : ∀ value added, P (.ok value) added →
      Records (next value) (next' value) fun r later => Q r (added ++ later)) :
    Records (plain >>= next) (call >>= next') Q :=
  Tracks.bind first (fun e _ added ⟨same, holds⟩ => ⟨same, rfl, failed e added holds⟩)
    fun value _ added ⟨same, holds⟩ => ⟨value, same, goesOn value added holds⟩

theorem noting (note : Except Failure α → κ) (h : ∀ r, P r [note r]) :
    Records plain (plain.noting note) P := by
  intro state record
  rw [outcome_noting]
  exact ⟨_, rfl, rfl, h _⟩

theorem noted {note : κ} {change : σ → σ} {P : Except Failure Unit → List κ → Prop}
    (h : P (.ok ()) [note]) : Records (modify change) (modify (noted note change)) P :=
  fun _ _ => ⟨[note], rfl, rfl, h⟩

theorem attempt (h : Records plain call P) :
    Records plain.attempt call.attempt fun r added => ∃ tried, r = .ok tried ∧ P tried added := by
  intro state record
  obtain ⟨added, kept, same, holds⟩ := h state record
  rw [outcome_attempt, outcome_attempt, same]
  exact ⟨added, kept, rfl, _, rfl, holds⟩

theorem withReason {reason : Failure → Failure} (h : Records plain call P) :
    Records (plain.withReason reason) (call.withReason reason)
      fun r added => ∃ tried, r = tried.mapError reason ∧ P tried added := by
  intro state record
  obtain ⟨added, kept, same, holds⟩ := h state record
  rw [outcome_withReason, outcome_withReason, same]
  exact ⟨added, kept, rfl, _, rfl, holds⟩

end Records

/-! ### Lists -/

section Lists

variable {R : α → β → Prop} {I : List κ → Prop} {l : List α} {l' : List β}

theorem Tracks.filterAuxM {test : α → Call σ Bool} {test' : β → Call (σ × List κ) Bool}
    (same : List.Forall₂ R l l') (start : I [])
    (grow : ∀ added later, I added → I later → I (added ++ later))
    (tests : ∀ a b, R a b → Records (test a) (test' b) fun _ added => I added) {front : List α}
    {front' : List β} (fronts : List.Forall₂ R front front') :
    Tracks (l.filterAuxM test front) (l'.filterAuxM test' front') fun r r' added => I added ∧
      ((∃ e, r = .error e ∧ r' = .error e) ∨ ∃ picked picked', r = .ok picked ∧
        r' = .ok picked' ∧ List.Forall₂ R picked picked' ∧ picked ⊆ front ++ l) := by
  induction same generalizing front front' with
  | nil =>
    exact Tracks.pure ⟨start, .inr ⟨front, front', rfl, rfl, fronts, by simp⟩⟩
  | cons here _ ih =>
    rename_i a b l l' _
    refine Tracks.bind (tests a b here) (fun e _ added ⟨same, quiet⟩ => ?_)
      fun picked _ added ⟨same, quiet⟩ => ⟨picked, same, ?_⟩
    · exact ⟨same, quiet, .inl ⟨e, rfl, rfl⟩⟩
    · have chosen : List.Forall₂ R (cond picked (a :: front) front)
          (cond picked (b :: front') front') := by cases picked <;> simp [fronts, here]
      refine (ih chosen).mono fun r r' later ⟨quieter, result⟩ => ⟨grow _ _ quiet quieter, ?_⟩
      refine result.imp_right ?_
      rintro ⟨chosen, chosen', rfl, rfl, both, among⟩
      refine ⟨chosen, chosen', rfl, rfl, both, fun c member => ?_⟩
      have := among member
      cases picked <;> simp_all <;> tauto

/-- The elements that a call picks correspond to each other if those asked do. -/
theorem Tracks.filterM {test : α → Call σ Bool} {test' : β → Call (σ × List κ) Bool}
    (same : List.Forall₂ R l l') (start : I [])
    (grow : ∀ added later, I added → I later → I (added ++ later))
    (tests : ∀ a b, R a b → Records (test a) (test' b) fun _ added => I added) :
    Tracks (l.filterM test) (l'.filterM test') fun r r' added => I added ∧
      ((∃ e, r = .error e ∧ r' = .error e) ∨ ∃ picked picked', r = .ok picked ∧
        r' = .ok picked' ∧ List.Forall₂ R picked picked' ∧ picked ⊆ l) := by
  refine Tracks.bind (Tracks.filterAuxM same start grow tests .nil) ?_ ?_
  · rintro e r' added ⟨quiet, ⟨_, ⟨⟩, rfl⟩ | ⟨_, _, ⟨⟩, _⟩⟩
    exact ⟨rfl, quiet, .inl ⟨e, rfl, rfl⟩⟩
  · rintro picked r' added ⟨quiet, ⟨_, ⟨⟩, rfl⟩ | ⟨_, picked', ⟨⟩, rfl, both, among⟩⟩
    refine ⟨picked', rfl, Tracks.pure ⟨by simpa using quiet, .inr ?_⟩⟩
    exact ⟨_, _, rfl, rfl, List.rel_reverse both, by simpa using among⟩

/-- A fold whose steps correspond to each other, with an invariant `J` on the value carried. -/
theorem Records.foldlM {J : γ → Prop} {step : γ → α → Call σ γ}
    {step' : γ → β → Call (σ × List κ) γ} (same : List.Forall₂ R l l') (start : I [])
    (grow : ∀ added later, I added → I later → I (added ++ later))
    (steps : ∀ value, ∀ a ∈ l, ∀ b, R a b → J value → Records (step value a) (step' value b)
      fun r added => I added ∧ ∀ value, r = .ok value → J value)
    {value : γ} (first : J value) :
    Records (l.foldlM step value) (l'.foldlM step' value)
      fun r added => I added ∧ ∀ value, r = .ok value → J value := by
  induction same generalizing value with
  | nil => exact Records.pure ⟨start, fun _ h => by cases h; exact first⟩
  | cons here _ ih =>
    rw [List.foldlM_cons, List.foldlM_cons]
    refine Records.bind (steps value _ List.mem_cons_self _ here first)
      (fun e added ⟨quiet, _⟩ => ⟨quiet, fun _ h => nomatch h⟩) fun next added ⟨quiet, kept⟩ => ?_
    exact (ih (fun value a member => steps value a (List.mem_cons_of_mem _ member))
      (kept next rfl)).mono fun r later ⟨quieter, kept⟩ => ⟨grow _ _ quiet quieter, kept⟩

end Lists

end ClassInstrument.Call
