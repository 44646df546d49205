import ClassInstrument.Failure
import Mathlib.Data.List.Forall2

/-!
# Outcomes of an analysis

An analysis has a result with some property, or it fails for a reason that lies in the body.  Two
failures tell of something else: they would mean that the analysis lost track of the body itself.

* `Failure.Ordinary` — none of these two;
* `Ends` — **a result with a property, or an ordinary failure**; it is kept by everything that
  computations are made of.
-/

namespace ClassInstrument

/-- The failure tells something about the body: it is none of an analysis that lost track of
allocation sites or of the ends of dead code. -/
def Failure.Ordinary : Failure → Prop
  | .encoding .unknownSite | .encoding .rangeSplit => False
  | _ => True

/-- A result with a property, or an ordinary failure. -/
def Ends {α : Type} (P : α → Prop) : Except Failure α → Prop
  | .ok a => P a
  | .error e => e.Ordinary

namespace Ends

variable {α β σ : Type} {P : α → Prop} {Q : β → Prop}

theorem of_ok {x : Except Failure α} (h : Ends P x) {a : α} (ok : x = .ok a) : P a := by
  rw [ok] at h
  exact h

theorem ordinary {x : Except Failure α} (h : Ends P x) {e : Failure} (error : x = .error e) :
    e.Ordinary := by
  rw [error] at h
  exact h

theorem imp {P' : α → Prop} {x : Except Failure α} (h : Ends P x) (weaker : ∀ a, P a → P' a) :
    Ends P' x := by
  cases x with
  | ok a => exact weaker a h
  | error e => exact h

/-- A property of results and the results themselves. -/
theorem self {x : Except Failure α} (h : Ends P x) : Ends (fun a => P a ∧ x = .ok a) x := by
  cases x with
  | ok a => exact ⟨h, rfl⟩
  | error e => exact h

/-- One computation after another. -/
theorem bind {x : Except Failure α} (h : Ends P x) {f : α → Except Failure β}
    (next : ∀ a, P a → Ends Q (f a)) : Ends Q (x >>= f) := by
  cases x with
  | ok a => exact next a h
  | error e => exact h

theorem map {x : Except Failure α} (h : Ends P x) {f : α → β} (next : ∀ a, P a → Q (f a)) :
    Ends Q (x.map f) := by
  cases x with
  | ok a => exact next a h
  | error e => exact h

/-- One computation behind another one that is not always there. -/
theorem ite_bind {c : Prop} [Decidable c] {x : Except Failure α} (h : Ends P x) {a : α}
    (known : P a) {f : α → Except Failure β} (next : ∀ a, P a → Ends Q (f a)) :
    Ends Q (if c then x >>= f else f a) := by
  split
  · exact h.bind next
  · exact next a known

/-- One computation for all elements of a list. -/
theorem mapM {R : α → β → Prop} {f : α → Except Failure β} {l : List α}
    (each : ∀ a ∈ l, Ends (R a) (f a)) : Ends (List.Forall₂ R l) (l.mapM f) := by
  induction l with
  | nil => exact .nil
  | cons a l ih =>
    rw [List.mapM_cons]
    refine (each a List.mem_cons_self).bind fun b hb => ?_
    refine (ih fun a' member => each a' (List.mem_cons_of_mem _ member)).bind fun bs hbs => ?_
    exact List.Forall₂.cons hb hbs

/-- A computation from element to element.  What is known behind an element has to be kept by all
others, so it is told for every prefix of the list. -/
theorem foldlM {I : List α → σ → Prop} {f : σ → α → Except Failure σ} {l : List α} {s : σ}
    (start : I [] s)
    (step : ∀ done, ∀ a ∈ l, ∀ s, I done s → Ends (I (done ++ [a])) (f s a)) :
    Ends (I l) (l.foldlM f s) := by
  suffices general : ∀ (l done : List α) (s : σ), I done s →
      (∀ done, ∀ a ∈ l, ∀ s, I done s → Ends (I (done ++ [a])) (f s a)) →
      Ends (I (done ++ l)) (l.foldlM f s) from general l [] s start step
  intro l
  induction l with
  | nil =>
    intro done s start _
    rw [List.append_nil]
    exact start
  | cons a l ih =>
    intro done s start step
    rw [List.foldlM_cons, show done ++ a :: l = (done ++ [a]) ++ l by simp]
    refine (step done a List.mem_cons_self s start).bind fun s' next => ?_
    exact ih (done ++ [a]) s' next fun done b member =>
      step done b (List.mem_cons_of_mem _ member)

end Ends

end ClassInstrument
