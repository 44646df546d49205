import ClassInstrument.Proofs.Pipeline.Recorded

/-!
# A class is processed once

Whatever the collaborators of a pipeline do, and whether or not they fail, a class goes its way on
the first call for its name only, and it ends in one place.

* `Pipeline.processed_once` — later calls for a name reach no collaborator and give back their
  bytes; every call keeps the discipline of `Delivered`.
-/

namespace ClassInstrument.Pipeline

variable {σ : Type} (p : Pipeline σ)

/-- **Each class is processed at most once, and delivered at most once.**  The results of a run are
those of the plain pipeline.  In a run, a call for a name that was asked for before gives back the
bytes it is given and reaches no collaborator; and of every call, one that fails has told the cache
nothing and handed out nothing, one that returns bytes has handed out nothing, and one that is
redirected has handed out one class and told the cache nothing. -/
theorem processed_once (state : σ) :
    (∀ requests,
      (p.serve requests .empty state).map Report.result = p.answers requests .empty state) ∧
    ∀ history request later, ∃ report,
      (p.serve (history ++ request :: later) .empty state)[history.length]? = some report ∧
      (request.name ∈ history.map Request.name → report = ⟨.ok (.bytes request.bytes), []⟩) ∧
      Delivered report.result report.contacts := by
  refine ⟨fun requests => p.serve_answers requests .empty state, fun history request later => ?_⟩
  obtain ⟨contacts, same, silent, delivered⟩ := p.report_eq request
    (p.after history .empty state).1 (p.after history .empty state).2
  refine ⟨⟨_, contacts⟩, ?_, fun known => ?_, delivered⟩
  · rw [serve_append, List.getElem?_append_right (by simp)]
    simp [serve_cons, same]
  · have claimed := (p.contains_after history .empty state request.name).2 (.inr known)
    obtain ⟨given, rfl⟩ := silent claimed
    exact congrArg (Report.mk · []) given

end ClassInstrument.Pipeline
