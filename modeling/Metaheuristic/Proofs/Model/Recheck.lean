import Metaheuristic.Proofs.Computation
import Metaheuristic.Proofs.Model.Batch

/-! A pass that only checks feasibility against the one that evaluates. Erasing the
objective columns takes the second to the first, so whatever can be evaluated can
be checked again, with the same penalties. -/
namespace Metaheuristic

variable {α : Type} [Scalar α]

namespace Pass

/-- Progress without the objective columns. -/
def erase (p : Pass α) : Pass α := { p with objectives := [] }

variable {schema : Schema α} {view : View α} {p q : Pass α} {n : Nat}

theorem declare_erase {d : Declaration α} {values : Assignment α}
    (ran : declare schema view p d = .ok (values, q)) :
    declare schema view p.erase d = .ok (values, q.erase) := by
  unfold declare at ran ⊢
  have declared : p.erase.declared = p.declared := rfl
  rw [declared]
  split at ran
  · cases ran
  · split at ran
    · rename_i agrees
      split at ran
      · cases ran
      · cases ran
        rw [if_pos agrees]
        rfl
    · cases ran

theorem constrain_erase {c : Constraint α} (ran : granted (constrain n p c) = .ok q) :
    granted (constrain n p.erase c) = .ok q.erase := by
  by_cases violation : c.violation.Spans n
  · rw [constrain_granted p violation] at ran
    rw [constrain_granted p.erase violation]
    cases ran
    rfl
  · rw [constrain_refused p violation] at ran
    cases ran

omit [Scalar α] in
/-- A check counts the objective, but neither measures nor keeps its column. -/
theorem optimize_erase {d : Direction} {c : Column α}
    (ran : granted (optimize .evaluate n p d c) = .ok q) :
    granted (optimize .feasibility n p.erase d c) = .ok q.erase := by
  by_cases column : c.Spans n
  · obtain ⟨_, _, _, accepted⟩ := optimize_evaluate p d column
    rw [accepted] at ran
    cases ran
    rfl
  · rw [optimize_refused p d column] at ran
    cases ran

omit [Scalar α] in
theorem close_erase {e : Evaluation α} (ran : p.close schema = .ok e) :
    p.erase.close schema = .ok ⟨[], e.penalty⟩ := by
  unfold close at ran ⊢
  have declared : p.erase.declared = p.declared := rfl
  have directions : p.erase.directions = p.directions := rfl
  have constraints : p.erase.constraints = p.constraints := rfl
  rw [declared, directions, constraints]
  split at ran
  · cases ran
  · split at ran
    · cases ran
    · split at ran
      · cases ran
      · cases ran
        rename_i objectives count
        rw [if_neg objectives, if_neg count]
        rfl

/-- One step of both passes, given that what follows it agrees. -/
private theorem issue_erase {step : Step α} {env : Environment α}
    {next next' : Environment α → Program α}
    (after : ∀ env (p q : Pass α), (follow .evaluate schema view (next env) p).1 = .ok q →
      (follow .feasibility schema view (next' env) p.erase).1 = .ok q.erase)
    (ran : (follow .evaluate schema view (step.issue env next) p).1 = .ok q) :
    (follow .feasibility schema view (step.issue env next') p.erase).1 = .ok q.erase := by
  cases step with
  | declare d =>
    simp only [Step.issue, follow_declare_require] at ran ⊢
    obtain ⟨⟨values, middle⟩, declared, ran⟩ := bind_ok.mp ran
    exact bind_ok.mpr ⟨_, declare_erase declared, after _ middle q ran⟩
  | constrain relation label =>
    simp only [Step.issue, follow_agents, follow_proceed, follow_constrain_require] at ran ⊢
    obtain ⟨c, evaluated, ran⟩ := bind_ok.mp ran
    obtain ⟨middle, registered, ran⟩ := bind_ok.mp ran
    refine bind_ok.mpr ⟨c, evaluated, bind_ok.mpr ⟨middle.erase, ?_, after env middle q ran⟩⟩
    exact mapError_ok.mpr (constrain_erase (mapError_ok.mp registered))
  | optimize d formula =>
    simp only [Step.issue, follow_agents, follow_proceed, follow_optimize_require] at ran ⊢
    obtain ⟨c, evaluated, ran⟩ := bind_ok.mp ran
    obtain ⟨middle, registered, ran⟩ := bind_ok.mp ran
    refine bind_ok.mpr ⟨c, evaluated, bind_ok.mpr ⟨middle.erase, ?_, after env middle q ran⟩⟩
    exact mapError_ok.mpr (optimize_erase (mapError_ok.mp registered))
  | fail text => cases ran
  | observe formula =>
    simp only [Step.issue, follow_agents, follow_proceed, follow_mode, follow_note] at ran ⊢
    obtain ⟨c, evaluated, ran⟩ := bind_ok.mp ran
    exact bind_ok.mpr ⟨c, evaluated, after env p q ran⟩
  | describe name =>
    simp only [Step.issue, follow_proceed, follow_mode, follow_note] at ran ⊢
    obtain ⟨values, found, ran⟩ := bind_ok.mp ran
    exact bind_ok.mpr ⟨values, found, after env p q ran⟩

/-- By induction on the script: as long as evaluating goes on, checking follows it.
The numbers of the passes do not matter. -/
theorem follow_erase {script : Script α} (always : ∀ line ∈ script, line.isUnconditional = true)
    {env : Environment α} {passes passes' : Nat}
    (ran : (follow .evaluate schema view (script.program passes env) p).1 = .ok q) :
    (follow .feasibility schema view (script.program passes' env) p.erase).1 = .ok q.erase := by
  induction script generalizing env p q with
  | nil =>
    cases ran
    rfl
  | cons line script ih =>
    simp only [Script.program, always line List.mem_cons_self, if_true] at ran ⊢
    refine issue_erase (fun env p q => ?_) ran
    exact ih fun l member => always l (List.mem_cons_of_mem _ member)

end Pass

namespace Schema

variable {schema : Schema α} {view : View α}

/-- What could be evaluated is classified by the penalties of that evaluation. -/
theorem classify_of_evaluate {script : Script α}
    (always : ∀ line ∈ script, line.isUnconditional = true) {passes passes' : Nat}
    {e : Evaluation α} (ran : (schema.evaluate (script.model passes) view).1 = .ok e) :
    (schema.classify (script.model passes') view).1 =
      .ok (e.penalty.map (Feasibility.classify schema.constraints.length)) := by
  rw [Schema.evaluate, Pass.run_eq] at ran
  obtain ⟨p, followed, closed⟩ := bind_ok.mp ran
  have checked : (Pass.run .feasibility schema (script.model passes') view).1 =
      .ok ⟨[], e.penalty⟩ := by
    rw [Pass.run_eq]
    refine bind_ok.mpr ⟨p.erase, Pass.follow_erase always followed, ?_⟩
    exact mapError_ok.mpr (Pass.close_erase (mapError_ok.mp closed))
  exact map_ok.mpr ⟨_, checked, rfl⟩

end Schema
end Metaheuristic
