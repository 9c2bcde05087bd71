import Metaheuristic.Proofs.Search.Duality
import Metaheuristic.Proofs.Search.Isolation

/-! Where a search ends with an error about the space or the configuration itself.

Such an error is meant to come before any repeat, and an error of the model in a repeat is
wrapped in one that says where it came up. One kind of pass escapes both: after all the
repeats the reported agents are checked again, and an error of the model in such a check
comes through as it is, whatever the repeats have found. -/
namespace Metaheuristic

variable {ρ α : Type}

deriving instance DecidableEq for Declaration, SchemaError, Requirement, ConfigError, Error, Failure

/-- Whether an error is about the space or the configuration, and not about an evaluation. -/
def Error.Bare : Error α → Prop
  | schema _ | config _ => True
  | evaluation .. | model _ | columnLength .. => False

variable [Scalar α]

namespace Search

/-- The repeats of a search are over and have been folded. -/
structure Gathered (ρ : Type) [RandomSource ρ α] (problem : Problem α) (config : Config α)
    (seed : UInt64) (outcomes : List (Except (Error α) (Outcome α))) (passes : Nat)
    (summary : Summary α) : Prop where
  attempted : attempts ρ problem config 0 0
    (streamSeeds config.repeats (RandomSource.ofSeed seed : ρ)) = .ok (outcomes, passes)
  added : Summary.addAll config.recordHistory 0 outcomes
    (.empty problem.directions config.archiveCapacity) = .ok summary

/-- The search ends with an error before its first repeat. -/
def Refuses (config : Config α) (model : Model α) (e : Error α) : Prop :=
  prepare config model = .error (.error e)

/-- After the repeats, checking a reported agent again ends with an error. Those reported
before it were checked, and it was evaluated in a successful repeat. -/
def RecheckFails (ρ : Type) [RandomSource ρ α] (config : Config α) (fallback : UInt64)
    (model : Model α) (e : Error α) : Prop :=
  ∃ problem outcomes passes summary before a after,
    prepare config model = .ok problem ∧
    Gathered ρ problem config (config.seed.getD fallback) outcomes passes summary ∧
    summary.record.reported = before ++ a :: after ∧
    (∀ b ∈ before, ∃ c, candidate problem passes b = .ok c) ∧ a ∈ evaluated outcomes ∧
    (problem.schema.classify (problem.model passes) (View.single a.chromosome)).1 =
      .error (.error e)

variable {config : Config α} {model model' : Model α} {problem : Problem α} {e : Error α}

/-- What is made of a model before the repeats depends on its discovery alone. -/
theorem prepare_of_discover (config : Config α)
    (same : (Schema.discover (model' 0)).1 = (Schema.discover (model 0)).1) :
    prepare config model' =
      (prepare config model).map fun problem => { problem with model := model' } := by
  have made : Problem.make model' config.penaltyCoefficient =
      (Problem.make model config.penaltyCoefficient).map
        fun problem => { problem with model := model' } := by
    rw [Problem.make, Problem.make, same]
    exact bind_same fun schema => bind_same fun scoring => rfl
  exact bind_same fun _ => bind_image made fun problem => bind_same fun _ => rfl

/-- Decoding brings in faults alone, so an error is that of the check. -/
theorem candidate_error_iff {passes : Nat} {a : Agent α} :
    candidate problem passes a = .error (.error e) ↔
      (problem.schema.classify (problem.model passes) (View.single a.chromosome)).1 =
        .error (.error e) := by
  rw [candidate, bind_error]
  constructor
  · rintro (failed | ⟨statuses, _, rest⟩)
    · exact failed
    · rcases bind_error.mp rest with undecoded | ⟨_, _, built⟩
      · obtain ⟨_, _, ⟨⟩⟩ := mapError_error.mp undecoded
      · cases built
  · exact .inl

theorem conclude_error {passes : Nat} {s : Summary α}
    (ran : conclude problem config passes s = .error (.error e)) :
    s.firstError = some e ∨
      s.record.reported.mapM (candidate problem passes) = .error (.error e) := by
  unfold conclude at ran
  split at ran
  · rename_i first
    cases ran
    exact .inl first
  · rcases bind_error.mp ran with failed | ⟨_, _, built⟩
    · exact .inr failed
    · cases built

/-- Where a repeat succeeded, an error of a check comes through. -/
theorem conclude_of_error {passes : Nat} {s : Summary α} (succeeded : s.succeeded ≠ 0)
    (failed : s.record.reported.mapM (candidate problem passes) = .error (.error e)) :
    conclude problem config passes s = .error (.error e) := by
  unfold conclude
  split
  · contradiction
  · rw [failed]
    rfl

omit [Scalar α] in
theorem mem_of_firstFailure {outcomes : List (Except (Error α) (Outcome α))}
    (first : firstFailure outcomes = some e) : .error e ∈ outcomes := by
  obtain ⟨outcome, member, found⟩ := List.exists_of_findSome?_eq_some first
  cases outcome with
  | ok o => cases found
  | error cause =>
    cases found
    exact member

variable [RandomSource ρ α] {fallback seed : UInt64} {passes : Nat} {summary : Summary α}
  {outcomes : List (Except (Error α) (Outcome α))}

/-- The error of a repeat says where it came up. -/
theorem attempt_error_wrapped (accepted : problem.Accepted config) (active : Active config)
    {round passes passes' : Nat} {random : ρ}
    (ran : attempt problem config round passes random = .ok (.error e, passes')) :
    ∃ iteration source, e = .evaluation round iteration source := by
  obtain ⟨i, _, _, _, source, _, _, _, wrapped, _⟩ :=
    (attempt_error_iff ⟨problem, config, round, passes, random⟩ accepted active e passes').mp ran
  exact ⟨i, source, wrapped⟩

namespace Gathered

variable (gathered : Gathered ρ problem config seed outcomes passes summary)

include gathered

/-- The error that a search without any success ends with comes from a repeat. -/
theorem first_wrapped (accepted : problem.Accepted config) (active : Active config)
    (first : summary.firstError = some e) :
    ∃ round iteration source, e = .evaluation round iteration source := by
  obtain ⟨_, _, traced⟩ := Summary.addAll_traces gathered.added
  have failed : firstFailure outcomes = some e := traced.symm.trans first
  obtain ⟨round, before, random, after, ran⟩ :=
    mem_attempts gathered.attempted (mem_of_firstFailure failed)
  exact ⟨round, attempt_error_wrapped accepted active ran⟩

theorem reported_evaluated (active : Active config) {a : Agent α}
    (reported : a ∈ summary.record.reported) : a ∈ evaluated outcomes :=
  held_evaluated (fun o member => (attempts_told active gathered.attempted o member).1)
    gathered.added a (Record.mem_reported.mp reported)

theorem succeeded {a : Agent α} (logged : a ∈ evaluated outcomes) : summary.succeeded ≠ 0 := by
  obtain ⟨_, count, _⟩ := Summary.addAll_traces gathered.added
  obtain ⟨o, member, _⟩ := mem_evaluated.mp logged
  have some := List.length_pos_of_mem (mem_successes.mpr member)
  omega

/-- Of a script that treats the agents alike, what could be evaluated can be checked. -/
theorem rechecks {script : Script α} (rowwise : script.Rowwise)
    (made : Problem.make script.model config.penaltyCoefficient = .ok problem)
    (active : Active config) {a : Agent α} (logged : a ∈ evaluated outcomes) :
    (problem.schema.classify (problem.model passes) (View.single a.chromosome)).1 =
      .ok [a.status] := by
  obtain ⟨_, scripted, scoring⟩ := Problem.make_ok made
  have counted : problem.scoring.constraints = problem.schema.constraints.length := by
    rw [scoring]
  obtain ⟨o, member, inside⟩ := mem_evaluated.mp logged
  have assessed := (attempts_told active gathered.attempted o member).1.assessed a inside
  exact (assessed.alone rowwise scripted).recheck rowwise scripted counted passes

end Gathered

/-- An error that does not say where it came up comes from before the repeats or after
them: those of the repeats say so. -/
theorem refuses_or_recheckFails (bare : e.Bare)
    (ran : run ρ config fallback model = .error (.error e)) :
    Refuses config model e ∨ RecheckFails ρ config fallback model e := by
  rw [run_prepared] at ran
  rcases bind_error.mp ran with refused | ⟨problem, prepared, ran⟩
  · exact .inl refused
  rcases bind_error.mp ran with faulted | ⟨⟨outcomes, passes⟩, attempted, ran⟩
  · obtain ⟨_, _, ⟨⟩⟩ := mapError_error.mp faulted
  rcases bind_error.mp ran with faulted | ⟨summary, added, ran⟩
  · obtain ⟨_, _, ⟨⟩⟩ := mapError_error.mp faulted
  have gathered : Gathered ρ problem config (config.seed.getD fallback) outcomes passes summary :=
    ⟨mapError_ok.mp attempted, mapError_ok.mp added⟩
  obtain ⟨valid, made, fitting⟩ := prepare_ok prepared
  have active := active_of_valid valid fitting
  rcases conclude_error ran with first | failed
  · obtain ⟨_, _, _, rfl⟩ :=
      gathered.first_wrapped (Problem.accepted made valid fitting) active first
    exact bare.elim
  · obtain ⟨before, a, after, reported, checked, failed⟩ := mapM_error_iff.mp failed
    have member : a ∈ summary.record.reported := by
      rw [reported]
      exact List.mem_append_right _ List.mem_cons_self
    exact .inr ⟨problem, outcomes, passes, summary, before, a, after, prepared, gathered, reported,
      checked, gathered.reported_evaluated active member, candidate_error_iff.mp failed⟩

theorem run_of_recheckFails (fails : RecheckFails ρ config fallback model e) :
    run ρ config fallback model = .error (.error e) := by
  obtain ⟨problem, outcomes, passes, summary, before, a, after, prepared, gathered, reported,
    checked, logged, failed⟩ := fails
  have unchecked : summary.record.reported.mapM (candidate problem passes) = .error (.error e) :=
    mapM_error_iff.mpr ⟨before, a, after, reported, checked, candidate_error_iff.mpr failed⟩
  rw [run_prepared]
  refine bind_error.mpr (.inr ⟨problem, prepared, ?_⟩)
  refine bind_error.mpr (.inr ⟨_, mapError_ok.mpr gathered.attempted, ?_⟩)
  refine bind_error.mpr (.inr ⟨_, mapError_ok.mpr gathered.added, ?_⟩)
  exact conclude_of_error (gathered.succeeded logged) unchecked

theorem run_of_refuses (refuses : Refuses config model e) :
    run ρ config fallback model = .error (.error e) := by
  rw [run_prepared]
  exact bind_error.mpr (.inl refuses)

/-- An error about the space or the configuration itself comes from before the repeats or
from after them.

A search ends with it exactly if the search is refused, or if checking a reported agent
again ends with it. A refusal rests on the configuration and on the discovery of the model
alone: every model that is discovered alike is refused alike, whatever it would do in
another pass.

The other case is left out where the model is a script that treats the agents alike. -/
theorem bare_errors_refuse_or_recheck (config : Config α) (fallback : UInt64) (model : Model α)
    {e : Error α} (bare : e.Bare) :
    (run ρ config fallback model = .error (.error e) ↔
      Refuses config model e ∨ RecheckFails ρ config fallback model e) ∧
    (Refuses config model e → ¬ RecheckFails ρ config fallback model e ∧
      ∀ fallback' model', (Schema.discover (model' 0)).1 = (Schema.discover (model 0)).1 →
        run ρ config fallback' model' = .error (.error e)) ∧
    ∀ script : Script α, script.Rowwise → model = script.model →
      ¬ RecheckFails ρ config fallback model e := by
  refine ⟨⟨refuses_or_recheckFails bare, ?_⟩,
    fun refuses => ⟨?_, fun fallback' model' same => ?_⟩, ?_⟩
  · rintro (refuses | fails)
    · exact run_of_refuses refuses
    · exact run_of_recheckFails fails
  · rintro ⟨problem, _, _, _, _, _, _, prepared, _⟩
    rw [Refuses, prepared] at refuses
    cases refuses
  · refine run_of_refuses ?_
    rw [Refuses, prepare_of_discover config same, refuses]
    rfl
  · rintro script rowwise rfl
      ⟨problem, outcomes, passes, summary, _, a, _, prepared, gathered, _, _, logged, failed⟩
    obtain ⟨valid, made, fitting⟩ := prepare_ok prepared
    rw [gathered.rechecks rowwise made (active_of_valid valid fitting) logged] at failed
    cases failed

/-- The budget with a variable that only a check of feasibility declares. -/
def lateBudget : Script Float :=
  Schema.budget ++ [⟨some [.feasibility], none, .declare ⟨"late", .binary, .scalar, ⟨0.0, 1.0⟩⟩⟩]

/-- One repeat of a short tabu search. -/
def lateSearch : Config Float := { budgetSearch with repeats := 1 }

/-- Discovery finds nothing of the late variable. -/
def lateProblem : Problem Float := { budgetProblem with model := lateBudget.model }

/-- What the check says about the late variable. -/
def lateError : Error Float :=
  .schema (.divergent 1 none (some ⟨"late", .binary, .scalar, ⟨0.0, 1.0⟩⟩))

theorem late_discovered :
    (Schema.discover (lateBudget.model 0)).1 = (Schema.discover (Schema.budget.model 0)).1 := by
  have extended : Schema.extend (lateBudget.model 0) .empty = (.ok Schema.budgetSchema, []) := by
    have issued : lateBudget.model 0 = .declare ⟨"x", .continuous, .vector 2, ⟨0.0, 10.0⟩⟩
        (.require fun values => Script.program 0 (lateBudget.drop 1) [("x", values)]) := rfl
    rw [issued, Schema.extend, Schema.budget_declared]
    rfl
  rw [Schema.budget_discovered, Schema.discover, extended]
  rfl

theorem late_prepared : prepare lateSearch lateBudget.model = .ok lateProblem := by
  have budget : prepare lateSearch Schema.budget.model = .ok budgetProblem := by
    have made : Problem.make Schema.budget.model lateSearch.penaltyCoefficient =
        .ok budgetProblem := budget_made
    rw [prepare, made]
    rfl
  rw [prepare_of_discover lateSearch late_discovered, budget]
  rfl

theorem late_run :
    run (Generator Float) lateSearch 0 lateBudget.model = .error (.error lateError) := by
  have ended : (run (Generator Float) lateSearch 0 lateBudget.model).map (fun _ => ()) =
      .error (.error lateError) := by
    rw [run_prepared, late_prepared]
    decide +kernel
  cases ran : run (Generator Float) lateSearch 0 lateBudget.model with
  | ok result =>
    rw [ran] at ended
    cases ended
  | error failure =>
    rw [ran] at ended
    cases ended
    rfl

/-- The search has taken two evaluation passes and evaluated two agents, and it ends with
an error that does not say so. -/
theorem bare_error_after_passes_late :
    lateError.Bare ∧ prepare lateSearch lateBudget.model = .ok lateProblem ∧
    (∃ outcomes, attempts (Generator Float) lateProblem lateSearch 0 0
        (streamSeeds lateSearch.repeats
          (RandomSource.ofSeed (lateSearch.seed.getD 0) : Generator Float)) =
            .ok (outcomes, 2) ∧
      (evaluated outcomes).length = 2) ∧
    run (Generator Float) lateSearch 0 lateBudget.model = .error (.error lateError) := by
  obtain ⟨⟨outcomes, passes⟩, ran, two, logged⟩ := exists_ok_of_any
    (x := attempts (Generator Float) lateProblem lateSearch 0 0
      (streamSeeds lateSearch.repeats
        (RandomSource.ofSeed (lateSearch.seed.getD 0) : Generator Float)))
    (P := fun r => r.2 = 2 ∧ (evaluated r.1).length = 2) (by decide +kernel)
  cases two
  exact ⟨trivial, late_prepared, ⟨outcomes, ran, logged⟩, late_run⟩

theorem bare_errors_refuse_or_recheck_late :
    lateError.Bare ∧
    run (Generator Float) lateSearch 0 lateBudget.model = .error (.error lateError) ∧
    ¬ Refuses lateSearch lateBudget.model lateError ∧
    RecheckFails (Generator Float) lateSearch 0 lateBudget.model lateError := by
  have bare : lateError.Bare := trivial
  have accepted : ¬ Refuses lateSearch lateBudget.model lateError := by
    rw [Refuses, late_prepared]
    rintro ⟨⟩
  obtain ⟨causes, _⟩ := bare_errors_refuse_or_recheck (ρ := Generator Float) lateSearch 0
    lateBudget.model bare
  exact ⟨bare, late_run, accepted, (causes.mp late_run).resolve_left accepted⟩

end Search
end Metaheuristic
