import Metaheuristic.Proofs.Model.Recheck
import Metaheuristic.Proofs.Search.Repeats

/-! What a search reports about a candidate is what the model says about its
chromosome alone. Records hold nothing but evaluated agents, evaluated agents
carry the scores of their row of a batch, and for a script that treats the agents
alike a row of a batch is the pass over that row. -/
namespace Metaheuristic

variable {ρ α : Type} [Scalar α]

namespace Problem

variable {problem : Problem α} {config : Config α} {a : Agent α}

/-- The status and the rewards that a chromosome gets when it is evaluated alone, in
whatever pass. -/
def RatesAlone (problem : Problem α) (chromosome : List α) (status : Feasibility)
    (rewards : List α) : Prop :=
  ∃ e penalty,
    (∀ number, (problem.schema.evaluate (problem.model number) (View.single chromosome)).1 =
      .ok e) ∧
    e.penalty = [penalty] ∧ status = problem.scoring.classify penalty ∧
    rewards.length = problem.directions.length ∧
    ∀ (k : Nat) (d : Direction), problem.directions[k]? = some d →
      ∃ x, e.objectives[k]? = some (.single x) ∧
        rewards[k]? = some (problem.scoring.fitness x penalty d)

/-- A record that was told a log holds agents of this log. -/
theorem Told.mem_log {log : List (Agent α)} {record : Record α}
    (told : problem.Told config log record) (member : a ∈ record.held) : a ∈ log := by
  rcases Record.mem_observeAll told.recorded member with before | logged
  · rw [Record.held_empty] at before
    cases before
  · exact logged

variable {script : Script α}

/-- The scores of a row of a batch are those of the chromosome alone. -/
theorem Assessed.alone (rowwise : script.Rowwise) (scripted : problem.model = script.model)
    (assessed : problem.Assessed a) : problem.RatesAlone a.chromosome a.status a.reward := by
  obtain ⟨passes, view, e, i, ran, _, uniform, place, penalty, read, classified, length, places⟩ :=
    assessed
  rw [scripted] at ran
  have alone (number : Nat) : (problem.schema.evaluate (problem.model number)
      (View.single a.chromosome)).1 = .ok (e.row i) := by
    rw [scripted, Schema.evaluate_row rowwise problem.schema uniform place passes number, ran]
    rfl
  refine ⟨e.row i, penalty, alone, ?_, classified, length, fun k d direction => ?_⟩
  · rw [Evaluation.row, read]
    rfl
  · obtain ⟨c, x, column, value, reward⟩ := places k d direction
    refine ⟨x, ?_, reward⟩
    have inside : i < c.size := (List.getElem?_eq_some_iff.mp value).1
    have own : c.at? i = some x := (Column.at?_of_lt inside).trans value
    rw [Evaluation.row, List.getElem?_map, column, Option.map_some, Column.row_eq_single own]

/-- Checking a chromosome answers the status that its evaluation stands for. -/
theorem RatesAlone.recheck {chromosome : List α} {status : Feasibility} {rewards : List α}
    (rates : problem.RatesAlone chromosome status rewards) (rowwise : script.Rowwise)
    (scripted : problem.model = script.model)
    (counted : problem.scoring.constraints = problem.schema.constraints.length) (number : Nat) :
    (problem.schema.classify (problem.model number) (View.single chromosome)).1 =
      .ok [status] := by
  obtain ⟨e, penalty, evaluated, single, rfl, _⟩ := rates
  have ran := evaluated number
  rw [scripted] at ran ⊢
  have always : ∀ line ∈ script, line.isUnconditional = true := fun line member =>
    (rowwise line member).1
  rw [Schema.classify_of_evaluate always ran, single, Scoring.classify, counted]
  rfl

end Problem

namespace Search

variable [RandomSource ρ α] {config : Config α} {fallback : UInt64} {problem : Problem α}
  {result : Result α}

omit [RandomSource ρ α] in
/-- No merge brings in an agent that was not evaluated in a successful repeat. -/
theorem held_evaluated {outcomes : List (Except (Error α) (Outcome α))}
    {summary : Summary α}
    (told : ∀ o, .ok o ∈ outcomes → problem.Told config o.log o.record)
    (added : Summary.addAll config.recordHistory 0 outcomes
      (.empty problem.directions config.archiveCapacity) = .ok summary) :
    ∀ a ∈ summary.record.held, a ∈ evaluated outcomes := by
  refine Summary.addAll_ok (I := fun _ r => ∀ a ∈ r.held, a ∈ evaluated outcomes) ?_ ?_ ?_ added
  · intro _ _ r known
    exact known
  · intro _ o r r' member known merged a held
    rcases Record.mem_merge merged held with before | new
    · exact known a before
    · exact mem_evaluated.mpr ⟨o, member, (told o member).mem_log new⟩
  · intro a held
    have nothing : (Record.empty problem.directions config.archiveCapacity : Record α).held = [] :=
      Record.held_empty ..
    rw [Summary.empty, nothing] at held
    cases held

/-- Behind every reported candidate stands an agent that was evaluated in a
successful repeat. The solution is what the chromosome of this agent decodes to,
and the rewards and the status are those that the chromosome gets alone. Checking
it again answers the status that the batch gave the agent, in whatever pass. -/
theorem run_reports_faithfully {script : Script α} (rowwise : script.Rowwise)
    (ran : run ρ config fallback script.model = .ok result) :
    ∃ problem outcomes passes,
      Problem.make script.model config.penaltyCoefficient = .ok problem ∧
      attempts ρ problem config 0 0 (streamSeeds config.repeats
        (RandomSource.ofSeed (config.seed.getD fallback) : ρ)) = .ok (outcomes, passes) ∧
      ∀ c ∈ result.candidates, ∃ a ∈ evaluated outcomes,
        problem.schema.decode a.chromosome = .ok c.solution ∧
        problem.RatesAlone a.chromosome c.status c.reward ∧
        c.reward = a.reward ∧ c.status = a.status ∧
        ∀ number, (problem.schema.classify (problem.model number)
          (View.single a.chromosome)).1 = .ok [a.status] := by
  obtain ⟨problem, outcomes, passes, summary, valid, made, fitting, attempted, added, concluded⟩ :=
    run_ok ran
  obtain ⟨_, scripted, scoring⟩ := Problem.make_ok made
  have counted : problem.scoring.constraints = problem.schema.constraints.length := by
    rw [scoring]
  have repeats := attempts_told (active_of_valid valid fitting) attempted
  obtain ⟨reported, _⟩ := conclude_ok concluded
  refine ⟨problem, outcomes, passes, made, attempted, fun c listed => ?_⟩
  obtain ⟨a, chosen, built⟩ := mem_mapM_ok reported listed
  have member : a ∈ evaluated outcomes :=
    held_evaluated (fun o inside => (repeats o inside).1) added a (Record.mem_reported.mp chosen)
  obtain ⟨o, inside, logged⟩ := mem_evaluated.mp member
  have rates := ((repeats o inside).1.assessed a logged).alone rowwise scripted
  have recheck := rates.recheck rowwise scripted counted
  obtain ⟨statuses, classified, decoded, reward, status⟩ := candidate_ok built
  rw [recheck passes] at classified
  cases classified
  refine ⟨a, member, decoded, ?_, reward, status, recheck⟩
  rw [reward, status]
  exact rates

theorem run_reports_faithfully_budget :
    ∃ result problem outcomes passes,
      Schema.budget.Rowwise ∧
      run (Generator Float) budgetSearch 0 Schema.budget.model = .ok result ∧
      Problem.make Schema.budget.model budgetSearch.penaltyCoefficient = .ok problem ∧
      attempts (Generator Float) problem budgetSearch 0 0
        (streamSeeds 2 (RandomSource.ofSeed 7 : Generator Float)) = .ok (outcomes, passes) ∧
      ∀ c ∈ result.candidates, ∃ a ∈ evaluated outcomes,
        problem.schema.decode a.chromosome = .ok c.solution ∧
        problem.RatesAlone a.chromosome c.status c.reward ∧ c.status = a.status := by
  obtain ⟨result, ran⟩ := budget_runs
  obtain ⟨problem, outcomes, passes, made, attempted, faithful⟩ :=
    run_reports_faithfully Schema.budget_rowwise ran
  refine ⟨result, problem, outcomes, passes, Schema.budget_rowwise, ran, made, attempted,
    fun c listed => ?_⟩
  obtain ⟨a, member, decoded, rates, _, status, _⟩ := faithful c listed
  exact ⟨a, member, decoded, rates, status⟩

end Search
end Metaheuristic
