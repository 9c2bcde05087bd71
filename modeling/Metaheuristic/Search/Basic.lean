import Metaheuristic.Search.Result

/-! Searches: independent repeats of a run and what is reported of them.

Each repeat draws from a stream of its own, whose seed comes from the seed of the
search. A repeat in which the model fails becomes a warning, as long as another
one succeeds; a fault ends the search. -/
namespace Metaheuristic.Search

variable {ρ α : Type} [Scalar α] [RandomSource ρ α]

/-- Carries out a repeat after that many evaluation passes. Answers the number of
passes afterwards too. -/
def attempt (problem : Problem α) (config : Config α) (round passes : Nat) (random : ρ) :
    Except Fault (Except (Error α) (Outcome α) × Nat) := do
  let run ← Run.start problem config passes random
  let (result, run) := (Run.iterate problem config round config.iterations 0).run.run run
  match result with
  | .ok history =>
    .ok (.ok ⟨run.ledger.record, run.ledger.log, history, run.strategy.report⟩, run.ledger.passes)
  | .error (.error cause) => .ok (.error cause, run.ledger.passes)
  | .error (.fault cause) => .error cause

/-- Carries out a repeat for each seed, the first one having the given number.
Answers the number of passes afterwards too. -/
def attempts (ρ : Type) [RandomSource ρ α] (problem : Problem α) (config : Config α) :
    (round passes : Nat) → List UInt64 →
      Except Fault (List (Except (Error α) (Outcome α)) × Nat)
  | _, passes, [] => .ok ([], passes)
  | round, passes, seed :: seeds => do
    let (outcome, passes) ←
      attempt problem config round passes (RandomSource.ofSeed seed : ρ)
    let (rest, passes) ← attempts ρ problem config (round + 1) passes seeds
    return (outcome :: rest, passes)

/-- Decodes an agent and checks its feasibility again. -/
def candidate (problem : Problem α) (passes : Nat) (a : Agent α) :
    Except (Failure α) (Candidate α) := do
  let view := View.single a.chromosome
  let statuses ← (problem.schema.classify (problem.model passes) view).1
  let solution ← (problem.schema.decode a.chromosome).mapError .fault
  return ⟨solution, a.reward, statuses.headD a.status⟩

/-- Whether a result deserves the warning that nothing feasible was found. -/
def lacksFeasible : List (Candidate α) → Bool
  | [] => true
  | c :: _ => !c.status.isFeasible

/-- The result of folded repeats. When none succeeded it is the first error. -/
def conclude (problem : Problem α) (config : Config α) (passes : Nat) (s : Summary α) :
    Except (Failure α) (Result α) :=
  match s.succeeded, s.firstError with
  | 0, some cause => .error (.error cause)
  | _, _ => do
    let candidates ← s.record.reported.mapM (candidate problem passes)
    return {
      algorithm := config.algorithm.name
      candidates := candidates
      multiObjective := 1 < problem.schema.objectives
      warnings := s.warnings ++ (if lacksFeasible candidates then [.infeasibleResult] else [])
      history := s.history
      evaluations := s.evaluations
      report := s.report }

/-- Discovers the model, checks the configuration against it, carries out the
repeats and reports the best. The seed `fallback` serves a configuration without
one. -/
def run (ρ : Type) [RandomSource ρ α] (config : Config α) (fallback : UInt64)
    (model : Model α) : Except (Failure α) (Result α) := do
  config.validate.mapError fun cause => .error (.config cause)
  let problem ← Problem.make model config.penaltyCoefficient
  (config.algorithm.validateFor config.agents problem.schema.objectives).mapError
    fun cause => .error (.config cause)
  let seeds := streamSeeds config.repeats
    (RandomSource.ofSeed (config.seed.getD fallback) : ρ)
  let (outcomes, passes) ← (attempts ρ problem config 0 0 seeds).mapError .fault
  let summary ← (Summary.addAll config.recordHistory 0 outcomes
    (.empty problem.directions config.archiveCapacity)).mapError .fault
  conclude problem config passes summary

end Metaheuristic.Search
