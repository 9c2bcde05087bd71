import Mathlib.Data.List.Find
import Metaheuristic.Proofs.Number.Double
import Metaheuristic.Proofs.Quality.Penalty
import Metaheuristic.Proofs.Search.Repeats

/-! What a search with one objective reports: the first optimum of everything that
was evaluated in its successful repeats. Inside a repeat the record keeps the
first best agent, and merging the records of the repeats in order does the same
across them. Both rest on no fitness being undefined. -/
namespace Metaheuristic

variable {ρ α : Type} [Scalar α] [Scalar.LawfulOrder α]

/-- A single reward, which is a number. -/
def Agent.Single (a : Agent α) : Prop :=
  ∃ x, a.reward = [x] ∧ a.leading = x ∧ Scalar.isNaN x = false

theorem Problem.Assessed.single {problem : Problem α} {d : Direction} {a : Agent α}
    (assessed : problem.Assessed a) (objective : problem.directions = [d]) : a.Single := by
  obtain ⟨_, _, _, _, _, _, _, _, penalty, _, _, length, places⟩ := assessed
  have directions : problem.scoring.directions = [d] := objective
  rw [directions] at length places
  obtain ⟨x, only⟩ := List.length_eq_one_iff.mp length
  obtain ⟨_, value, _, _, first⟩ := places 0 d rfl
  rw [only] at first
  cases first
  exact ⟨_, only, by rw [Agent.leading, only]; rfl, problem.scoring.fitness_defined ..⟩

omit [Scalar.LawfulOrder α] in
theorem Record.defined_of_single {log : List (Agent α)} (single : ∀ b ∈ log, b.Single) :
    Defined log := by
  intro b member
  obtain ⟨x, _, leading, number⟩ := single b member
  rw [leading]
  exact number

/-- The record of a run with one objective tracks everything that was evaluated in it. -/
theorem Problem.Told.tracks {problem : Problem α} {config : Config α} {d : Direction}
    {log : List (Agent α)} {record : Record α} (told : problem.Told config log record)
    (objective : problem.directions = [d]) : Record.Tracks d log record := by
  have begun : Record.Tracks d []
      (.empty problem.directions config.archiveCapacity : Record α) := by
    rw [objective]
    exact .inl ⟨rfl, rfl⟩
  exact begun.observeAll
    (Record.defined_of_single fun a member => (told.assessed a member).single objective)
    told.recorded

namespace Search

omit [Scalar α] [Scalar.LawfulOrder α] in
theorem evaluated_append (s t : List (Except (Error α) (Outcome α))) :
    evaluated (s ++ t) = evaluated s ++ evaluated t := List.flatMap_append ..

/-- The record of a repeat, and after all merges that of the search, tracks the
agents that were evaluated. -/
theorem summary_tracks {problem : Problem α} {config : Config α} {d : Direction}
    {outcomes : List (Except (Error α) (Outcome α))} {summary : Summary α}
    (objective : problem.directions = [d])
    (told : ∀ o, .ok o ∈ outcomes → problem.Told config o.log o.record)
    (added : Summary.addAll config.recordHistory 0 outcomes
      (.empty problem.directions config.archiveCapacity) = .ok summary) :
    Record.Tracks d (evaluated outcomes) summary.record := by
  have fresh : Record.empty problem.directions config.archiveCapacity =
      (.single d none : Record α) := by rw [objective]; rfl
  have defined (o : Outcome α) (member : .ok o ∈ outcomes) : Record.Defined o.log :=
    Record.defined_of_single fun a inside => ((told o member).assessed a inside).single objective
  have tracks (o : Outcome α) (member : .ok o ∈ outcomes) : Record.Tracks d o.log o.record :=
    (told o member).tracks objective
  -- merging needs defined rewards on both sides, so the invariant carries that too
  refine (Summary.addAll_ok
    (I := fun done r => Record.Tracks d (evaluated done) r ∧ Record.Defined (evaluated done))
    ?_ ?_ ⟨.inl ⟨rfl, fresh⟩, nofun⟩ added).1
  · intro done cause r good
    rw [evaluated_append]
    have nothing : evaluated [(.error cause : Except (Error α) (Outcome α))] = [] := rfl
    rw [nothing, List.append_nil]
    exact good
  · intro done o r r' member good merged
    have own : evaluated [(.ok o : Except (Error α) (Outcome α))] = o.log := List.append_nil _
    rw [evaluated_append, own]
    refine ⟨good.1.merge (tracks o member) good.2 (defined o member) merged, fun a inside => ?_⟩
    rcases List.mem_append.mp inside with earlier | new
    · exact good.2 a earlier
    · exact defined o member a new

omit [Scalar.LawfulOrder α] in
/-- When repeats were tried and no error ends the search, something was evaluated. -/
theorem evaluated_ne_nil {config : Config α} {ds : List Direction}
    {outcomes : List (Except (Error α) (Outcome α))} {summary : Summary α}
    (logged : ∀ o, .ok o ∈ outcomes → o.log ≠ []) (tried : outcomes ≠ [])
    (added : Summary.addAll config.recordHistory 0 outcomes
      (.empty ds config.archiveCapacity) = .ok summary)
    (clean : summary.succeeded = 0 → summary.firstError = none) : evaluated outcomes ≠ [] := by
  obtain ⟨o, success⟩ := Summary.exists_success added tried rfl clean
  obtain ⟨b, inside⟩ := List.exists_mem_of_ne_nil _ (logged o success)
  exact List.ne_nil_of_mem (mem_evaluated.mpr ⟨o, success, inside⟩)

/-- Where every reward is a single number, the first best is found by its reward. -/
private theorem find_reward {d : Direction} {log : List (Agent α)} {a : Agent α}
    (single : ∀ b ∈ log, b.Single) (first : Record.FirstBest d log a) :
    log.find? (fun b => Scalar.sameList b.reward a.reward) = some a := by
  have found := first.find (Record.defined_of_single single)
  obtain ⟨best, one, leading, _⟩ := single a (List.mem_of_find?_eq_some found)
  rw [← found]
  refine List.find?_congr fun b member => ?_
  obtain ⟨x, oneB, leadingB, _⟩ := single b member
  rw [one, oneB, leadingB, leading, Scalar.sameList, Scalar.sameList, Bool.and_true]

variable [RandomSource ρ α] {config : Config α} {fallback : UInt64} {model : Model α}
  {result : Result α}

/-- A search with one objective reports exactly one candidate. No agent evaluated in
a successful repeat has a better reward, and among those with the same reward
the reported agent is the first that was evaluated. -/
theorem run_reports_first_best {schema : Schema α} {d : Direction}
    (discovered : (Schema.discover (model 0)).1 = .ok schema) (objective : schema.directions = [d])
    (ran : run ρ config fallback model = .ok result) :
    ∃ problem outcomes passes,
      Problem.make model config.penaltyCoefficient = .ok problem ∧
      attempts ρ problem config 0 0 (streamSeeds config.repeats
        (RandomSource.ofSeed (config.seed.getD fallback) : ρ)) = .ok (outcomes, passes) ∧
      ∃ a c best, result.candidates = [c] ∧ candidate problem passes a = .ok c ∧
        a.reward = [best] ∧ c.reward = [best] ∧
        (∀ b ∈ evaluated outcomes, ∃ x, b.reward = [x] ∧ Scalar.isNaN x = false ∧
          d.isBetter x best = false) ∧
        (evaluated outcomes).find? (fun b => Scalar.sameList b.reward c.reward) = some a := by
  obtain ⟨problem, outcomes, passes, summary, valid, made, fitting, attempted, added, concluded⟩ :=
    run_ok ran
  obtain ⟨known, _, scoring⟩ := Problem.make_ok made
  rw [discovered] at known
  cases known
  have direction : problem.directions = [d] := by
    rw [Problem.directions, scoring]
    exact objective
  have repeats := attempts_told (active_of_valid valid fitting) attempted
  have tracks := summary_tracks direction (fun o member => (repeats o member).1) added
  obtain ⟨reported, clean⟩ := conclude_ok concluded
  have single (b : Agent α) (member : b ∈ evaluated outcomes) : b.Single := by
    obtain ⟨o, inside, logged⟩ := mem_evaluated.mp member
    exact ((repeats o inside).1.assessed b logged).single direction
  have tried : outcomes ≠ [] := by
    intro none
    have length := length_attempts attempted
    rw [none, length_streamSeeds] at length
    exact Nat.ne_of_lt (Config.validate_ok valid).2.2 length
  rcases tracks with ⟨nothing, _⟩ | ⟨a, record, first⟩
  · exact absurd nothing (evaluated_ne_nil (fun o inside => (repeats o inside).2) tried added clean)
  · rw [record] at reported
    obtain ⟨count, items⟩ := mapM_ok reported
    obtain ⟨c, only⟩ := List.length_eq_one_iff.mp count
    obtain ⟨c', place, chosen⟩ := items 0 a rfl
    rw [only] at place
    cases place
    obtain ⟨_, _, _, reward, _⟩ := candidate_ok chosen
    have found := find_reward single first
    obtain ⟨best, one, leading, _⟩ := single a (List.mem_of_find?_eq_some found)
    refine ⟨problem, outcomes, passes, made, attempted, a, c, best, only, chosen, one,
      reward.trans one, fun b member => ?_, by rw [reward, found]⟩
    obtain ⟨x, oneB, leadingB, number⟩ := single b member
    refine ⟨x, oneB, number, ?_⟩
    rw [← leadingB, ← leading]
    exact first.unbeaten b member

theorem run_reports_first_best_budget :
    ∃ result problem outcomes passes,
      run (Generator Float) budgetSearch 0 Schema.budget.model = .ok result ∧
      Schema.budgetSchema.directions = [.maximize] ∧
      Problem.make Schema.budget.model budgetSearch.penaltyCoefficient = .ok problem ∧
      attempts (Generator Float) problem budgetSearch 0 0
        (streamSeeds 2 (RandomSource.ofSeed 7 : Generator Float)) = .ok (outcomes, passes) ∧
      ∃ a c best, result.candidates = [c] ∧ a.reward = [best] ∧ c.reward = [best] ∧
        (∀ b ∈ evaluated outcomes, ∃ x, b.reward = [x] ∧ Scalar.isNaN x = false ∧
          Direction.maximize.isBetter x best = false) ∧
        (evaluated outcomes).find? (fun b => Scalar.sameList b.reward c.reward) = some a := by
  obtain ⟨result, ran⟩ := budget_runs
  obtain ⟨problem, outcomes, passes, made, attempted, a, c, best, only, _, own, reported, unbeaten,
    found⟩ := run_reports_first_best Schema.budget_discovered rfl ran
  exact ⟨result, problem, outcomes, passes, ran, rfl, made, attempted, a, c, best, only, own,
    reported, unbeaten, found⟩

end Search
end Metaheuristic
