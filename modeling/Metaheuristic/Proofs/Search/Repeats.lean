import Metaheuristic.Proofs.Model.Batch
import Metaheuristic.Proofs.Search.Ledger
import Metaheuristic.Proofs.Strategy.Answers
import Metaheuristic.Random.Generator

/-! How a search puts its repeats together: what an accepted configuration
guarantees, what a result says about the repeats behind it, and where its
candidates come from. -/
namespace Metaheuristic

variable {ρ α : Type}

theorem length_streamSeeds [RandomSource ρ α] (count : Nat) (s : ρ) :
    (streamSeeds count s).length = count := by
  induction count generalizing s with
  | zero => rfl
  | succ count ih => exact congrArg Nat.succ (ih _)

namespace Algorithm

theorem agents_pos (a : Algorithm α) {requested : Nat} (positive : 0 < requested) :
    0 < a.agents requested := by
  cases a <;> first | exact positive | exact Nat.one_pos

variable [Scalar α]

theorem cycles_pos {a : Algorithm α} {agents objectives : Nat}
    (ran : a.validateFor agents objectives = .ok ()) : 0 < a.cycles := by
  obtain ⟨_, valid, _⟩ := bind_ok.mp ran
  cases a with
  | annealing s =>
    obtain ⟨_, _, rest⟩ := bind_ok.mp valid
    obtain ⟨_, cycles, _⟩ := bind_ok.mp rest
    exact requireCount_ok cycles
  | genetic => exact Nat.one_pos
  | differential => exact Nat.one_pos
  | tabu => exact Nat.one_pos
  | greyWolf => exact Nat.one_pos

end Algorithm

variable [Scalar α]

namespace Config

variable {c : Config α}

theorem validate_ok (ran : c.validate = .ok ()) :
    0 < c.populationSize ∧ 0 < c.iterations ∧ 0 < c.repeats := by
  obtain ⟨_, agents, rest⟩ := bind_ok.mp ran
  obtain ⟨_, iterations, rest⟩ := bind_ok.mp rest
  obtain ⟨_, repeats, _⟩ := bind_ok.mp rest
  exact ⟨requireCount_ok agents, requireCount_ok iterations, requireCount_ok repeats⟩

end Config

theorem Problem.make_ok {model : Model α} {coefficient : α} {problem : Problem α}
    (ran : Problem.make model coefficient = .ok problem) :
    (Schema.discover (model 0)).1 = .ok problem.schema ∧ problem.model = model ∧
      problem.scoring = ⟨coefficient, problem.schema.directions,
        problem.schema.constraints.length⟩ := by
  obtain ⟨schema, discovered, ran⟩ := bind_ok.mp ran
  obtain ⟨scoring, made, built⟩ := bind_ok.mp ran
  cases built
  refine ⟨discovered, rfl, ?_⟩
  obtain ⟨_, _, chosen⟩ := bind_ok.mp (mapError_ok.mp made)
  split at chosen
  · cases chosen
  · cases chosen
    rfl

namespace Search

variable [RandomSource ρ α] {config : Config α} {fallback : UInt64} {model : Model α}
  {result : Result α} {problem : Problem α}

/-- The stages of a search that succeeds. -/
theorem run_ok (ran : run ρ config fallback model = .ok result) :
    ∃ problem outcomes passes summary,
      config.validate = .ok () ∧
      Problem.make model config.penaltyCoefficient = .ok problem ∧
      config.algorithm.validateFor config.agents problem.schema.objectives = .ok () ∧
      attempts ρ problem config 0 0 (streamSeeds config.repeats
        (RandomSource.ofSeed (config.seed.getD fallback) : ρ)) = .ok (outcomes, passes) ∧
      Summary.addAll config.recordHistory 0 outcomes
        (.empty problem.directions config.archiveCapacity) = .ok summary ∧
      conclude problem config passes summary = .ok result := by
  obtain ⟨_, valid, ran⟩ := bind_ok.mp ran
  obtain ⟨problem, made, ran⟩ := bind_ok.mp ran
  obtain ⟨_, fitting, ran⟩ := bind_ok.mp ran
  obtain ⟨⟨outcomes, passes⟩, attempted, ran⟩ := bind_ok.mp ran
  obtain ⟨summary, added, concluded⟩ := bind_ok.mp ran
  exact ⟨problem, outcomes, passes, summary, mapError_ok.mp valid, made, mapError_ok.mp fitting,
    mapError_ok.mp attempted, mapError_ok.mp added, concluded⟩

theorem active_of_valid (valid : config.validate = .ok ())
    (fitting : config.algorithm.validateFor config.agents problem.schema.objectives = .ok ()) :
    Active config := by
  obtain ⟨size, iterations, _⟩ := Config.validate_ok valid
  exact ⟨config.algorithm.agents_pos size, config.algorithm.cycles_pos fitting, iterations⟩

/-- A search that concludes reports the record of its repeats. None of them may have
failed unless one succeeded. -/
theorem conclude_ok {passes : Nat} {s : Summary α}
    (ran : conclude problem config passes s = .ok result) :
    s.record.reported.mapM (candidate problem passes) = .ok result.candidates ∧
      (s.succeeded = 0 → s.firstError = none) := by
  unfold conclude at ran
  split at ran
  · cases ran
  · rename_i other
    obtain ⟨candidates, reported, built⟩ := bind_ok.mp ran
    cases built
    refine ⟨reported, fun zero => ?_⟩
    cases first : s.firstError with
    | none => rfl
    | some cause => exact (other cause zero first).elim

theorem candidate_ok {passes : Nat} {a : Agent α} {c : Candidate α}
    (ran : candidate problem passes a = .ok c) :
    ∃ statuses, (problem.schema.classify (problem.model passes) (View.single a.chromosome)).1 =
        .ok statuses ∧
      problem.schema.decode a.chromosome = .ok c.solution ∧ c.reward = a.reward ∧
      c.status = statuses.headD a.status := by
  obtain ⟨statuses, classified, ran⟩ := bind_ok.mp ran
  obtain ⟨solution, decoded, built⟩ := bind_ok.mp ran
  cases built
  exact ⟨statuses, classified, mapError_ok.mp decoded, rfl, rfl⟩

theorem length_attempts {round passes passes' : Nat} {seeds : List UInt64}
    {outcomes : List (Except (Error α) (Outcome α))}
    (ran : attempts ρ problem config round passes seeds = .ok (outcomes, passes')) :
    outcomes.length = seeds.length := by
  induction seeds generalizing round passes outcomes with
  | nil =>
    cases ran
    rfl
  | cons seed seeds ih =>
    obtain ⟨⟨outcome, middle⟩, _, ran⟩ := bind_ok.mp ran
    obtain ⟨⟨rest, final⟩, later, built⟩ := bind_ok.mp ran
    cases built
    exact congrArg Nat.succ (ih later)

/-- The repeats of a search, each with its number and its seed. -/
theorem attempts_at {round passes passes' : Nat}
    {seeds : List UInt64} {outcomes : List (Except (Error α) (Outcome α))}
    (ran : attempts ρ problem config round passes seeds = .ok (outcomes, passes')) (j : Nat)
    (seed : UInt64) (place : seeds[j]? = some seed) :
    ∃ outcome before after, outcomes[j]? = some outcome ∧
      attempt problem config (round + j) before (RandomSource.ofSeed seed : ρ) =
        .ok (outcome, after) := by
  induction seeds generalizing round passes outcomes j with
  | nil => cases place
  | cons first seeds ih =>
    obtain ⟨⟨outcome, middle⟩, begun, rest⟩ := bind_ok.mp ran
    obtain ⟨⟨later, last⟩, ended, built⟩ := bind_ok.mp rest
    cases built
    cases j with
    | zero =>
      cases place
      exact ⟨outcome, passes, middle, rfl, begun⟩
    | succ j =>
      have shifted : round + (j + 1) = round + 1 + j := by omega
      rw [shifted]
      exact ih ended j place

/-- Each outcome of a search comes from an attempt of its repeat. -/
theorem mem_attempts {round passes passes' : Nat} {seeds : List UInt64}
    {outcomes : List (Except (Error α) (Outcome α))} {outcome : Except (Error α) (Outcome α)}
    (ran : attempts ρ problem config round passes seeds = .ok (outcomes, passes'))
    (member : outcome ∈ outcomes) :
    ∃ (number before : Nat) (random : ρ) (after : Nat),
      attempt problem config number before random = .ok (outcome, after) := by
  obtain ⟨j, place⟩ := List.mem_iff_getElem?.mp member
  have below : j < seeds.length := by
    rw [← length_attempts ran]
    exact (List.getElem?_eq_some_iff.mp place).1
  obtain ⟨outcome', before, after, same, attempted⟩ :=
    attempts_at ran j _ (List.getElem?_eq_getElem below)
  rw [place] at same
  cases same
  exact ⟨_, before, _, after, attempted⟩

/-- The agents evaluated in the successful repeats, in order. -/
def evaluated (outcomes : List (Except (Error α) (Outcome α))) : List (Agent α) :=
  outcomes.flatMap fun
    | .ok o => o.log
    | .error _ => []

omit [Scalar α] in
theorem mem_evaluated {outcomes : List (Except (Error α) (Outcome α))} {a : Agent α} :
    a ∈ evaluated outcomes ↔ ∃ o, .ok o ∈ outcomes ∧ a ∈ o.log := by
  unfold evaluated
  rw [List.mem_flatMap]
  constructor
  · rintro ⟨outcome, member, inside⟩
    cases outcome with
    | error cause => cases inside
    | ok o => exact ⟨o, member, inside⟩
  · rintro ⟨o, member, inside⟩
    exact ⟨.ok o, member, inside⟩

end Search

theorem Record.mem_reported {r : Record α} {a : Agent α} : a ∈ r.reported ↔ a ∈ r.held := by
  cases r with
  | single d best => exact Iff.rfl
  | archive s =>
    unfold reported
    dsimp only
    split
    · exact Iff.rfl
    · exact List.mem_mergeSort

namespace Summary

variable {recordHistory : Bool} {round : Nat} {s s' : Summary α}
  {outcomes : List (Except (Error α) (Outcome α))}

private theorem addAll_after {I : List (Except (Error α) (Outcome α)) → Record α → Prop}
    {earlier : List (Except (Error α) (Outcome α))}
    (failed : ∀ done cause r, I done r → I (done ++ [.error cause]) r)
    (succeeded : ∀ done o r r', .ok o ∈ outcomes → I done r → r.merge o.record = .ok r' →
      I (done ++ [.ok o]) r')
    (initial : I earlier s.record)
    (ran : addAll recordHistory round outcomes s = .ok s') : I (earlier ++ outcomes) s'.record := by
  induction outcomes generalizing earlier round s with
  | nil =>
    cases ran
    rw [List.append_nil]
    exact initial
  | cons outcome outcomes ih =>
    obtain ⟨next, added, ran⟩ := bind_ok.mp ran
    have longer : earlier ++ outcome :: outcomes = earlier ++ [outcome] ++ outcomes := by simp
    rw [longer]
    refine ih (fun done o r r' member => succeeded done o r r' (List.mem_cons_of_mem _ member))
      ?_ ran
    cases outcome with
    | error cause =>
      cases added
      exact failed earlier cause s.record initial
    | ok o =>
      obtain ⟨record, merged, built⟩ := bind_ok.mp added
      cases built
      exact succeeded earlier o s.record record List.mem_cons_self initial merged

/-- What merging the record of each successful repeat preserves. The list tells the
repeats that have been folded so far. -/
theorem addAll_ok {I : List (Except (Error α) (Outcome α)) → Record α → Prop}
    (failed : ∀ done cause r, I done r → I (done ++ [.error cause]) r)
    (succeeded : ∀ done o r r', .ok o ∈ outcomes → I done r → r.merge o.record = .ok r' →
      I (done ++ [.ok o]) r')
    (initial : I [] s.record)
    (ran : addAll recordHistory round outcomes s = .ok s') : I outcomes s'.record :=
  addAll_after failed succeeded initial ran

/-- Failures are not counted as successes, and the first one is kept. -/
private theorem addAll_failed (failed : ∀ outcome ∈ outcomes, ∃ cause, outcome = .error cause)
    (ran : addAll recordHistory round outcomes s = .ok s') :
    s'.succeeded = s.succeeded ∧
      (s'.firstError = none → s.firstError = none ∧ outcomes = []) := by
  induction outcomes generalizing round s with
  | nil =>
    cases ran
    exact ⟨rfl, fun none => ⟨none, rfl⟩⟩
  | cons outcome outcomes ih =>
    obtain ⟨next, added, ran⟩ := bind_ok.mp ran
    obtain ⟨cause, rfl⟩ := failed outcome List.mem_cons_self
    cases added
    obtain ⟨same, first⟩ :=
      ih (fun o member => failed o (List.mem_cons_of_mem _ member)) ran
    exact ⟨same, fun none => absurd (first none).1 nofun⟩

/-- When repeats were tried and no error ends the search, one of them succeeded. -/
theorem exists_success (ran : addAll recordHistory round outcomes s = .ok s')
    (tried : outcomes ≠ []) (fresh : s.succeeded = 0)
    (clean : s'.succeeded = 0 → s'.firstError = none) : ∃ o, .ok o ∈ outcomes := by
  by_cases found : ∃ o, .ok o ∈ outcomes
  · exact found
  · have failed : ∀ outcome ∈ outcomes, ∃ cause, outcome = .error cause := by
      intro outcome member
      cases outcome with
      | error cause => exact ⟨cause, rfl⟩
      | ok o => exact absurd ⟨o, member⟩ found
    obtain ⟨same, first⟩ := addAll_failed failed ran
    exact absurd (first (clean (same.trans fresh))).2 tried

end Summary

namespace Search

/-- Two repeats of a short tabu search. -/
def budgetSearch : Config Float :=
  { Config.ofAlgorithm (.tabu .default) with
    iterations := 2, penaltyCoefficient := 1.0, repeats := 2, seed := some 7 }

/-- The budget with what discovery finds. -/
def budgetProblem : Problem Float :=
  ⟨Schema.budget.model, Schema.budgetSchema, ⟨1.0, [.maximize], 1⟩⟩

theorem budget_made :
    Problem.make Schema.budget.model budgetSearch.penaltyCoefficient = .ok budgetProblem := by
  rw [Problem.make, Schema.budget_discovered]
  rfl

theorem budget_runs :
    ∃ result, run (Generator Float) budgetSearch 0 Schema.budget.model = .ok result := by
  refine exists_ok ?_
  rw [run, budget_made]
  decide +kernel

end Search
end Metaheuristic
