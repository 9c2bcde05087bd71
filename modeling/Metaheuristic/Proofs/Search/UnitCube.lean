import Metaheuristic.Proofs.Search.Duality
import Metaheuristic.Proofs.Search.Faithful
import Metaheuristic.Proofs.Search.Reached
import Metaheuristic.Proofs.Strategy.UnitCube

/-! Whole runs stay inside the unit cube. The first population lies in it, every step of a
repeat leads from runs inside the cube to runs inside the cube, and records and archives
only hold agents that were evaluated there. -/
namespace Metaheuristic

open Exact

variable {ρ K : Type} [Field K] [LinearOrder K] [FloorRing K] [Elementary K]

/-- A run whose agents, leaders and evaluated agents lie in the unit cube, and whose strategy
carries out the configured algorithm. -/
structure Run.Inside (problem : Problem (Exact K)) (config : Config (Exact K))
    (run : Run ρ (Exact K)) : Prop where
  algorithm : run.strategy.algorithm = config.algorithm
  genes : run.population.Genes InUnit InUnit
  leaders : ∀ leader ∈ run.strategy.leaders, InCube problem.schema.genes leader
  log : ∀ a ∈ run.ledger.log, ∀ g ∈ a.chromosome, InUnit g

namespace Run

variable {problem : Problem (Exact K)} {config : Config (Exact K)} {round passes : Nat}
  {progress : Progress} {random : ρ} {run run' : Run ρ (Exact K)}

/-- What a run keeps as a record lies in the cube, since all of it was evaluated. -/
theorem Inside.held (inside : run.Inside problem config) (sound : run.Sound problem config)
    {a : Agent (Exact K)} (member : a ∈ run.ledger.record.held) :
    InCube problem.schema.genes a.chromosome := by
  have logged := sound.told.mem_log member
  exact ⟨(sound.told.assessed a logged).genes, inside.log a logged⟩

/-- An evaluation writes no genes, and the agents that it enters are copies of rows. -/
theorem evaluate_inside (sound : run.Sound problem config) (inside : run.Inside problem config)
    (ran : (evaluate problem round progress).run.run run = (.ok (), run')) :
    run'.Inside problem config := by
  obtain ⟨view, e, population, latest, agents, ledger, _, _, assigned, _, copied, entered, rfl⟩ :=
    evaluate_ok ran
  have kept : population.Genes InUnit InUnit := inside.genes.assign assigned
  have sized := (Scoring.assign_written sound.sized rfl assigned).sized
  obtain ⟨length, places⟩ := Population.agents_ok sized copied
  obtain ⟨log, _⟩ := log_enter entered
  refine ⟨inside.algorithm, kept, inside.leaders, fun a member => ?_⟩
  rw [log] at member
  rcases List.mem_append.mp member with earlier | new
  · exact inside.log a earlier
  · obtain ⟨i, place⟩ := List.mem_iff_getElem?.mp new
    have below : i < config.agents := by
      rw [← length]
      exact (List.getElem?_eq_some_iff.mp place).1
    obtain ⟨r, held, same⟩ := places i below
    rw [place] at same
    cases same
    exact (kept i r held).block .trial (fun _ own => own) fun _ own => own

variable [RandomSource ρ (Exact K)]

theorem start_inside (within : RandomSource.WithinUnit ρ)
    (ran : start problem config passes random = .ok run) : run.Inside problem config := by
  obtain ⟨population, drawn, rfl⟩ := map_ok.mp ran
  have inside : Draw.Yields (Population.draw (problem.layout config.algorithm) problem.directions
      config.agents : Draw ρ _) _ := Population.draw_inUnit within problem.directions config.agents
  refine ⟨?_, inside random population _ trivial (Prod.ext drawn rfl), ?_, nofun⟩
  · cases config.algorithm <;> rfl
  · cases config.algorithm <;> exact nofun

variable {objectives : Nat}
  (fitting : config.algorithm.validateFor config.agents objectives = .ok ())

include fitting

theorem settle_inside (sound : run.Sound problem config) (inside : run.Inside problem config)
    (ran : (settle problem progress).run.run run = (.ok (), run')) :
    run'.Inside problem config := by
  obtain ⟨strategy, population, random, drawn, rfl⟩ := settle_ok ran
  have accepted : run.strategy.algorithm.validateFor config.agents objectives = .ok () := by
    rw [inside.algorithm]
    exact fitting
  have cube := Strategy.settle_inUnit (ρ := ρ) problem.directions progress accepted sound.sized
    inside.genes
  have same := Strategy.settle_algorithm (ρ := ρ) (p := run.population) problem.directions progress
    run.strategy
  obtain ⟨genes, leaders⟩ := cube run.random _ random trivial drawn
  exact ⟨(same run.random _ random trivial drawn).trans inside.algorithm, genes, leaders,
    inside.log⟩

theorem vary_inside [IsStrictOrderedRing K] (within : RandomSource.WithinUnit ρ)
    (sound : run.Sound problem config) (inside : run.Inside problem config)
    (ran : (vary progress).run.run run = (.ok (), run')) : run'.Inside problem config := by
  obtain ⟨strategy, population, random, drawn, rfl⟩ := vary_ok ran
  have accepted : run.strategy.algorithm.validateFor config.agents objectives = .ok () := by
    rw [inside.algorithm]
    exact fitting
  have cube := Strategy.vary_inUnit within progress accepted sound.sized inside.genes inside.leaders
  have same := Strategy.vary_algorithm (ρ := ρ) (p := run.population) progress run.strategy
  obtain ⟨genes, leaders⟩ := cube run.random _ random trivial drawn
  exact ⟨(same run.random _ random trivial drawn).trans inside.algorithm, genes, leaders,
    inside.log⟩

end Run

/-- Every state that a repeat comes to is inside the unit cube. -/
theorem Repeat.Reached.inside [IsStrictOrderedRing K] [RandomSource ρ (Exact K)]
    {r : Repeat ρ (Exact K)} {i k objectives : Nat} {phase : Phase} {run : Run ρ (Exact K)}
    (within : RandomSource.WithinUnit ρ)
    (fitting : r.config.algorithm.validateFor r.config.agents objectives = .ok ())
    (reached : r.Reached i k phase run) : run.Inside r.problem r.config := by
  induction reached with
  | start started => exact Run.start_inside within started
  | evaluate before ran inside => exact Run.evaluate_inside before.sound inside ran
  | settle before ran inside => exact Run.settle_inside fitting before.sound inside ran
  | within before more ran inside => exact Run.vary_inside fitting within before.sound inside ran
  | after before last more ran inside =>
    exact Run.vary_inside fitting within before.sound inside ran

namespace Search

/-- The genes of whole searches stay in the unit interval. Over exact numbers, for every
problem, every accepted configuration and every source whose real draws keep to their ranges:
in every state that a repeat comes to, all rows lie in the unit cube in both regions, and so
do the rows that an evaluation there looks at, the leaders, and the chromosomes of the record.
The records that repeats hand over lie in it, and what they are merged to. -/
theorem genes_in_unit_cube [IsStrictOrderedRing K] [RandomSource ρ (Exact K)]
    {problem : Problem (Exact K)} {config : Config (Exact K)}
    (within : RandomSource.WithinUnit ρ) (valid : config.validate = .ok ())
    (fitting : config.algorithm.validateFor config.agents problem.schema.objectives = .ok ()) :
    (∀ (round passes : Nat) (random : ρ) (i k : Nat) (phase : Phase) (run : Run ρ (Exact K)),
      (⟨problem, config, round, passes, random⟩ : Repeat ρ (Exact K)).Reached i k phase run →
      (∃ view, run.population.view .trial = .ok view ∧ view.rows.length = config.agents ∧
        ∀ row ∈ view.rows, InCube problem.schema.genes row) ∧
      (∀ row < config.agents, ∀ region, ∃ chromosome,
        run.population.chromosome row region = .ok chromosome ∧
        InCube problem.schema.genes chromosome) ∧
      (∀ leader ∈ run.strategy.leaders, InCube problem.schema.genes leader) ∧
      ∀ a ∈ run.ledger.record.held, InCube problem.schema.genes a.chromosome) ∧
    ∀ seeds outcomes passes, attempts ρ problem config 0 0 seeds = .ok (outcomes, passes) →
      (∀ o, .ok o ∈ outcomes → ∀ a ∈ o.record.held, InCube problem.schema.genes a.chromosome) ∧
      ∀ summary, Summary.addAll config.recordHistory 0 outcomes
          (.empty problem.directions config.archiveCapacity) = .ok summary →
        ∀ a ∈ summary.record.held, InCube problem.schema.genes a.chromosome := by
  have active := active_of_valid valid fitting
  constructor
  · intro round passes random i k phase run reached
    have sound := reached.sound
    have inside := reached.inside within fitting
    have read (row : Nat) (below : row < config.agents) (region : Region) : ∃ chromosome,
        run.population.chromosome row region = .ok chromosome ∧
        InCube problem.schema.genes chromosome := by
      obtain ⟨chromosome, held, length⟩ := sound.sized.exists_chromosome below region
      exact ⟨chromosome, held, length,
        inside.genes.chromosome held (fun _ own => own) fun _ own => own⟩
    obtain ⟨view, viewed⟩ := sound.sized.exists_view .trial
    obtain ⟨_, count, rows⟩ := Population.view_ok sound.sized viewed
    refine ⟨⟨view, viewed, count, fun row member => ?_⟩, read, inside.leaders, fun a member =>
      inside.held sound member⟩
    obtain ⟨j, place⟩ := List.mem_iff_getElem?.mp member
    have below : j < config.agents := by
      rw [← count]
      exact (List.getElem?_eq_some_iff.mp place).1
    obtain ⟨r, held, same⟩ := rows j below
    rw [place] at same
    cases same
    exact ⟨((sound.sized.rows j r held).block .trial).genes,
      (inside.genes j r held).block .trial (fun _ own => own) fun _ own => own⟩
  · intro seeds outcomes passes attempted
    have told := attempts_told active attempted
    have logged (o : Outcome (Exact K)) (member : .ok o ∈ outcomes) :
        ∀ a ∈ o.log, InCube problem.schema.genes a.chromosome := by
      intro a inLog
      obtain ⟨number, before, random, after, ran⟩ := mem_attempts attempted member
      obtain ⟨run, reached, _, same, _⟩ := attempt_reached active ran
      rw [same] at inLog
      exact ⟨(reached.sound.told.assessed a inLog).genes,
        (reached.inside within fitting).log a inLog⟩
    refine ⟨fun o member a held => logged o member a ((told o member).1.mem_log held), ?_⟩
    intro summary added a held
    obtain ⟨o, member, inLog⟩ :=
      mem_evaluated.mp (held_evaluated (fun o inside => (told o inside).1) added a held)
    exact logged o member a inLog

theorem genes_in_unit_cube_shares :
    RandomSource.WithinUnit (Generator (Exact ℚ)) ∧ sharesSearch.validate = .ok () ∧
    sharesSearch.algorithm.validateFor sharesSearch.agents sharesProblem.schema.objectives =
      .ok () ∧
    (∃ run, (⟨sharesProblem, sharesSearch, 0, 0, RandomSource.ofSeed 7⟩ :
        Repeat (Generator (Exact ℚ)) (Exact ℚ)).Reached 0 0 .ready run ∧
      ∃ view, run.population.view .trial = .ok view ∧ view.rows.length = 1 ∧
        ∀ row ∈ view.rows, InCube 2 row) ∧
    ∃ outcomes passes,
      attempts (Generator (Exact ℚ)) sharesProblem sharesSearch 0 0 [7] =
        .ok (outcomes, passes) ∧
      ∀ o, .ok o ∈ outcomes → ∀ a ∈ o.record.held, InCube 2 a.chromosome := by
  have within : RandomSource.WithinUnit (Generator (Exact ℚ)) := Generator.withinUnit
  have valid : sharesSearch.validate = .ok () := by rfl
  have fitting : sharesSearch.algorithm.validateFor sharesSearch.agents
      sharesProblem.schema.objectives = .ok () := by rfl
  obtain ⟨states, kept⟩ := genes_in_unit_cube within valid fitting
  have begins : ∃ run : Run (Generator (Exact ℚ)) (Exact ℚ),
      Run.start sharesProblem sharesSearch 0 (RandomSource.ofSeed 7) = .ok run :=
    (Run.exists_start _ _ 0 _).imp fun _ started => started.1
  obtain ⟨run, started⟩ := begins
  obtain ⟨⟨outcomes, passes⟩, attempted⟩ :=
    exists_ok (x := attempts (Generator (Exact ℚ)) sharesProblem sharesSearch 0 0 [7])
      (by decide +kernel)
  have reached := Repeat.Reached.start (r := ⟨sharesProblem, sharesSearch, 0, 0, _⟩) started
  exact ⟨within, valid, fitting, ⟨run, reached, (states 0 0 _ 0 0 .ready run reached).1⟩,
    outcomes, passes, attempted, (kept [7] outcomes passes attempted).1⟩

end Search
end Metaheuristic
