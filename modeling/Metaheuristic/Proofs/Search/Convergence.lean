import Metaheuristic.Proofs.Search.Best
import Metaheuristic.Proofs.Search.Trials
import Metaheuristic.Proofs.Strategy.Climbing

/-! Convergence of greedy searches. What the rows of a run have settled on is the worst value or
comes from the ledger, so it is a number. From the end of an iteration on no row settles on
anything worse, and the statistics of the iterations show it. -/
namespace Metaheuristic

variable {ρ α : Type} [Scalar α] {d : Direction}

theorem Problem.Assessed.leading_defined [Scalar.LawfulOrder α] {problem : Problem α} {a : Agent α}
    (assessed : problem.Assessed a) (first : problem.directions.head? = some d) :
    Scalar.isNaN a.leading = false := by
  obtain ⟨_, _, _, _, _, _, _, _, penalty, _, _, length, places⟩ := assessed
  obtain ⟨_, value, _, _, place⟩ := places 0 d (List.head?_eq_getElem?.symm.trans first)
  have leading : a.leading = problem.scoring.fitness value penalty d := by
    rw [Agent.leading, List.headD_eq_head?_getD, List.head?_eq_getElem?, place]
    rfl
  rw [leading]
  exact problem.scoring.fitness_defined ..

namespace Run

/-- What the rows have settled on comes from the ledger, and so do their trials once these are
evaluated. -/
structure Grounded (d : Direction) (phase : Phase) (run : Run ρ α) : Prop where
  standings : ∀ x ∈ run.population.standings, x = d.worst ∨ ∃ a ∈ run.ledger.log, a.leading = x
  trials : phase = .evaluated → ∀ r ∈ run.population.rows,
    ∃ a ∈ run.ledger.log, a.leading = r.trial.leading

/-- A run after another: no row has settled on anything worse, and the ledger has only grown. -/
structure Follows (d : Direction) (run run' : Run ρ α) : Prop where
  standings : List.Forall₂ (fun x y => d.isBetter x y = false)
    run.population.standings run'.population.standings
  log : ∀ a ∈ run.ledger.log, a ∈ run'.ledger.log

namespace Follows

variable [Scalar.LawfulOrder α] {run run' run'' : Run ρ α}

theorem refl (d : Direction) (run : Run ρ α) : Follows d run run :=
  ⟨List.forall₂_same.mpr fun _ _ => Direction.isBetter_irrefl, fun _ member => member⟩

theorem trans (defined : ∀ x ∈ run'.population.standings, Scalar.isNaN x = false)
    (first : Follows d run run') (second : Follows d run' run'') : Follows d run run'' := by
  refine ⟨?_, fun a member => second.log a (first.log a member)⟩
  refine List.forall₂_iff_get.mpr
    ⟨first.standings.length_eq.trans second.standings.length_eq, fun i below below'' => ?_⟩
  have below' := Nat.lt_of_lt_of_eq below first.standings.length_eq
  exact Direction.not_isBetter_trans (defined _ (List.getElem_mem below'))
    (second.standings.get below' below'') (first.standings.get below below')

end Follows

variable [RandomSource ρ α] {problem : Problem α} {config : Config α} {round : Nat}
  {progress : Progress} {run run' : Run ρ α}

omit [RandomSource ρ α] in
/-- An evaluation leaves alone what the rows have settled on, and enters every trial. -/
theorem evaluate_standings
    (sized : run.population.Sized (problem.layout config.algorithm) config.agents)
    (ran : (evaluate problem round progress).run.run run = (.ok (), run')) :
    run'.population.standings = run.population.standings ∧
      ∃ agents, run'.ledger.log = run.ledger.log ++ agents ∧
        ∀ r ∈ run'.population.rows, ∃ a ∈ agents, a.leading = r.trial.leading := by
  obtain ⟨_, same, log, _⟩ := evaluate_trials sized ran
  exact ⟨Population.standings_congr same, _, log, fun r member =>
    ⟨_, List.mem_map_of_mem member, rfl⟩⟩

theorem settle_moves [Scalar.LawfulOrder α] [Scalar.LawfulEnds α]
    (draws : RandomSource.NonNegative ρ) (first : problem.directions.head? = some d)
    (algorithm : run.strategy.algorithm = config.algorithm) (greedy : config.algorithm.Greedy)
    (sized : run.population.Sized (problem.layout config.algorithm) config.agents)
    (ran : (settle problem progress).run.run run = (.ok (), run')) :
    run.population.Moves (fun r => 0 < progress.iteration → r.NotWorse d) run'.population ∧
      run'.ledger = run.ledger := by
  obtain ⟨strategy, population, random, drawn, rfl⟩ := settle_ok ran
  have moves : Draw.Yields
      (run.strategy.settle problem.directions progress run.population : Draw ρ _) _ :=
    Strategy.settle_climbs draws first rfl greedy.twoPhase progress (algorithm ▸ greedy) sized
  exact ⟨moves _ _ random trivial drawn, rfl⟩

omit [RandomSource ρ α] in
/-- The statistics of a two-phase run are those of what its rows have settled on. -/
theorem statistics_standings {iteration : Nat} {s : Statistics α}
    (phases : config.algorithm.twoPhase = true)
    (sized : run.population.Sized (problem.layout config.algorithm) config.agents)
    (ran : (statistics config iteration).run.run run = (.ok s, run')) :
    s = .ofColumn iteration run.population.standings := by
  obtain ⟨column, same, read⟩ := statistics_column ran
  have incumbents : config.algorithm.incumbent = .incumbent := if_pos phases
  rw [if_pos phases, incumbents] at read
  rw [same, sized.rewardColumn_standings phases read]

theorem vary_incumbents (algorithm : run.strategy.algorithm = config.algorithm)
    (phases : config.algorithm.twoPhase = true)
    (ran : (vary progress).run.run run = (.ok (), run')) :
    run'.population.incumbents = run.population.incumbents ∧ run'.ledger = run.ledger := by
  obtain ⟨strategy, population, random, drawn, rfl⟩ := vary_ok ran
  have same : Draw.Yields (run.strategy.vary progress run.population : Draw ρ _) _ :=
    Strategy.vary_incumbents progress (algorithm ▸ phases) run.population
  exact ⟨same _ _ random trivial drawn, rfl⟩

theorem vary_standings (algorithm : run.strategy.algorithm = config.algorithm)
    (phases : config.algorithm.twoPhase = true)
    (ran : (vary progress).run.run run = (.ok (), run')) :
    run'.population.standings = run.population.standings ∧ run'.ledger = run.ledger := by
  obtain ⟨same, ledger⟩ := vary_incumbents algorithm phases ran
  exact ⟨Population.standings_congr same, ledger⟩

namespace Grounded

omit [RandomSource ρ α] in
theorem evaluate (grounded : Grounded d .ready run)
    (sized : run.population.Sized (problem.layout config.algorithm) config.agents)
    (ran : (evaluate problem round progress).run.run run = (.ok (), run')) :
    Grounded d .evaluated run' := by
  obtain ⟨same, agents, log, entered⟩ := evaluate_standings sized ran
  refine ⟨fun x member => ?_, fun _ r inside => ?_⟩
  · rw [same] at member
    rcases grounded.standings x member with worst | ⟨a, known, leading⟩
    · exact .inl worst
    · exact .inr ⟨a, log ▸ List.mem_append_left _ known, leading⟩
  · obtain ⟨a, new, leading⟩ := entered r inside
    exact ⟨a, log ▸ List.mem_append_right _ new, leading⟩

omit [RandomSource ρ α] in
/-- What a row newly settles on was its trial, which the ledger knows. -/
theorem settle {P : Row α → Prop} (grounded : Grounded d .evaluated run)
    (moves : run.population.Moves P run'.population) (ledger : run'.ledger = run.ledger) :
    Grounded d .settled run' := by
  refine ⟨fun x member => ?_, nofun⟩
  rw [ledger]
  rcases moves.mem_standings member with before | ⟨r, inside, leading⟩
  · exact grounded.standings x before
  · rw [← leading]
    exact .inr (grounded.trials rfl r inside)

omit [RandomSource ρ α] in
theorem vary (grounded : Grounded d .settled run)
    (same : run'.population.standings = run.population.standings)
    (ledger : run'.ledger = run.ledger) : Grounded d .ready run' := by
  refine ⟨?_, nofun⟩
  rw [same, ledger]
  exact grounded.standings

end Grounded

end Run

namespace Repeat

variable [RandomSource ρ α] [Scalar.LawfulOrder α] [Scalar.LawfulEnds α] {r : Repeat ρ α}
  {i j k : Nat} {phase : Phase} {run : Run ρ α}

/-- A repeat of a greedy search. -/
structure Climbs (r : Repeat ρ α) (d : Direction) : Prop where
  accepted : r.problem.Accepted r.config
  greedy : r.config.algorithm.Greedy
  first : r.problem.directions.head? = some d
  draws : RandomSource.NonNegative ρ

section Steps

variable (climbs : r.Climbs d)

include climbs

theorem Climbs.keeps_grounded : r.Keeps (Run.Grounded d) where
  evaluate before grounded ran := grounded.evaluate before.sound.sized ran
  settle before grounded ran := by
    obtain ⟨moves, ledger⟩ := Run.settle_moves climbs.draws climbs.first
      (before.algorithm climbs.accepted) climbs.greedy before.sound.sized ran
    exact grounded.settle moves ledger
  vary before grounded ran := by
    obtain ⟨same, ledger⟩ :=
      Run.vary_standings (before.algorithm climbs.accepted) climbs.greedy.twoPhase ran
    exact grounded.vary same ledger

theorem Reached.grounded (reached : r.Reached i k phase run) : run.Grounded d phase := by
  refine climbs.keeps_grounded.reached (fun run started => ?_) reached
  obtain ⟨population, drawn, rfl⟩ := map_ok.mp started
  have fresh : Draw.Yields (Population.draw (r.problem.layout r.config.algorithm)
      r.problem.directions r.config.agents : Draw ρ _) _ :=
    Population.standings_draw climbs.first _ climbs.greedy.twoPhase _
  exact ⟨fun x member => .inl (fresh _ _ _ trivial (Prod.ext drawn rfl) x member), nofun⟩

theorem Reached.standings_defined (reached : r.Reached i k phase run) :
    ∀ x ∈ run.population.standings, Scalar.isNaN x = false := by
  intro x member
  rcases (reached.grounded climbs).standings x member with worst | ⟨a, known, leading⟩
  · rw [worst]
    exact Direction.worst_defined
  · rw [← leading]
    exact (reached.sound.told.assessed a known).leading_defined climbs.first

/-- After the end of an iteration nothing settled gets worse. By induction on the steps since
then: the first of them makes new trials, and every later decision is that of a later
iteration. -/
theorem Reached.follows {base : Run ρ α}
    (settled : r.Reached i (r.config.algorithm.cycles - 1) .settled base)
    (reached : r.Reached j k phase run) (later : i < j) : base.Follows d run := by
  induction reached with
  | start started => exact absurd later (Nat.not_lt_zero i)
  | evaluate before ran follows =>
    obtain ⟨same, agents, log, _⟩ := Run.evaluate_standings before.sound.sized ran
    have before' := follows later
    exact ⟨same ▸ before'.standings, fun a member =>
      log ▸ List.mem_append_left _ (before'.log a member)⟩
  | settle before ran follows =>
    obtain ⟨moves, ledger⟩ := Run.settle_moves climbs.draws climbs.first
      (before.algorithm climbs.accepted) climbs.greedy before.sound.sized ran
    refine (follows later).trans (before.standings_defined climbs)
      ⟨(moves.weaken fun r climbing => climbing (Nat.zero_lt_of_lt later)).standings, ?_⟩
    rw [ledger]
    exact fun a member => member
  | within before more ran follows =>
    obtain ⟨same, ledger⟩ :=
      Run.vary_standings (before.algorithm climbs.accepted) climbs.greedy.twoPhase ran
    have before' := follows later
    exact ⟨same ▸ before'.standings, ledger ▸ before'.log⟩
  | @after j k run run' before last more ran follows =>
    obtain ⟨same, ledger⟩ :=
      Run.vary_standings (before.algorithm climbs.accepted) climbs.greedy.twoPhase ran
    have before' : base.Follows d run := by
      rcases Nat.lt_or_ge i j with earlier | first
      · exact follows earlier
      · have i_eq : i = j := by omega
        have k_eq : k = r.config.algorithm.cycles - 1 := by omega
        subst i_eq k_eq
        rw [settled.unique before]
        exact .refl d run
    exact ⟨same ▸ before'.standings, ledger ▸ before'.log⟩

end Steps
end Repeat

namespace Outcome

/-- The history of a repeat in which nothing unbeatable was found loses nothing: once an
iteration has a finite statistic all later ones have, and the best value never gets worse. -/
def Converges (d : Direction) (o : Outcome α) : Prop :=
  (∀ a ∈ o.log, (a.leading == d.unbeatable) = false) → o.history.Pairwise (Statistics.Keeps d)

end Outcome

namespace Search

variable [RandomSource ρ α] [Scalar.LawfulOrder α] [Scalar.LawfulEnds α] {problem : Problem α}
  {config : Config α} {model : Model α}

theorem attempt_converges {round passes passes' : Nat} {random : ρ} {o : Outcome α}
    (accepted : problem.Accepted config) (active : Active config)
    (recorded : config.recordHistory = true) (greedy : config.algorithm.Greedy)
    (first : problem.directions.head? = some d) (draws : RandomSource.NonNegative ρ)
    (ran : attempt problem config round passes random = .ok (.ok o, passes')) :
    o.Converges d := by
  intro beatable
  let r : Repeat ρ α := ⟨problem, config, round, passes, random⟩
  have climbs : r.Climbs d := ⟨accepted, greedy, first, draws⟩
  obtain ⟨_, records⟩ := attempt_records active recorded ran
  obtain ⟨last, ended, _, log, _⟩ := attempt_reached active ran
  refine List.pairwise_iff_getElem.mpr fun i j insideI insideJ earlier => ?_
  obtain ⟨runI, reachedI, seenI⟩ := records i _ (List.getElem?_eq_getElem insideI)
  obtain ⟨runJ, reachedJ, seenJ⟩ := records j _ (List.getElem?_eq_getElem insideJ)
  rw [Nat.zero_add] at reachedI reachedJ
  rw [Run.statistics_standings greedy.twoPhase reachedI.sound.sized seenI,
    Run.statistics_standings greedy.twoPhase reachedJ.sound.sized seenJ]
  have follows := reachedI.follows climbs reachedJ earlier
  -- whatever the ledger knows by then, it knows in the end
  have known : ∀ a ∈ runJ.ledger.log, a ∈ o.log := by
    rw [log]
    rcases Nat.lt_or_ge j (config.iterations - 1) with before | after
    · exact (reachedJ.follows climbs ended before).log
    · have last_j : config.iterations - 1 = j := by omega
      rw [last_j] at ended
      rw [reachedJ.unique ended]
      exact fun a member => member
  refine Statistics.keeps_ofColumn follows.standings (reachedJ.standings_defined climbs)
    fun y member => ?_
  rcases (reachedJ.grounded climbs).standings y member with worst | ⟨a, logged, leading⟩
  · exact .inl worst
  · rw [← leading]
    exact .inr (beatable a (known a logged))

/-- The histories of a greedy search are monotone. This holds for differential evolution with
any number of objectives, for tabu search that does not consult its memory, and for annealing
without a temperature, over every source that draws no negative number from the unit interval.

If in a successful repeat no agent has the unbeatable fitness in the first objective, an
iteration with a finite statistic is only followed by iterations whose extreme values are
finite. The least value never increases if this objective is minimized, and the greatest never
decreases if it is maximized. -/
theorem greedy_histories_monotone
    (made : Problem.make model config.penaltyCoefficient = .ok problem)
    (valid : config.validate = .ok ())
    (fitting : config.algorithm.validateFor config.agents problem.schema.objectives = .ok ())
    (recorded : config.recordHistory = true) (greedy : config.algorithm.Greedy)
    (draws : RandomSource.NonNegative ρ) :
    ∃ d, problem.directions.head? = some d ∧
      (∀ (round passes : Nat) (random : ρ) (o : Outcome α) (passes' : Nat),
        attempt problem config round passes random = .ok (.ok o, passes') → o.Converges d) ∧
      ∀ fallback result, run ρ config fallback model = .ok result →
        ∃ outcomes passes, attempts ρ problem config 0 0 (streamSeeds config.repeats
            (RandomSource.ofSeed (config.seed.getD fallback) : ρ)) = .ok (outcomes, passes) ∧
          result.history = (finished outcomes).map (·.history) ∧
          ∀ o ∈ finished outcomes, o.Converges d := by
  have accepted := Problem.accepted made valid fitting
  have active := active_of_valid valid fitting
  obtain ⟨d, ds, directions⟩ := List.exists_cons_of_ne_nil accepted.directed
  have first : problem.directions.head? = some d := by rw [directions]; rfl
  have each (round passes : Nat) (random : ρ) (o : Outcome α) (passes' : Nat)
      (ran : attempt problem config round passes random = .ok (.ok o, passes')) : o.Converges d :=
    attempt_converges accepted active recorded greedy first draws ran
  refine ⟨d, first, each, fun fallback result ran => ?_⟩
  obtain ⟨outcomes, summary, concluded⟩ := concluded_of_run made ran
  obtain ⟨passes, attempted, _⟩ := concluded.attempted
  refine ⟨outcomes, passes, attempted, ?_, forall_finished each attempted⟩
  rw [concluded.totals.2.2, if_pos recorded]

/-- A repeat of an annealing without a temperature, with its statistics. -/
def budgetCooling : Config Float :=
  { budgetSearch with
    algorithm := .annealing ⟨0.0, 1, .linear⟩
    iterations := 4
    repeats := 1
    recordHistory := true }

/-- Every agent is finite, and the greatest value only grows. -/
theorem greedy_histories_monotone_budget :
    Problem.make Schema.budget.model budgetCooling.penaltyCoefficient = .ok budgetProblem ∧
    budgetCooling.validate = .ok () ∧
    budgetCooling.algorithm.validateFor budgetCooling.agents
      budgetProblem.schema.objectives = .ok () ∧
    budgetCooling.algorithm.Greedy ∧ RandomSource.NonNegative (Generator Float) ∧
    ∃ o passes, attempt budgetProblem budgetCooling 0 0 (RandomSource.ofSeed 7 : Generator Float) =
        .ok (.ok o, passes) ∧ o.history.length = 4 ∧
      o.history.Pairwise fun s t => Scalar.le s.max t.max = true := by
  have valid : budgetCooling.validate = .ok () := by rfl
  have fitting : budgetCooling.algorithm.validateFor budgetCooling.agents
      budgetProblem.schema.objectives = .ok () := by rfl
  have made : Problem.make Schema.budget.model budgetCooling.penaltyCoefficient =
      .ok budgetProblem := budget_made
  have greedy : budgetCooling.algorithm.Greedy := by decide +kernel
  have draws : RandomSource.NonNegative (Generator Float) := Generator.nonNegative
  refine ⟨made, valid, fitting, greedy, draws, ?_⟩
  obtain ⟨⟨outcome, passes⟩, attempted, seen⟩ := exists_ok_of_any
    (x := attempt budgetProblem budgetCooling 0 0 (RandomSource.ofSeed 7 : Generator Float))
    (P := fun r => r.1.toOption.any fun o => o.history.length == 4 &&
      o.history.all (fun s => Scalar.isFinite s.max) &&
        o.log.all fun a => !(a.leading == Scalar.infinity)) (by decide +kernel)
  cases outcome with
  | error cause => cases seen
  | ok o =>
    simp only [Except.toOption, Option.any_some, Bool.and_eq_true, beq_iff_eq, List.all_eq_true,
      Bool.not_eq_true'] at seen
    obtain ⟨⟨length, finite⟩, beatable⟩ := seen
    obtain ⟨d, first, converges, _⟩ := greedy_histories_monotone made valid fitting rfl greedy draws
    cases first
    refine ⟨o, passes, attempted, length, ?_⟩
    refine (List.Pairwise.imp_of_mem ?_ (converges 0 0 _ o passes attempted beatable))
    exact fun member _ keeps => (keeps (.inr (.inl (finite _ member)))).2.2

end Search
end Metaheuristic
