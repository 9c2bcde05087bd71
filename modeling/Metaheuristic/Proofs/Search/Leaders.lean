import Metaheuristic.Proofs.Search.Incumbents
import Metaheuristic.Proofs.Strategy.Crossover
import Metaheuristic.Proofs.Strategy.Pack

/-! Leaders in a run. An update evaluates the agents and lets the three that rank best lead.
Until the next update all agents move towards the mean of the leaders, the closer to it the more of
the budget is behind. -/
namespace Metaheuristic

variable {ρ α : Type} [Scalar α] [RandomSource ρ α]

/-- The leaders are the agents that have just been evaluated in the three rows that rank best. -/
structure Run.Leads (ranked : List Nat) (before evaluated : Run ρ α) (leaders : List (List α)) :
    Prop where
  three : leaders.length = 3
  best : ∀ place < 3, ∃ row a, ranked[place]? = some row ∧
    evaluated.population.agent row .trial = .ok a ∧
    evaluated.ledger.trials row = before.ledger.trials row ++ [a] ∧
    leaders[place]? = some a.chromosome

namespace Repeat

variable {r : Repeat ρ α} {i k : Nat} {run evaluated : Run ρ α} {settings : GreyWolf.Settings α}

/-- After an evaluation an update succeeds, and the rows that rank best lead. -/
theorem Reached.update_leads (accepted : r.problem.Accepted r.config)
    (algorithm : r.config.algorithm = .greyWolf settings) (reached : r.Reached i k .ready run)
    (ran : (Run.evaluate r.problem r.round (r.progress i)).run.run run = (.ok (), evaluated)) :
    ∃ ranked updated s, evaluated.population.ranking .trial r.problem.directions = .ok ranked ∧
      ranked.Perm (List.range r.config.agents) ∧
      (Run.update r.problem r.round (r.progress i) r.config.algorithm.cycles).run.run run =
        (.ok (), updated) ∧
      updated.strategy = .greyWolf s ∧ s.settings = settings ∧
      Run.Leads ranked run evaluated s.leaders := by
  have after := reached.evaluate ran
  have sized := after.sound.sized
  obtain ⟨_, _, _, _, entered⟩ := Run.evaluate_trials reached.sound.sized ran
  have three : 3 ≤ r.config.agents := by
    have checked := accepted.settings
    rw [algorithm] at checked
    obtain ⟨_, _, required⟩ := bind_ok.mp checked
    exact requireAgents_ok required
  have objectives : (r.problem.layout r.config.algorithm).objectives =
      r.problem.directions.length := rfl
  have named := after.algorithm accepted
  rw [algorithm] at named
  cases strategy : evaluated.strategy with
  | genetic | differential | annealing | tabu =>
    rw [strategy] at named
    cases named
  | greyWolf s =>
    rw [strategy] at named
    cases named
    obtain ⟨ranked, t, q, best, placed, settled, same, led⟩ :=
      GreyWolf.settle_led s three objectives sized
    have settling : (evaluated.strategy.settle r.problem.directions (r.progress i)
        evaluated.population : Draw ρ _).run.run evaluated.random =
          (.ok (.greyWolf t, q), evaluated.random) := by
      rw [strategy, Strategy.settle, settled]
      rfl
    have once : r.config.algorithm.cycles = 1 := by
      rw [algorithm]
      rfl
    refine ⟨ranked, { evaluated with strategy := .greyWolf t, population := q }, t, best, placed,
      ?_, rfl, same, led.three, fun place below => ?_⟩
    · rw [once, Run.update, run_bind_of_ok ran, Run.settle, bind_assoc, Run.get_run, bind_assoc,
        Run.ofDraw_run settling]
      rfl
    · obtain ⟨row, found, leader⟩ := led.best place below
      have inside : row < r.config.agents :=
        List.mem_range.mp (placed.mem_iff.mp (List.mem_of_getElem? found))
      obtain ⟨block, held, _⟩ := sized.exists_row inside
      rw [Population.genesOf_of_row held] at leader
      exact ⟨row, block.trial.agent, found, sized.read_agent held .trial, entered row block held,
        leader⟩

end Repeat

namespace Search

open Exact

/-- The pack follows its best. After every update the agents of the three rows that rank best in
its evaluation lead. Over exact numbers every move then takes every gene into the unit interval and
within twice the reach of the mean of the leaders' genes; statuses, rewards and the leaders stay as
they are. -/
theorem pack_follows_leaders {σ K : Type} [Field K] [LinearOrder K] [IsStrictOrderedRing K]
    [FloorRing K] [Elementary K] [RandomSource σ (Exact K)]
    (within : RandomSource.WithinUnit σ (K := K)) :
    (∀ (model : Model α) (config : Config α) (problem : Problem α) (settings : GreyWolf.Settings α),
      Problem.make model config.penaltyCoefficient = .ok problem → config.validate = .ok () →
      config.algorithm.validateFor config.agents problem.schema.objectives = .ok () →
      config.algorithm = .greyWolf settings → ∀ (round passes : Nat) (random : ρ),
      let r : Repeat ρ α := ⟨problem, config, round, passes, random⟩
      ∀ i k run evaluated, r.Reached i k .ready run →
        (Run.evaluate problem round (r.progress i)).run.run run = (.ok (), evaluated) →
        ∃ ranked updated s, evaluated.population.ranking .trial problem.directions = .ok ranked ∧
          ranked.Perm (List.range config.agents) ∧
          (Run.update problem round (r.progress i) config.algorithm.cycles).run.run run =
            (.ok (), updated) ∧
          updated.strategy = .greyWolf s ∧ s.settings = settings ∧
          Run.Leads ranked run evaluated s.leaders) ∧
    ∀ (l : Layout) (n : Nat) (p : Population (Exact K)) (s : GreyWolf.State (Exact K))
      (progress : Progress) (full : K), p.Sized l n → p.Genes InUnit (fun _ => True) →
      s.leaders ≠ [] → (∀ leader ∈ s.leaders, InCube l.genes leader) →
      s.settings.reach = .finite full → 0 ≤ full → progress.iteration < progress.budget →
      Draw.Answers (GreyWolf.vary progress s p : Draw σ _) fun x =>
        x.1 = s ∧ GreyWolf.Moved l n s.leaders (GreyWolf.reachAt full progress) p x.2 := by
  constructor
  · intro model config problem settings made valid fitting algorithm round passes random r i k run
      evaluated reached ran
    exact reached.update_leads (Problem.accepted made valid fitting) algorithm ran
  · intro l n p s progress full sized unit nonempty led settings reach started
    exact GreyWolf.vary_moved within started settings reach led nonempty sized unit

/-- A short search by wolves. -/
def budgetHunting : Config Float :=
  { budgetSearch with algorithm := .greyWolf .default, populationSize := 5 }

/-- Two wolves at the ends of the unit interval. -/
def pair : Population (Exact ℚ) where
  layout := ⟨1, 1, false⟩
  count := 2
  rows := [0, 1].map fun gene => ⟨⟨[.finite gene], .unconstrained, [.finite 1]⟩, none⟩

/-- Leaders around the middle of the unit interval, with a reach. -/
def hunters (reach : ℚ) : GreyWolf.State (Exact ℚ) :=
  ⟨⟨.finite reach⟩, [[.finite (1 / 4)], [.finite (1 / 2)], [.finite (3 / 4)]], 1⟩

theorem pair_sized : pair.Sized ⟨1, 1, false⟩ 2 := by
  refine ⟨rfl, rfl, rfl, fun i r place => ?_⟩
  obtain ⟨gene, _, rfl⟩ := List.mem_map.mp (List.mem_of_getElem? place)
  exact ⟨⟨rfl, rfl⟩, nofun, rfl⟩

theorem pair_unit : pair.Genes InUnit (fun _ => True) := by
  intro i r place
  obtain ⟨gene, member, rfl⟩ := List.mem_map.mp (List.mem_of_getElem? place)
  have inside : 0 ≤ gene ∧ gene ≤ 1 := by
    simp only [List.mem_cons, List.not_mem_nil, or_false] at member
    rcases member with rfl | rfl <;> norm_num
  refine ⟨fun g held => ?_, nofun⟩
  cases List.mem_singleton.mp held
  exact ⟨gene, rfl, inside⟩

theorem hunters_inCube (reach : ℚ) : ∀ leader ∈ (hunters reach).leaders, InCube 1 leader := by
  intro leader member
  refine ⟨?_, fun g held => ?_⟩
  · simp only [hunters, List.mem_cons, List.not_mem_nil, or_false] at member
    rcases member with rfl | rfl | rfl <;> rfl
  · simp only [hunters, List.mem_cons, List.not_mem_nil, or_false] at member
    rcases member with rfl | rfl | rfl <;> cases List.mem_singleton.mp held <;>
      exact ⟨_, rfl, by norm_num, by norm_num⟩

theorem hunters_mean (reach : ℚ) : mean (GreyWolf.placed (hunters reach).leaders 0) = 1 / 2 := by
  simp only [hunters, GreyWolf.placed, mean, List.map_cons, List.map_nil, List.getD_cons_zero, value,
    List.sum_cons, List.sum_nil, List.length_cons, List.length_nil]
  norm_num

/-- In the second half of the budget the wolves come as close to the middle as the first reach
was; without a reach they meet there. In a short search the best agents lead. -/
theorem pack_follows_leaders_pair :
    RandomSource.WithinUnit (Generator (Exact ℚ)) (K := ℚ) ∧
    pair.Sized ⟨1, 1, false⟩ 2 ∧ pair.Genes InUnit (fun _ => True) ∧
    (∀ reach, ∀ leader ∈ (hunters reach).leaders, InCube 1 leader) ∧
    (∃ q random x, (GreyWolf.vary ⟨1, 2⟩ (hunters (1 / 10)) pair :
        Draw (Generator (Exact ℚ)) _).run.run (RandomSource.ofSeed 7) =
          (.ok (hunters (1 / 10), q), random) ∧
      q.gene .trial 0 0 = some (.finite x) ∧ 0 ≤ x ∧ x ≤ 1 ∧ |x - 1 / 2| ≤ 1 / 10) ∧
    (∃ q random, (GreyWolf.vary ⟨1, 2⟩ (hunters 0) pair :
        Draw (Generator (Exact ℚ)) _).run.run (RandomSource.ofSeed 7) =
          (.ok (hunters 0, q), random) ∧
      q.gene .trial 0 0 = some (.finite (1 / 2))) ∧
    ∃ run evaluated updated : Run (Generator Float) Float,
      Run.start budgetProblem budgetHunting 0 (RandomSource.ofSeed 7) = .ok run ∧
      (Run.evaluate budgetProblem 0 ⟨0, 2⟩).run.run run = (.ok (), evaluated) ∧
      (Run.update budgetProblem 0 ⟨0, 2⟩ 1).run.run run = (.ok (), updated) ∧
      ∃ ranked s, evaluated.population.ranking .trial budgetProblem.directions = .ok ranked ∧
        updated.strategy = .greyWolf s ∧ Run.Leads ranked run evaluated s.leaders := by
  have within : RandomSource.WithinUnit (Generator (Exact ℚ)) (K := ℚ) := Generator.withinUnit
  obtain ⟨leads, moves⟩ := pack_follows_leaders (ρ := Generator Float) (α := Float) within
  have valid : budgetHunting.validate = .ok () := by rfl
  have fitting : budgetHunting.algorithm.validateFor budgetHunting.agents
      budgetProblem.schema.objectives = .ok () := by rfl
  have moved (reach : ℚ) (positive : 0 ≤ reach) := moves ⟨1, 1, false⟩ 2 pair (hunters reach)
    ⟨1, 2⟩ reach pair_sized pair_unit (by simp [hunters]) (hunters_inCube reach) rfl positive
    (by decide) (RandomSource.ofSeed 7)
  refine ⟨within, pair_sized, pair_unit, hunters_inCube, ?_, ?_, ?_⟩
  · obtain ⟨⟨_, q⟩, random, ran, same, after⟩ := moved (1 / 10) (by norm_num)
    obtain ⟨_, held, x, rfl, lower, upper, close⟩ := after.near 0 (by decide) 0 (by decide)
    cases same
    refine ⟨q, random, x, ran, held, lower, upper, ?_⟩
    rw [hunters_mean, GreyWolf.reachAt] at close
    norm_num at close ⊢
    exact close
  · obtain ⟨⟨_, q⟩, random, ran, same, after⟩ := moved 0 le_rfl
    have met := after.center (by rw [GreyWolf.reachAt, zero_mul]) 0 (by decide) 0 (by decide)
    cases same
    rw [hunters_mean] at met
    exact ⟨q, random, ran, met⟩
  · obtain ⟨run, started, ran⟩ := exists_ok_of_any
      (x := Run.start budgetProblem budgetHunting 0 (RandomSource.ofSeed 7 : Generator Float))
      (P := fun run => ((Run.evaluate budgetProblem 0 ⟨0, 2⟩).run.run run).1.toOption = some ())
      (by decide +kernel)
    cases ended : (Run.evaluate budgetProblem 0 ⟨0, 2⟩).run.run run with
    | mk result evaluated =>
      rw [ended] at ran
      cases result with
      | error failure => cases ran
      | ok u =>
        obtain ⟨ranked, updated, s, named, _, updates, strategy, _, best⟩ :=
          leads Schema.budget.model budgetHunting budgetProblem .default budget_made valid fitting
            rfl 0 0 (RandomSource.ofSeed 7) 0 0 run evaluated (.start started) ended
        exact ⟨run, evaluated, updated, started, ended, updates, ranked, s, named, strategy, best⟩

end Search
end Metaheuristic
