import Metaheuristic.Proofs.Search.Trials
import Metaheuristic.Proofs.Strategy.Survival

/-! Selection in a run. An update of a genetic algorithm evaluates the agents, ranks them and
copies rows whole to the places of the next generation, so every row that is there afterwards was
evaluated just before and ranked among the survivors. -/
namespace Metaheuristic

variable {ρ α : Type} [Scalar α] [RandomSource ρ α]

namespace Run

/-- The row at place `i` is what selection made of the row that came to place `k` of the ranking,
when it works with `size` of `n` rows. -/
structure Survives (s : Selection) (n size : Nat) (ranked : List Nat)
    (before evaluated updated : Run ρ α) (i k : Nat) : Prop where
  copied : Genetic.Copies ranked evaluated.population updated.population i k
  /-- The agent in the row is the one that was evaluated last in the row it comes from. -/
  agent : ∃ row a, ranked[k]? = some row ∧ updated.population.agent i .trial = .ok a ∧
    evaluated.ledger.trials row = before.ledger.trials row ++ [a]
  /-- The best rows stay where they come in the ranking, the first one at the first place. -/
  random : s = .random → k < size ∧ (i < size → k = i)
  /-- There are so many worse rows that the worst of all do not survive. -/
  tournament : s = .tournament → k + size ≤ n

variable [Scalar.LawfulUnit α] {problem : Problem α} {config : Config α}
  {settings : Genetic.Settings α} {round : Nat} {progress : Progress} {run evaluated : Run ρ α}

theorem Safe.update_survives (distinct : RandomSource.Distinct ρ)
    (accepted : problem.Accepted config) (inRange : RandomSource.InRange ρ config.agents)
    (safe : Safe problem config run) (algorithm : config.algorithm = .genetic settings)
    (ran : (evaluate problem round progress).run.run run = (.ok (), evaluated)) :
    ∃ fraction drawn ranked updated,
      (Genetic.survivingFraction settings : Draw ρ α).run.run evaluated.random =
        (.ok fraction, drawn) ∧
      evaluated.population.ranking .trial problem.directions = .ok ranked ∧
      ranked.Perm (List.range config.agents) ∧
      (update problem round progress config.algorithm.cycles).run.run run = (.ok (), updated) ∧
      updated.population.rows.length = config.agents ∧
      ∀ i < config.agents, ∃ k, Survives settings.selection config.agents
        (Selection.sizeOf config.agents fraction) ranked run evaluated updated i k := by
  have after := safe.evaluated accepted ran
  obtain ⟨_, _, _, _, entered⟩ := evaluate_trials safe.sized ran
  obtain ⟨s, strategy, same⟩ : ∃ s, evaluated.strategy = .genetic s ∧ s.settings = settings := by
    have named := after.algorithm.trans algorithm
    cases held : evaluated.strategy with
    | genetic s =>
      rw [held] at named
      cases named
      exact ⟨s, rfl, rfl⟩
    | _ =>
      rw [held] at named
      cases named
  have valid : s.settings.validate = .ok () := by
    have checked := accepted.settings
    rw [algorithm] at checked
    obtain ⟨_, valid, _⟩ := bind_ok.mp checked
    rw [same]
    exact valid
  obtain ⟨fraction, drawn, ranked, order, q, settled, spanned, named, placed, selects, chosen, kept,
    copied⟩ := Genetic.settle_selects inRange distinct valid accepted.agents rfl after.sized
      evaluated.random
  have settling : (evaluated.strategy.settle problem.directions progress evaluated.population :
      Draw ρ _).run.run evaluated.random = (.ok (.genetic s, q), settled) := by
    rw [strategy]
    exact run_bind_of_ok chosen
  rw [same] at spanned selects
  have once : config.algorithm.cycles = 1 := by
    rw [algorithm]
    rfl
  refine ⟨fraction, drawn, ranked,
    { evaluated with strategy := .genetic s, population := q, random := settled }, spanned, named,
    placed, ?_, kept.length, fun i below => ?_⟩
  · rw [once, update, run_bind_of_ok ran, settle, bind_assoc, get_run, bind_assoc,
      ofDraw_run settling]
    rfl
  · have inside : i < order.length := Nat.lt_of_lt_of_eq below selects.length.symm
    have place : order[i]? = some order[i] := List.getElem?_eq_getElem inside
    have copy := copied i _ place
    obtain ⟨row, r, there, held, here⟩ := copied i _ place
    refine ⟨order[i], copy, ⟨row, r.trial.agent, there, kept.read_agent here .trial,
      entered row r held⟩, fun picked => ?_,
      fun picked => selects.tournament picked _ (List.getElem_mem _)⟩
    have fills := selects.random picked i _ place
    split at fills
    · rename_i stays
      rw [fills]
      exact ⟨stays, fun _ => rfl⟩
    · rename_i leaves
      exact ⟨fills, fun stays => absurd stays leaves⟩

end Run

namespace Search

/-- Selection keeps rows that rank well. An order names rows that stay and rows drawn from those,
or winners that have enough rows behind them; an update fills every place with a whole copy of such
a row. -/
theorem selection_keeps_best_ranked [Scalar.LawfulUnit α]
    (distinct : RandomSource.Distinct ρ) :
    (∀ (s : Selection) (n : Nat) (fraction : α), 0 < n → RandomSource.InRange ρ n →
      Draw.Answers (s.order n fraction : Draw ρ (List Nat)) (s.Selects n
        (max 1 (min n (Scalar.toWord (Scalar.round (fraction * Scalar.ofNat n))))))) ∧
    ∀ (problem : Problem α) (config : Config α) (settings : Genetic.Settings α) (round : Nat)
      (progress : Progress) (run evaluated : Run ρ α), problem.Accepted config →
      config.algorithm = .genetic settings → RandomSource.InRange ρ config.agents →
      run.Safe problem config →
      (Run.evaluate problem round progress).run.run run = (.ok (), evaluated) →
      ∃ fraction drawn ranked updated,
        (Genetic.survivingFraction settings : Draw ρ α).run.run evaluated.random =
          (.ok fraction, drawn) ∧
        evaluated.population.ranking .trial problem.directions = .ok ranked ∧
        ranked.Perm (List.range config.agents) ∧
        (Run.update problem round progress config.algorithm.cycles).run.run run =
          (.ok (), updated) ∧
        updated.population.rows.length = config.agents ∧
        ∀ i < config.agents, ∃ k, Run.Survives settings.selection config.agents
          (max 1 (min config.agents
            (Scalar.toWord (Scalar.round (fraction * Scalar.ofNat config.agents)))))
          ranked run evaluated updated i k := by
  constructor
  · intro s n fraction positive inRange
    rw [← Selection.sizeOf_eq positive]
    exact Selection.order_selects inRange s distinct positive fraction
  · intro problem config settings round progress run evaluated accepted algorithm inRange safe ran
    obtain ⟨fraction, drawn, result⟩ := safe.update_survives distinct accepted inRange algorithm ran
    refine ⟨fraction, drawn, ?_⟩
    rw [← Selection.sizeOf_eq accepted.agents]
    exact result

/-- A short search by a genetic algorithm. -/
def budgetBreeding : Config Float :=
  { budgetSearch with algorithm := .genetic .default, populationSize := 5 }

theorem selection_keeps_best_ranked_budget :
    RandomSource.Distinct (Generator Float) ∧ RandomSource.InRange (Generator Float) 5 ∧
    budgetProblem.Accepted budgetBreeding ∧
    Draw.Answers (Selection.tournament.order 5 (1 / 2 : Float) : Draw (Generator Float) (List Nat))
      (fun order => ∀ row ∈ order, row + 3 ≤ 5) ∧
    ∃ run evaluated updated : Run (Generator Float) Float,
      Run.start budgetProblem budgetBreeding 0 (RandomSource.ofSeed 7) = .ok run ∧
      (Run.evaluate budgetProblem 0 ⟨0, 2⟩).run.run run = (.ok (), evaluated) ∧
      (Run.update budgetProblem 0 ⟨0, 2⟩ 1).run.run run = (.ok (), updated) ∧
      ∃ ranked, evaluated.population.ranking .trial budgetProblem.directions = .ok ranked ∧
        Genetic.Copies ranked evaluated.population updated.population 0 0 := by
  have inRange : RandomSource.InRange (Generator Float) 5 := Generator.inRange.mono (by decide)
  have valid : budgetBreeding.validate = .ok () := by rfl
  have fitting : budgetBreeding.algorithm.validateFor budgetBreeding.agents
      budgetProblem.schema.objectives = .ok () := by rfl
  have accepted : budgetProblem.Accepted budgetBreeding :=
    Problem.accepted budget_made valid fitting
  obtain ⟨orders, updates⟩ :=
    selection_keeps_best_ranked (Generator.distinct (α := Float))
  have size :
      max 1 (min 5 (Scalar.toWord (Scalar.round ((1 / 2 : Float) * Scalar.ofNat 5)))) = 3 := by
    decide +kernel
  have won := orders .tournament 5 (1 / 2) (by decide) inRange
  rw [size] at won
  obtain ⟨run, started, safe⟩ := Run.exists_start budgetProblem budgetBreeding 0
    (RandomSource.ofSeed 7 : Generator Float)
  obtain ⟨first, same, ran⟩ := exists_ok_of_any
    (x := Run.start budgetProblem budgetBreeding 0 (RandomSource.ofSeed 7 : Generator Float))
    (P := fun run => ((Run.evaluate budgetProblem 0 ⟨0, 2⟩).run.run run).1.toOption = some ())
    (by decide +kernel)
  rw [started] at same
  cases same
  cases ended : (Run.evaluate budgetProblem 0 ⟨0, 2⟩).run.run run with
  | mk result evaluated =>
    rw [ended] at ran
    cases result with
    | error failure => cases ran
    | ok u =>
      obtain ⟨fraction, drawn, ranked, updated, _, named, _, ran, _, survive⟩ :=
        updates budgetProblem budgetBreeding .default 0 ⟨0, 2⟩ run evaluated accepted rfl inRange
          safe ended
      obtain ⟨k, survives⟩ := survive 0 (by decide)
      have best : k = 0 := (survives.random rfl).2 (by omega)
      exact ⟨Generator.distinct, inRange, accepted, won.weaken fun _ selects =>
        selects.tournament rfl, run, evaluated, updated, started, ended, ran, ranked, named,
        best ▸ survives.copied⟩

end Search
end Metaheuristic
