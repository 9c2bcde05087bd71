import Metaheuristic.Proofs.Search.Convergence

/-! Searches over one agent. There is one row and one objective, so an evaluation enters one
candidate, which a decision then moves to or not. -/
namespace Metaheuristic

variable {ρ α : Type}

/-- The algorithms over one agent. -/
def Algorithm.Lone : Algorithm α → Prop
  | annealing _ | tabu _ => True
  | genetic _ | differential _ | greyWolf _ => False

theorem Algorithm.Lone.alone {config : Config α} (lone : config.algorithm.Lone) :
    config.algorithm.twoPhase = true ∧ config.agents = 1 := by
  rw [Config.agents]
  cases algorithm : config.algorithm <;> rw [algorithm] at lone
  case annealing | tabu => exact ⟨rfl, rfl⟩
  case genetic | differential | greyWolf => exact lone.elim

variable [Scalar α] {d : Direction}

/-- Such a search is accepted with one objective only. -/
theorem Problem.Accepted.exists_direction {problem : Problem α} {config : Config α}
    (accepted : problem.Accepted config) (lone : config.algorithm.Lone) :
    ∃ d, problem.directions = [d] := by
  have some := List.length_pos_iff.mpr accepted.directed
  obtain ⟨_, _, fits⟩ := bind_ok.mp accepted.settings
  have single : requireSingleObjective config.algorithm.name problem.directions.length =
      (.ok () : Except (ConfigError α) Unit) := by
    cases algorithm : config.algorithm <;> rw [algorithm] at fits lone
    case annealing | tabu => exact fits
    case genetic | differential | greyWolf => exact lone.elim
  refine List.length_eq_one_iff.mp ?_
  unfold requireSingleObjective at single
  split at single
  · cases single
  · omega

theorem Record.observe_single {best : Option (Agent α)} {a : Agent α} {record : Record α}
    (ran : (Record.single d best).observe a = .ok record) :
    record = .single d (some (better d best a)) := by
  unfold Record.observe at ran
  dsimp only at ran
  split at ran
  · cases ran
  · exact (Except.ok.inj ran).symm

variable {problem : Problem α} {config : Config α} {round : Nat} {progress : Progress}
  {run run' : Run ρ α} {row : Nat}

namespace Run

omit [Scalar α] in
/-- A row that is moved to its trial has settled on it. -/
theorem Incumbent.promoted {l : Layout} {n : Nat} {r : Row α} (phases : l.twoPhase = true)
    (sized : run.population.Sized l n) (place : run.population.rows[row]? = some r)
    (moved : run.population.promote row = .ok run'.population) : run'.Incumbent row r.trial := by
  have settled : run'.population.rows[row]? = some r.promote := by
    rw [sized.promote_row phases moved, place, Option.map_some, if_pos rfl]
  exact .of_row settled rfl

/-- An evaluation enters the trial of the one row. -/
theorem evaluate_lone (alone : config.agents = 1)
    (sized : run.population.Sized (problem.layout config.algorithm) config.agents)
    (sized' : run'.population.Sized (problem.layout config.algorithm) config.agents)
    (ran : (evaluate problem round progress).run.run run = (.ok (), run')) :
    ∃ r, run'.population.rows[0]? = some r ∧ run'.strategy = run.strategy ∧
      run'.population.incumbents = run.population.incumbents ∧
      run'.ledger.log = run.ledger.log ++ [r.trial.agent] ∧
      run.ledger.record.observe r.trial.agent = .ok run'.ledger.record := by
  obtain ⟨strategy, same, log, observed, _⟩ := evaluate_trials sized ran
  obtain ⟨r, only⟩ := List.length_eq_one_iff.mp (sized'.length.trans alone)
  rw [only] at log observed
  obtain ⟨next, offered, built⟩ := bind_ok.mp observed
  cases built
  exact ⟨r, by rw [only]; rfl, strategy, same, log, offered⟩

variable [RandomSource ρ α]

/-- New trials change nothing that the search knows. -/
theorem vary_lone (lone : config.algorithm.Lone)
    (algorithm : run.strategy.algorithm = config.algorithm)
    (ran : (vary progress).run.run run = (.ok (), run')) : run'.strategy = run.strategy ∧
      run'.population.incumbents = run.population.incumbents ∧ run'.ledger = run.ledger := by
  obtain ⟨same, ledger⟩ := vary_incumbents algorithm lone.alone.1 ran
  obtain ⟨_, _, _, drawn, rfl⟩ := vary_ok ran
  rw [← algorithm] at lone
  have kept : Draw.Yields (run.strategy.vary progress run.population : Draw ρ _)
      fun x => x.1 = run.strategy := by
    cases state : run.strategy <;> rw [state] at lone
    case annealing s =>
      exact (Annealing.vary_state s).bind fun x same => .pure (congrArg Strategy.annealing same)
    case tabu s =>
      exact (Tabu.vary_state s).bind fun x same => .pure (congrArg Strategy.tabu same)
    case genetic | differential | greyWolf => exact lone.elim
  exact ⟨kept _ _ _ trivial drawn, same, ledger⟩

end Run

namespace Repeat

variable {r : Repeat ρ α} {i k : Nat}

/-- After an evaluation the trial of the one row is the last agent of the ledger. -/
theorem Reached.exists_candidate [RandomSource ρ α] (lone : r.config.algorithm.Lone)
    (reached : r.Reached i k .evaluated run) :
    ∃ row, run.population.rows[0]? = some row ∧
      run.ledger.log.getLast? = some row.trial.agent := by
  cases reached with
  | evaluate before ran =>
    obtain ⟨row, place, _, _, log, _⟩ := Run.evaluate_lone lone.alone.2 before.sound.sized
      (before.evaluate ran).sound.sized ran
    exact ⟨row, place, by rw [log, List.getLast?_concat]⟩

end Repeat
end Metaheuristic
