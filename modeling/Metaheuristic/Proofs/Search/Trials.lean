import Metaheuristic.Proofs.Population.Standing
import Metaheuristic.Proofs.Search.Counters

/-! The trials of the rows. Every evaluation enters one agent for each row, a copy of the row's
trial as it was scored, and touches nothing that a row has settled on. -/
namespace Metaheuristic

variable {ρ α : Type}

namespace Ledger

variable {l l' : Ledger α} {row : Nat} {a : Agent α}

/-- The agents that were evaluated in a row, in order. -/
def trials (l : Ledger α) (row : Nat) : List (Agent α) := l.batches.reverse.filterMap (·[row]?)

theorem mem_log_of_mem_trials (member : a ∈ l.trials row) : a ∈ l.log := by
  obtain ⟨batch, inside, place⟩ := List.mem_filterMap.mp member
  exact List.mem_flatten_of_mem inside (List.mem_of_getElem? place)

theorem trials_enter [Scalar α] {agents : List (Agent α)} {latest : List α}
    (ran : l.enter agents latest = .ok l') (place : agents[row]? = some a) :
    l'.trials row = l.trials row ++ [a] := by
  obtain ⟨record, _, built⟩ := bind_ok.mp ran
  cases built
  simp [trials, place]

end Ledger

namespace Run

/-- A row of a run has settled on a block. -/
def Incumbent (run : Run ρ α) (row : Nat) (b : Block α) : Prop :=
  run.population.incumbents[row]? = some (some b)

theorem Incumbent.exists_row {run : Run ρ α} {row : Nat} {b : Block α}
    (held : run.Incumbent row b) :
    ∃ r, run.population.rows[row]? = some r ∧ r.incumbent = some b := by
  rw [Incumbent, Population.incumbents, List.getElem?_map] at held
  exact Option.map_eq_some_iff.mp held

theorem Incumbent.of_row {run : Run ρ α} {row : Nat} {r : Row α} {b : Block α}
    (place : run.population.rows[row]? = some r) (held : r.incumbent = some b) :
    run.Incumbent row b := by
  rw [Incumbent, Population.incumbents, List.getElem?_map, place, Option.map_some, held]

theorem Incumbent.unique {run : Run ρ α} {row : Nat} {b b' : Block α}
    (held : run.Incumbent row b) (held' : run.Incumbent row b') : b = b' :=
  Option.some.inj (Option.some.inj (held.symm.trans held'))

theorem Incumbent.congr {run run' : Run ρ α} {row : Nat} {b : Block α}
    (held : run.Incumbent row b)
    (same : run'.population.incumbents = run.population.incumbents) : run'.Incumbent row b :=
  Eq.trans (congrArg (·[row]?) same) held

variable [Scalar α] {problem : Problem α} {config : Config α} {round : Nat} {progress : Progress}
  {run run' : Run ρ α}

theorem Incumbent.rewardAt {row : Nat} {b : Block α} {x : α} (held : run.Incumbent row b)
    (read : run.population.rewardAt .incumbent 0 row = .ok x) : x = b.leading := by
  obtain ⟨r, place, incumbent⟩ := held.exists_row
  rw [Population.rewardAt_ok place read, Row.block, incumbent]
  rfl

/-- In two phases every row has settled on something. -/
theorem Sound.exists_incumbent (sound : Sound problem config run)
    (phases : config.algorithm.twoPhase = true) {row : Nat} (below : row < config.agents) :
    ∃ b, run.Incumbent row b := by
  have held := List.getElem?_eq_getElem (Nat.lt_of_lt_of_eq below sound.sized.length.symm)
  have some : _ = true := (sound.sized.rows row _ held).phases.trans phases
  obtain ⟨b, incumbent⟩ := Option.isSome_iff_exists.mp some
  exact ⟨b, .of_row held incumbent⟩

/-- What an evaluation does to a run: a trial of each row is entered. -/
theorem evaluate_trials
    (sized : run.population.Sized (problem.layout config.algorithm) config.agents)
    (ran : (evaluate problem round progress).run.run run = (.ok (), run')) :
    run'.strategy = run.strategy ∧ run'.population.incumbents = run.population.incumbents ∧
      run'.ledger.log = run.ledger.log ++ run'.population.rows.map (·.trial.agent) ∧
      run.ledger.record.observeAll (run'.population.rows.map (·.trial.agent)) =
        .ok run'.ledger.record ∧
      ∀ (row : Nat) r, run'.population.rows[row]? = some r →
        run'.ledger.trials row = run.ledger.trials row ++ [r.trial.agent] := by
  obtain ⟨view, e, population, latest, agents, ledger, _, _, assigned, _, copied, entered, rfl⟩ :=
    evaluate_ok ran
  have written := (Scoring.assign_written sized rfl assigned).sized
  have batch := written.agents_eq copied
  obtain ⟨log, record⟩ := log_enter entered
  refine ⟨rfl, Population.incumbents_assign assigned, batch ▸ log, batch ▸ record,
    fun row r held => ?_⟩
  have place : agents[row]? = some r.trial.agent := by
    rw [batch, List.getElem?_map, held]
    rfl
  exact (Ledger.trials_enter entered place :)

end Run

namespace Repeat

variable [Scalar α] [RandomSource ρ α] {r : Repeat ρ α} {i k : Nat} {phase : Phase}
  {run : Run ρ α}

/-- A row has had one trial in each evaluation. By induction on the steps. -/
theorem Reached.length_trials (reached : r.Reached i k phase run) {row : Nat}
    (below : row < r.config.agents) : (run.ledger.trials row).length =
      i * r.config.algorithm.cycles + k + phase.evaluations := by
  induction reached with
  | start started =>
    obtain ⟨population, _, rfl⟩ := map_ok.mp started
    rw [Nat.zero_mul]
    rfl
  | @evaluate i k run run' before ran length =>
    have sized := (before.evaluate ran).sound.sized
    obtain ⟨_, _, _, _, entered⟩ := Run.evaluate_trials before.sound.sized ran
    have held := List.getElem?_eq_getElem (Nat.lt_of_lt_of_eq below sized.length.symm)
    rw [entered row _ held, List.length_append, length]
    rfl
  | settle before ran length =>
    obtain ⟨_, _, _, _, rfl⟩ := Run.settle_ok ran
    exact length
  | within before more ran length =>
    obtain ⟨_, _, _, _, rfl⟩ := Run.vary_ok ran
    exact length
  | @after i k run run' before last more ran length =>
    obtain ⟨_, _, _, _, rfl⟩ := Run.vary_ok ran
    rw [length, Nat.succ_mul, ← last]
    rfl

end Repeat
end Metaheuristic
