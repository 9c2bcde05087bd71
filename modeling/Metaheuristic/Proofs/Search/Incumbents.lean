import Metaheuristic.Proofs.Search.Convergence
import Metaheuristic.Proofs.Search.Faults
import Metaheuristic.Proofs.Strategy.Replacement

/-! Incumbents in differential evolution. What a row has settled on is its initial block and all
of its trials folded into one by comparing them in order. With one objective this is the first of
the best trials, once there is one that beats the worst value. -/
namespace Metaheuristic

variable {ρ α : Type} [Scalar α]

namespace Differential

/-- What a row has settled on after some trials, from the block that it had in the beginning. -/
def champion (directions : List Direction) (initial : Block α) (trials : List (Agent α)) :
    Block α :=
  trials.foldl (fun now a => replace directions now a.block) initial

variable {directions : List Direction} {initial : Block α} {trials : List (Agent α)} {d : Direction}

@[simp]
theorem champion_append (directions : List Direction) (initial : Block α)
    (trials : List (Agent α)) (a : Agent α) : champion directions initial (trials ++ [a]) =
      replace directions (champion directions initial trials) a.block := by
  rw [champion, List.foldl_append]
  rfl

/-- A row keeps its initial block or holds one of its trials. -/
theorem champion_cases (directions : List Direction) (initial : Block α)
    (trials : List (Agent α)) : champion directions initial trials = initial ∨
      ∃ a ∈ trials, champion directions initial trials = a.block := by
  induction trials using List.reverseRecOn with
  | nil => exact .inl rfl
  | append_singleton trials a ih =>
    rw [champion_append]
    rcases replace_cases directions (champion directions initial trials) a.block with
      ⟨new, _⟩ | same
    · exact .inr ⟨a, by simp, new⟩
    · rw [same]
      exact ih.imp_right fun ⟨b, member, held⟩ => ⟨b, List.mem_append_left _ member, held⟩

/-- With one objective a row holds the first of the best trials among those that beat the worst
value, and its initial block as long as there is none. By induction on the trials: a new one
takes over exactly when it beats what the row holds. -/
theorem champion_single [Scalar.LawfulOrder α] (fresh : initial.rewards = [d.worst])
    (single : ∀ a ∈ trials, a.Single) :
    (champion [d] initial trials = initial ∧
        ∀ a ∈ trials, d.isBetter a.leading d.worst = false) ∨
      ∃ a, Record.FirstBest d trials a ∧ d.isBetter a.leading d.worst = true ∧
        champion [d] initial trials = a.block := by
  induction trials using List.reverseRecOn with
  | nil => exact .inl ⟨rfl, nofun⟩
  | append_singleton trials b ih =>
    have earlier : ∀ a ∈ trials, a.Single := fun a member =>
      single a (List.mem_append_left _ member)
    have defined := Record.defined_of_single earlier
    obtain ⟨x, one, rfl, number⟩ := single b (by simp)
    have alone : Record.FirstBest d [b] b := ⟨[], [], rfl, nofun, nofun⟩
    rw [champion_append]
    rcases ih earlier with ⟨same, beaten⟩ | ⟨a, first, beats, held⟩
    · rw [same, replace_single one fresh]
      split
      · rename_i better
        exact .inr ⟨b, .of_beaten defined beaten better, better, rfl⟩
      · rename_i notBetter
        refine .inl ⟨rfl, fun a member => ?_⟩
        rcases List.mem_append.mp member with old | new
        · exact beaten a old
        · rw [List.mem_singleton.mp new]
          simpa using notBetter
    · have best := first.append alone defined fun c member =>
        List.mem_singleton.mp member ▸ number
      obtain ⟨y, oneA, rfl, _⟩ := earlier a first.mem
      rw [held, replace_single one oneA]
      unfold Record.better at best
      dsimp only at best
      split
      · rename_i better
        rw [if_pos better] at best
        exact .inr ⟨b, best, Direction.isBetter_trans better beats, rfl⟩
      · rename_i notBetter
        rw [if_neg notBetter] at best
        exact .inr ⟨a, best, beats, rfl⟩

/-- What a row holds after its trials. With one objective it is the first trial with the best
reward of all, if any trial has a reward better than the worst value. -/
structure Settlement (directions : List Direction) (trials : List (Agent α))
    (initial now : Block α) : Prop where
  found : ∀ d, directions = [d] → (∃ a ∈ trials, d.isBetter a.leading d.worst = true) →
    ∃ a, Record.FirstBest d trials a ∧ now = a.block
  nothing : ∀ d, directions = [d] → (∀ a ∈ trials, d.isBetter a.leading d.worst = false) →
    now = initial
  either : now = initial ∨ ∃ a ∈ trials, now = a.block

theorem settlement [Scalar.LawfulOrder α]
    (fresh : initial.rewards = directions.map Direction.worst)
    (single : ∀ d, directions = [d] → ∀ a ∈ trials, a.Single) :
    Settlement directions trials initial (champion directions initial trials) := by
  refine ⟨?_, ?_, champion_cases directions initial trials⟩
  · rintro d rfl ⟨a, member, better⟩
    rcases champion_single fresh (single d rfl) with ⟨_, beaten⟩ | ⟨b, first, _, held⟩
    · rw [beaten a member] at better
      contradiction
    · exact ⟨b, first, held⟩
  · rintro d rfl beaten
    rcases champion_single fresh (single d rfl) with ⟨same, _⟩ | ⟨b, first, better, _⟩
    · exact same
    · rw [beaten b first.mem] at better
      contradiction

end Differential

open Metaheuristic.Differential (champion)

variable [RandomSource ρ α] {directions : List Direction}

namespace Run

variable {problem : Problem α} {config : Config α} {round : Nat} {progress : Progress}
  {settings : Differential.Settings α} {run run' : Run ρ α} {row : Nat} {initial : Block α}

/-- What a row of a run has settled on is made of its trials; after an evaluation the last of
them is still to be compared. -/
def Decided (directions : List Direction) (row : Nat) (initial : Block α) :
    Phase → Run ρ α → Prop
  | .evaluated, run => ∃ r earlier, run.population.rows[row]? = some r ∧
      run.ledger.trials row = earlier ++ [r.trial.agent] ∧
      run.Incumbent row (champion directions initial earlier)
  | .ready, run | .settled, run =>
    run.Incumbent row (champion directions initial (run.ledger.trials row))

omit [RandomSource ρ α] in
theorem Decided.evaluate (decided : Decided directions row initial .ready run)
    (sized : run.population.Sized (problem.layout config.algorithm) config.agents)
    (ran : (evaluate problem round progress).run.run run = (.ok (), run')) :
    Decided directions row initial .evaluated run' := by
  obtain ⟨_, same, _, _, entered⟩ := evaluate_trials sized ran
  have held : run'.Incumbent row _ := Run.Incumbent.congr decided same
  obtain ⟨r, place, _⟩ := held.exists_row
  exact ⟨r, _, place, entered row r place, held⟩

/-- An update compares every row with its trial, and enters nothing. -/
theorem settle_rows (algorithm : run.strategy.algorithm = .differential settings)
    (phases : config.algorithm.twoPhase = true)
    (sized : run.population.Sized (problem.layout config.algorithm) config.agents)
    (ran : (settle problem progress).run.run run = (.ok (), run')) :
    run'.population.rows = run.population.rows.map (Row.settled problem.directions) ∧
      run'.ledger = run.ledger := by
  obtain ⟨strategy, population, random, drawn, rfl⟩ := settle_ok ran
  have settles : Draw.Yields
      (run.strategy.settle problem.directions progress run.population : Draw ρ _)
      fun x => x.2.rows = run.population.rows.map (Row.settled problem.directions) := by
    cases state : run.strategy with
    | differential s =>
      exact (Draw.Yields.ofExcept fun x ran => Differential.settle_rows phases sized ran).bind
        fun x rows => .pure rows
    | genetic s | annealing s | tabu s | greyWolf s =>
      rw [state] at algorithm
      cases algorithm
  exact ⟨settles _ _ random trivial drawn, rfl⟩

omit [RandomSource ρ α] in
theorem Incumbent.replaced {r : Row α} {now : Block α} (held : run.Incumbent row now)
    (place : run.population.rows[row]? = some r)
    (rows : run'.population.rows = run.population.rows.map (Row.settled directions)) :
    run'.Incumbent row (Differential.replace directions now r.trial) := by
  obtain ⟨_, place', incumbent⟩ := held.exists_row
  cases place.symm.trans place'
  have settled : run'.population.rows[row]? = some (r.settled directions) := by
    rw [rows, List.getElem?_map, place, Option.map_some]
  exact .of_row settled (by rw [Row.settled, incumbent, Option.map_some])

omit [RandomSource ρ α] in
theorem Decided.settle (decided : Decided directions row initial .evaluated run)
    (rows : run'.population.rows = run.population.rows.map (Row.settled directions))
    (ledger : run'.ledger = run.ledger) : Decided directions row initial .settled run' := by
  obtain ⟨r, earlier, place, trials, held⟩ := decided
  show Incumbent _ _ (champion directions initial (run'.ledger.trials row))
  rw [ledger, trials, Differential.champion_append, Block.block_agent]
  exact held.replaced place rows

/-- In the beginning every row has settled on something unevaluated. -/
theorem start_incumbent {passes : Nat} {random : ρ} (phases : config.algorithm.twoPhase = true)
    (ran : start problem config passes random = .ok run) (held : run.Incumbent row initial) :
    initial.rewards = problem.directions.map Direction.worst := by
  obtain ⟨population, drawn, rfl⟩ := map_ok.mp ran
  have fresh : Draw.Yields (Population.draw (problem.layout config.algorithm)
      problem.directions config.agents : Draw ρ _) _ := Population.draw_fresh _ _ _
  obtain ⟨r, place, incumbent⟩ := held.exists_row
  obtain ⟨genes, rfl⟩ := fresh _ _ _ trivial (Prod.ext drawn rfl) r (List.mem_of_getElem? place)
  have two : (problem.layout config.algorithm).twoPhase = true := phases
  rw [Population.freshRow, if_pos two] at incumbent
  cases incumbent
  rfl

end Run

namespace Repeat

variable {r : Repeat ρ α} {i k : Nat} {phase : Phase} {run first : Run ρ α}
  {settings : Differential.Settings α} {row : Nat} {initial : Block α}

section Steps

variable (accepted : r.problem.Accepted r.config)
  (evolution : r.config.algorithm = .differential settings)

include accepted evolution

theorem keeps_decided : r.Keeps (Run.Decided r.problem.directions row initial) where
  evaluate before decided ran := decided.evaluate before.sound.sized ran
  settle before decided ran := by
    obtain ⟨rows, ledger⟩ := Run.settle_rows ((before.algorithm accepted).trans evolution)
      (by rw [evolution]; rfl) before.sound.sized ran
    exact decided.settle rows ledger
  vary before decided ran := by
    obtain ⟨same, ledger⟩ :=
      Run.vary_incumbents (before.algorithm accepted) (by rw [evolution]; rfl) ran
    show Run.Incumbent _ _ (champion _ initial (Ledger.trials _ row))
    rw [ledger]
    exact Run.Incumbent.congr decided same

theorem Reached.decided (started : Run.start r.problem r.config r.passes r.random = .ok first)
    (held : first.Incumbent row initial) (reached : r.Reached i k phase run) :
    run.Decided r.problem.directions row initial phase := by
  refine (keeps_decided accepted evolution).reached (fun run started' => ?_) reached
  cases started.symm.trans started'
  obtain ⟨population, _, rfl⟩ := map_ok.mp started
  exact held

/-- What a row has settled on between two evaluations, by all the trials that it has had. -/
theorem Reached.settlement [Scalar.LawfulOrder α]
    (started : Run.start r.problem r.config r.passes r.random = .ok first)
    (reached : r.Reached i k phase run) (decided : phase ≠ .evaluated)
    (below : row < r.config.agents) : ∃ initial now, first.Incumbent row initial ∧
      initial.rewards = r.problem.directions.map Direction.worst ∧ run.Incumbent row now ∧
      Differential.Settlement r.problem.directions (run.ledger.trials row) initial now := by
  have phases : r.config.algorithm.twoPhase = true := by
    rw [evolution]
    rfl
  obtain ⟨initial, held⟩ := (Run.start_sound started).exists_incumbent phases below
  have fresh := Run.start_incumbent phases started held
  have now : run.Incumbent row (champion r.problem.directions initial (run.ledger.trials row)) := by
    have folded := reached.decided accepted evolution started held
    cases phase with
    | evaluated => contradiction
    | ready | settled => exact folded
  refine ⟨initial, _, held, fresh, now,
    Differential.settlement fresh fun d objective a member => ?_⟩
  exact (reached.sound.told.assessed a (Ledger.mem_log_of_mem_trials member)).single objective

/-- An update replaces what a row has settled on by the trial that the row has just had, or
leaves it alone. -/
theorem Reached.replacement [Scalar.LawfulOrder α] (reached : r.Reached i k .ready run)
    {run' : Run ρ α} (ran : (Run.update r.problem r.round (r.progress i)
      r.config.algorithm.cycles).run.run run = (.ok (), run'))
    (below : row < r.config.agents) : ∃ before trial after, run.Incumbent row before ∧
      run'.Incumbent row after ∧ run'.ledger.trials row = run.ledger.trials row ++ [trial] ∧
      Differential.Replacement r.problem.directions before trial after := by
  have phases : r.config.algorithm.twoPhase = true := by
    rw [evolution]
    rfl
  have once : r.config.algorithm.cycles = 1 := by
    rw [evolution]
    rfl
  rw [once] at ran
  obtain ⟨_, middle, evaluated, ran⟩ := run_bind_ok ran
  obtain ⟨_, last, settled, ran⟩ := run_bind_ok ran
  cases ran
  have reached' := reached.evaluate evaluated
  obtain ⟨before, held⟩ := reached.sound.exists_incumbent phases below
  obtain ⟨_, same, _, _, entered⟩ := Run.evaluate_trials reached.sound.sized evaluated
  have kept : middle.Incumbent row before := held.congr same
  obtain ⟨r', place, incumbent⟩ := kept.exists_row
  obtain ⟨rows, ledger⟩ := Run.settle_rows ((reached'.algorithm accepted).trans evolution) phases
    reached'.sound.sized settled
  have sized := reached'.sound.sized.rows row r' place
  exact ⟨before, r'.trial.agent, _, held, kept.replaced place rows,
    ledger ▸ entered row r' place,
    Differential.replacement sized.trial.rewards (sized.incumbent before incumbent).rewards⟩

end Steps

end Repeat

namespace Search

variable [Scalar.LawfulOrder α] {problem : Problem α} {config : Config α} {model : Model α}
  {settings : Differential.Settings α}

/-- Differential evolution settles on the best trial of every row.

Between two evaluations every row has had one trial for each evaluation, and what it has settled
on is made of these trials and its initial block. With one objective it is the first trial with
the best reward if any trial is better than the worst value, and else the initial block; with
several it is the initial block or one of the trials. An update puts the trial that a row has just
had in the place of what the row had settled on, or changes nothing there. What it puts there is
worse in no objective, and with several objectives it dominates. Whatever a row holds and does,
an update makes the same of every other row. -/
theorem incumbents_are_best_trials
    (made : Problem.make model config.penaltyCoefficient = .ok problem)
    (valid : config.validate = .ok ())
    (fitting : config.algorithm.validateFor config.agents problem.schema.objectives = .ok ())
    (evolution : config.algorithm = .differential settings)
    (round passes : Nat) (random : ρ) :
    let r : Repeat ρ α := ⟨problem, config, round, passes, random⟩
    ∃ first, Run.start problem config passes random = .ok first ∧
      (∀ i k phase run, r.Reached i k phase run → phase ≠ .evaluated → ∀ row < config.agents,
        (run.ledger.trials row).length = i * config.algorithm.cycles + k + phase.evaluations ∧
        ∃ initial now, first.Incumbent row initial ∧
          initial.rewards = problem.directions.map Direction.worst ∧ run.Incumbent row now ∧
          Differential.Settlement problem.directions (run.ledger.trials row) initial now) ∧
      (∀ i k run run', r.Reached i k .ready run →
        (Run.update problem round (r.progress i) config.algorithm.cycles).run.run run =
          (.ok (), run') → ∀ row < config.agents,
        ∃ before trial after, run.Incumbent row before ∧ run'.Incumbent row after ∧
          run'.ledger.trials row = run.ledger.trials row ++ [trial] ∧
          Differential.Replacement problem.directions before trial after) ∧
      ∀ (p q : Population α) (s t : Differential.State α) x y,
        p.Sized (problem.layout config.algorithm) config.agents →
        q.Sized (problem.layout config.algorithm) config.agents →
        Differential.settle problem.directions s p = .ok x →
        Differential.settle problem.directions t q = .ok y →
        ∀ row : Nat, p.rows[row]? = q.rows[row]? → x.2.rows[row]? = y.2.rows[row]? := by
  intro r
  have accepted := Problem.accepted made valid fitting
  have phases : config.algorithm.twoPhase = true := by
    rw [evolution]
    rfl
  obtain ⟨first, started, _⟩ := Run.exists_start problem config passes random
  refine ⟨first, started, fun i k phase run reached decided row below => ⟨?_, ?_⟩, ?_, ?_⟩
  · exact reached.length_trials below
  · exact reached.settlement accepted evolution started decided below
  · exact fun i k run run' reached ran row below =>
      reached.replacement accepted evolution ran below
  · exact fun p q s t x y sized sized' ran ran' row agree =>
      Differential.settle_frame phases sized sized' ran ran' agree

/-- After two iterations every row holds the better one of its two trials. -/
theorem incumbents_are_best_trials_budget :
    Problem.make Schema.budget.model budgetCrossing.penaltyCoefficient = .ok budgetProblem ∧
    budgetCrossing.validate = .ok () ∧
    budgetCrossing.algorithm.validateFor budgetCrossing.agents
      budgetProblem.schema.objectives = .ok () ∧
    budgetCrossing.algorithm = .differential .default ∧
    ∃ run, (⟨budgetProblem, budgetCrossing, 0, 0, RandomSource.ofSeed 7⟩ :
        Repeat (Generator Float) Float).Reached 1 0 .settled run ∧
      ∀ row < 4, (run.ledger.trials row).length = 2 ∧
        ∃ a, Record.FirstBest .maximize (run.ledger.trials row) a ∧ run.Incumbent row a.block := by
  have made : Problem.make Schema.budget.model budgetCrossing.penaltyCoefficient =
      .ok budgetProblem := budget_made
  have valid : budgetCrossing.validate = .ok () := by rfl
  have fitting : budgetCrossing.algorithm.validateFor budgetCrossing.agents
      budgetProblem.schema.objectives = .ok () := by rfl
  refine ⟨made, valid, fitting, rfl, ?_⟩
  obtain ⟨⟨outcome, passes⟩, attempted, seen⟩ := exists_ok_of_any
    (x := attempt budgetProblem budgetCrossing 0 0 (RandomSource.ofSeed 7 : Generator Float))
    (P := fun r => r.1.toOption.any fun o =>
      o.log.all fun a => Direction.maximize.isBetter a.leading Direction.maximize.worst)
    (by decide +kernel)
  cases outcome with
  | error cause => cases seen
  | ok o =>
    simp only [Except.toOption, Option.any_some, List.all_eq_true] at seen
    obtain ⟨run, reached, _, log, _⟩ := attempt_reached (active_of_valid valid fitting) attempted
    obtain ⟨first, _, settled, _⟩ := incumbents_are_best_trials made valid fitting rfl 0 0
      (RandomSource.ofSeed 7 : Generator Float)
    refine ⟨run, reached, fun row below => ?_⟩
    obtain ⟨length, initial, now, _, _, held, best⟩ :=
      settled _ _ _ run reached (by decide) row below
    have two : (run.ledger.trials row).length = 2 := length
    obtain ⟨a, member⟩ := List.exists_mem_of_length_pos (two ▸ Nat.two_pos)
    have better := seen a (log ▸ Ledger.mem_log_of_mem_trials member)
    obtain ⟨b, firstBest, rfl⟩ := best.found .maximize rfl ⟨a, member, better⟩
    exact ⟨two, b, firstBest, held⟩

end Search
end Metaheuristic
