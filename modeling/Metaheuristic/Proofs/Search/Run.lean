import Metaheuristic.Proofs.Population.Evaluated
import Metaheuristic.Proofs.Strategy.Sized
import Metaheuristic.Search.Run

/-! The steps of a run: what each of them changes, and how what they preserve
carries over to all iterations. A run goes through three phases, ready for an
evaluation, evaluated, and settled; only an evaluation touches the ledger. -/
namespace Metaheuristic.Run

variable {ρ α : Type}

theorem ofExcept_ok {β γ : Type} {r : Except Fault β} {f : β → Stepping ρ α γ}
    {run run' : Run ρ α} {c : γ} (ran : (ofExcept r >>= f).run.run run = (.ok c, run')) :
    ∃ b, r = .ok b ∧ (f b).run.run run = (.ok c, run') := by
  cases r with
  | error cause => cases ran
  | ok b => exact ⟨b, rfl, ran⟩

theorem ofDraw_ok {β γ : Type} {d : Draw ρ β} {f : β → Stepping ρ α γ} {run run' : Run ρ α}
    {c : γ} (ran : (ofDraw d >>= f).run.run run = (.ok c, run')) :
    ∃ b random, d.run.run run.random = (.ok b, random) ∧
      (f b).run.run { run with random := random } = (.ok c, run') := by
  obtain ⟨b, middle, drawn, rest⟩ := run_bind_ok ran
  obtain ⟨_, _, got, step⟩ := run_bind_ok drawn
  cases got
  obtain ⟨_, _, put, result⟩ := run_bind_ok step
  cases put
  cases answer : (d run.random).1 with
  | error cause =>
    rw [answer] at result
    cases result
  | ok x =>
    rw [answer] at result
    cases result
    exact ⟨_, _, Prod.ext answer rfl, rest⟩

/-- What comes after a result that can only fault fails on its own. -/
theorem ofExcept_error {β γ : Type} {r : Except Fault β} {f : β → Stepping ρ α γ}
    {run run' : Run ρ α} {cause : Error α}
    (ran : (ofExcept r >>= f).run.run run = (.error (.error cause), run')) :
    ∃ b, r = .ok b ∧ (f b).run.run run = (.error (.error cause), run') := by
  cases r with
  | error fault => cases ran
  | ok b => exact ⟨b, rfl, ran⟩

theorem ofDraw_error {β γ : Type} {d : Draw ρ β} {f : β → Stepping ρ α γ} {run run' : Run ρ α}
    {cause : Error α} (ran : (ofDraw d >>= f).run.run run = (.error (.error cause), run')) :
    ∃ b middle, (f b).run.run middle = (.error (.error cause), run') := by
  rcases run_bind_error ran with drawn | ⟨b, middle, _, rest⟩
  · obtain ⟨_, _, got, step⟩ := (run_bind_error drawn).resolve_left nofun
    cases got
    obtain ⟨_, _, put, result⟩ := (run_bind_error step).resolve_left nofun
    cases put
    cases answer : (d run.random).1 with
    | error fault =>
      rw [answer] at result
      cases result
    | ok x =>
      rw [answer] at result
      cases result
  · exact ⟨b, middle, rest⟩

variable [Scalar α] {problem : Problem α} {config : Config α} {round : Nat} {progress : Progress}
  {run run' : Run ρ α}

/-- An evaluation writes the outcome of a pass over the trials into the population
and enters the agents it then reads there. -/
theorem evaluate_ok (ran : (evaluate problem round progress).run.run run = (.ok (), run')) :
    ∃ view evaluation population latest agents ledger,
      run.population.view .trial = .ok view ∧
      (problem.schema.evaluate (problem.model run.ledger.passes) view).1 = .ok evaluation ∧
      problem.scoring.assign evaluation run.population .trial = .ok population ∧
      population.rewardColumn .trial 0 = .ok latest ∧
      population.agents .trial = .ok agents ∧
      run.ledger.beginPass.enter agents latest = .ok ledger ∧
      run' = { run with population := population, ledger := ledger } := by
  obtain ⟨_, _, got, ran⟩ := run_bind_ok ran
  cases got
  obtain ⟨view, viewed, ran⟩ := ofExcept_ok ran
  obtain ⟨_, _, put, ran⟩ := run_bind_ok ran
  cases put
  dsimp only at ran
  split at ran
  · cases ran
  · cases ran
  · rename_i evaluation evaluated
    obtain ⟨population, assigned, ran⟩ := ofExcept_ok ran
    obtain ⟨latest, read, ran⟩ := ofExcept_ok ran
    obtain ⟨agents, copied, ran⟩ := ofExcept_ok ran
    obtain ⟨ledger, entered, ran⟩ := ofExcept_ok ran
    cases ran
    exact ⟨view, evaluation, population, latest, agents, ledger, viewed, evaluated, assigned,
      read, copied, entered, rfl⟩

/-- An evaluation ends with an error where the pass of the model does, and says in which
repeat and in which iteration. -/
theorem evaluate_error {cause : Error α}
    (ran : (evaluate problem round progress).run.run run = (.error (.error cause), run')) :
    ∃ view source, run.population.view .trial = .ok view ∧
      (problem.schema.evaluate (problem.model run.ledger.passes) view).1 =
        .error (.error source) ∧
      cause = .evaluation round progress.iteration source ∧
      run' = { run with ledger := run.ledger.beginPass } := by
  obtain ⟨_, _, got, ran⟩ := (run_bind_error ran).resolve_left nofun
  cases got
  obtain ⟨view, viewed, ran⟩ := ofExcept_error ran
  obtain ⟨_, _, put, ran⟩ := (run_bind_error ran).resolve_left nofun
  cases put
  dsimp only at ran
  split at ran
  · rename_i source failed
    cases ran
    exact ⟨view, source, viewed, failed, rfl, rfl⟩
  · cases ran
  · obtain ⟨population, _, ran⟩ := ofExcept_error ran
    obtain ⟨latest, _, ran⟩ := ofExcept_error ran
    obtain ⟨agents, _, ran⟩ := ofExcept_error ran
    obtain ⟨ledger, _, ran⟩ := ofExcept_error ran
    cases ran

theorem statistics_not_error {iteration : Nat} {cause : Error α} :
    (statistics config iteration).run.run run ≠ (.error (.error cause), run') := by
  intro ran
  obtain ⟨_, _, got, ran⟩ := (run_bind_error ran).resolve_left nofun
  cases got
  split at ran
  · obtain ⟨column, _, ran⟩ := ofExcept_error ran
    cases ran
  · cases ran

/-- Statistics only look. -/
theorem statistics_ok {iteration : Nat} {s : Statistics α}
    (ran : (statistics config iteration).run.run run = (.ok s, run')) : run' = run := by
  obtain ⟨_, _, got, ran⟩ := run_bind_ok ran
  cases got
  split at ran
  · obtain ⟨column, _, ran⟩ := ofExcept_ok ran
    cases ran
    rfl
  · cases ran
    rfl

variable [RandomSource ρ α]

theorem settle_ok (ran : (settle problem progress).run.run run = (.ok (), run')) :
    ∃ strategy population random,
      (run.strategy.settle problem.directions progress run.population).run.run run.random =
        (.ok (strategy, population), random) ∧
      run' = { run with strategy := strategy, population := population, random := random } := by
  obtain ⟨_, _, got, ran⟩ := run_bind_ok ran
  cases got
  obtain ⟨⟨strategy, population⟩, random, drawn, ran⟩ := ofDraw_ok ran
  cases ran
  exact ⟨strategy, population, random, drawn, rfl⟩

theorem vary_ok (ran : (vary progress).run.run run = (.ok (), run')) :
    ∃ strategy population random,
      (run.strategy.vary progress run.population).run.run run.random =
        (.ok (strategy, population), random) ∧
      run' = { run with strategy := strategy, population := population, random := random } := by
  obtain ⟨_, _, got, ran⟩ := run_bind_ok ran
  cases got
  obtain ⟨⟨strategy, population⟩, random, drawn, ran⟩ := ofDraw_ok ran
  cases ran
  exact ⟨strategy, population, random, drawn, rfl⟩

theorem settle_not_error {cause : Error α} :
    (settle problem progress).run.run run ≠ (.error (.error cause), run') := by
  intro ran
  obtain ⟨_, _, got, ran⟩ := (run_bind_error ran).resolve_left nofun
  cases got
  obtain ⟨_, _, ran⟩ := ofDraw_error ran
  cases ran

theorem vary_not_error {cause : Error α} :
    (vary progress).run.run run ≠ (.error (.error cause), run') := by
  intro ran
  obtain ⟨_, _, got, ran⟩ := (run_bind_error ran).resolve_left nofun
  cases got
  obtain ⟨_, _, ran⟩ := ofDraw_error ran
  cases ran

/-- The statistics of an iteration, where they are kept. -/
def recording (config : Config α) (iteration : Nat) : Stepping ρ α (List (Statistics α)) :=
  if config.recordHistory then do return [← statistics config iteration] else return []

/-- New trials after an iteration, where more iterations are left. -/
def between (config : Config α) (left iteration : Nat) : Stepping ρ α Unit :=
  if left = 0 then return () else vary ⟨iteration, config.iterations⟩

@[simp]
theorem between_zero (config : Config α) (i : Nat) :
    between (ρ := ρ) config 0 i = Pure.pure () := if_pos rfl

@[simp]
theorem between_succ (config : Config α) (left i : Nat) :
    between (ρ := ρ) config (left + 1) i = vary ⟨i, config.iterations⟩ := if_neg nofun

/-- An iteration and those that are left after it. -/
theorem iterate_succ (problem : Problem α) (config : Config α) (round left i : Nat) :
    (iterate problem config round (left + 1) i : Stepping ρ α (List (Statistics α))) = (do
      update problem round ⟨i, config.iterations⟩ config.algorithm.cycles
      let entry ← recording config i
      between config left i
      let rest ← iterate problem config round left (i + 1)
      return entry ++ rest) := by
  rw [iterate, recording, between]
  cases config.recordHistory <;> by_cases last : left = 0 <;>
    simp only [last, if_true, if_false, ne_eq, not_true_eq_false, not_false_eq_true, bind_assoc,
      pure_bind, Bool.false_eq_true]

omit [RandomSource ρ α] in
/-- Keeping statistics changes nothing for what comes next. -/
theorem recording_keeps {P : Run ρ α → Prop} (i : Nat) :
    Ensures P (recording config i) fun _ => P := by
  unfold recording
  split
  · intro run entry run' good ran
    obtain ⟨s, middle, seen, built⟩ := run_bind_ok ran
    cases statistics_ok seen
    cases built
    exact good
  · exact .pure fun _ good => good

/-- What holds of a run in its three phases. The number is that of the iteration. -/
structure Phases (problem : Problem α) (config : Config α) (round : Nat)
    (Ready Evaluated Settled : Nat → Run ρ α → Prop) : Prop where
  evaluate : ∀ i, Ensures (Ready i) (evaluate problem round ⟨i, config.iterations⟩)
    fun _ => Evaluated i
  settle : ∀ i, Ensures (Evaluated i) (settle problem ⟨i, config.iterations⟩) fun _ => Settled i
  varyWithin : ∀ i, Ensures (Settled i) (vary ⟨i, config.iterations⟩) fun _ => Ready i
  varyAfter : ∀ i, Ensures (Settled i) (vary ⟨i, config.iterations⟩) fun _ => Ready (i + 1)

namespace Phases

variable {Ready Evaluated Settled : Nat → Run ρ α → Prop}

theorem cycles (phases : Phases problem config round Ready Evaluated Settled) (i n : Nat) :
    Ensures (Settled i) (cycles problem round ⟨i, config.iterations⟩ n) fun _ => Settled i := by
  induction n with
  | zero => exact .pure fun _ settled => settled
  | succ n ih =>
    exact (phases.varyWithin i).bind fun _ => (phases.evaluate i).bind fun _ =>
      (phases.settle i).bind fun _ => ih

theorem update (phases : Phases problem config round Ready Evaluated Settled) (i : Nat)
    {count : Nat} (positive : 0 < count) :
    Ensures (Ready i) (update problem round ⟨i, config.iterations⟩ count) fun _ => Settled i := by
  cases count with
  | zero => omega
  | succ n =>
    exact (phases.evaluate i).bind fun _ => (phases.settle i).bind fun _ => phases.cycles i n

/-- Whoever starts ready ends settled, `left` iterations later. -/
theorem iterate (phases : Phases problem config round Ready Evaluated Settled)
    (cycles : 0 < config.algorithm.cycles) (left i : Nat) :
    Ensures (Ready i) (iterate problem config round (left + 1) i)
      fun _ => Settled (i + left) := by
  induction left generalizing i with
  | zero =>
    rw [iterate_succ]
    simp only [between_zero, Run.iterate, pure_bind]
    exact (phases.update i cycles).bind fun _ => (recording_keeps i).bind fun entry =>
      Ensures.pure fun _ settled => settled
  | succ left ih =>
    have shifted : i + 1 + left = i + (left + 1) := by omega
    rw [iterate_succ, between_succ, ← shifted]
    exact (phases.update i cycles).bind fun _ => (recording_keeps i).bind fun entry =>
      (phases.varyAfter i).bind fun _ => (ih (i + 1)).bind fun rest =>
        Ensures.pure fun _ settled => settled

end Phases

end Metaheuristic.Run
