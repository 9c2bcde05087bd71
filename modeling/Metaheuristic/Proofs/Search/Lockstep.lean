import Metaheuristic.Proofs.Search.Reached
import Metaheuristic.Proofs.Strategy.Settings

/-! Two repeats in lockstep. A pure model answers the same rows alike in whatever pass, so a
repeat does not depend on how many passes were begun before it. Nor does it depend on what a
configuration says about other repeats and, for the algorithms that do not look at it, on the
budget: there every step does the same under both configurations. -/
namespace Metaheuristic

variable {ρ α : Type}

/-- A script whose lines take place in every pass makes a pure model. -/
theorem Script.pure_model [Scalar α] {script : Script α}
    (always : ∀ line ∈ script, line.isUnconditional = true) : script.model.Pure := by
  have same (i j : Nat) : script.program i = script.program j := by
    induction script with
    | nil => rfl
    | cons line rest ih =>
      obtain ⟨first, later⟩ := List.forall_mem_cons.mp always
      funext env
      rw [program, program, if_pos first, if_pos first, ih later]
  exact fun i j => congrFun (same i j) []

/-- The run as it is after another number of evaluation passes. -/
def Run.withPasses (run : Run ρ α) (passes : Nat) : Run ρ α :=
  { run with ledger := { run.ledger with passes := passes } }

section Stepping

variable {β γ : Type} {a : Algorithm α}

/-- How two steps end that are in lockstep: with the same answer or the same failure, in runs
of an algorithm that differ in the passes before them at most. -/
def Alike (a : Algorithm α) (ended ended' : Except (Failure α) β × Run ρ α) : Prop :=
  ended.2.strategy.algorithm = a ∧ ∃ passes, ended' = (ended.1, ended.2.withPasses passes)

/-- Steps that end alike from all runs of an algorithm that differ in the passes before them
at most. -/
def Lockstep (a : Algorithm α) (step step' : Stepping ρ α β) : Prop :=
  ∀ run passes, run.strategy.algorithm = a →
    Alike a (step.run.run run) (step'.run.run (run.withPasses passes))

namespace Lockstep

theorem pure (b : β) : Lockstep a (Pure.pure b : Stepping ρ α β) (Pure.pure b) :=
  fun _ passes carries => ⟨carries, passes, rfl⟩

theorem bind {step step' : Stepping ρ α β} {next next' : β → Stepping ρ α γ}
    (first : Lockstep a step step') (second : ∀ b, Lockstep a (next b) (next' b)) :
    Lockstep a (step >>= next) (step' >>= next') := by
  intro run passes carries
  obtain ⟨carried, middle, begun⟩ := first run passes carries
  have unfolded : (step >>= next).run.run run =
      (ExceptT.bindCont next (step.run.run run).1).run (step.run.run run).2 := rfl
  have unfolded' : (step' >>= next').run.run (run.withPasses passes) =
      (ExceptT.bindCont next' (step'.run.run (run.withPasses passes)).1).run
        (step'.run.run (run.withPasses passes)).2 := rfl
  rw [unfolded, unfolded', begun]
  cases (step.run.run run).1 with
  | error failure => exact ⟨carried, middle, rfl⟩
  | ok b => exact second b _ middle carried

/-- What one side answers in lockstep the other one answers too. -/
theorem ok {step step' : Stepping ρ α β} (together : Lockstep a step step') {run run' : Run ρ α}
    {b : β} (carries : run.strategy.algorithm = a) (passes : Nat)
    (ran : step.run.run run = (.ok b, run')) :
    ∃ passes', step'.run.run (run.withPasses passes) = (.ok b, run'.withPasses passes') ∧
      run'.strategy.algorithm = a := by
  obtain ⟨carried, passes', ended⟩ := together run passes carries
  rw [ran] at carried ended
  exact ⟨passes', ended, carried⟩

theorem ok_back {step step' : Stepping ρ α β} (together : Lockstep a step step')
    {run next : Run ρ α} {b : β} (carries : run.strategy.algorithm = a) {passes : Nat}
    (ran : step'.run.run (run.withPasses passes) = (.ok b, next)) :
    ∃ run' passes', step.run.run run = (.ok b, run') ∧ next = run'.withPasses passes' ∧
      run'.strategy.algorithm = a := by
  obtain ⟨carried, passes', ended⟩ := together run passes carries
  rw [ran] at ended
  obtain ⟨answer, left⟩ := Prod.mk.injEq .. ▸ ended
  exact ⟨_, passes', Prod.ext answer.symm rfl, left, carried⟩

end Lockstep
end Stepping

variable [Scalar α]

/-- Configurations under which repeats do the same. They may differ in what is said about
other repeats and, where the algorithm does not look at it, in the budget. -/
structure Config.Agrees (c c' : Config α) : Prop where
  algorithm : c'.algorithm = c.algorithm
  agents : c'.agents = c.agents
  archiveCapacity : c'.archiveCapacity = c.archiveCapacity
  recordHistory : c'.recordHistory = c.recordHistory
  budget : c'.iterations = c.iterations ∨ c.algorithm.BudgetFree

theorem Ledger.enter_passes (l : Ledger α) (agents : List (Agent α)) (latest : List α)
    (passes : Nat) : ({ l with passes := passes } : Ledger α).enter agents latest =
      (l.enter agents latest).map fun l' => { l' with passes := passes } := by
  unfold enter
  cases l.record.observeAll agents <;> rfl

namespace Run

variable {problem : Problem α} {a : Algorithm α} {c c' : Config α}

theorem evaluate_lockstep (pure : problem.model.Pure) (round : Nat) {progress progress' : Progress}
    (same : progress'.iteration = progress.iteration) :
    Lockstep a (evaluate problem round progress : Stepping ρ α Unit)
      (evaluate problem round progress') := by
  intro run passes carries
  have model : problem.model (run.withPasses passes).ledger.passes =
      problem.model run.ledger.passes := pure _ _
  have population : (run.withPasses passes).population = run.population := rfl
  rw [evaluate, get_run, evaluate, get_run, population, model]
  cases viewed : run.population.view .trial with
  | error fault => exact ⟨carries, passes, rfl⟩
  | ok view =>
    rw [ofExcept_run rfl, ofExcept_run rfl, set_run, set_run]
    dsimp only
    cases (problem.schema.evaluate (problem.model run.ledger.passes) view).1 with
    | error failure =>
      cases failure with
      | fault fault => exact ⟨carries, passes + 1, rfl⟩
      | error cause =>
        dsimp only
        rw [same]
        exact ⟨carries, passes + 1, rfl⟩
    | ok evaluation =>
      dsimp only
      cases problem.scoring.assign evaluation run.population .trial with
      | error fault => exact ⟨carries, passes + 1, rfl⟩
      | ok population =>
        rw [ofExcept_run rfl, ofExcept_run rfl]
        cases population.rewardColumn .trial 0 with
        | error fault => exact ⟨carries, passes + 1, rfl⟩
        | ok latest =>
          rw [ofExcept_run rfl, ofExcept_run rfl]
          cases population.agents .trial with
          | error fault => exact ⟨carries, passes + 1, rfl⟩
          | ok agents =>
            have entered : (run.withPasses passes).ledger.beginPass.enter agents latest = _ :=
              run.ledger.beginPass.enter_passes agents latest (passes + 1)
            rw [ofExcept_run rfl, ofExcept_run rfl, entered]
            cases run.ledger.beginPass.enter agents latest with
            | error fault => exact ⟨carries, passes + 1, rfl⟩
            | ok ledger => exact ⟨carries, passes + 1, rfl⟩

theorem statistics_lockstep (agrees : c.Agrees c') (iteration : Nat) :
    Lockstep a (statistics c iteration : Stepping ρ α (Statistics α))
      (statistics c' iteration) := by
  intro run passes carries
  have population : (run.withPasses passes).population = run.population := rfl
  rw [statistics, get_run, statistics, get_run, population, agrees.algorithm]
  split
  · cases run.population.rewardColumn c.algorithm.incumbent 0 with
    | error fault => exact ⟨carries, passes, rfl⟩
    | ok column => exact ⟨carries, passes, rfl⟩
  · exact ⟨carries, passes, rfl⟩

variable [RandomSource ρ α]

omit [Scalar α] [RandomSource ρ α] in
theorem ofDraw_fault {β : Type} {d : Draw ρ β} {run : Run ρ α} {fault : Fault} {random : ρ}
    (drawn : d.run.run run.random = (.error fault, random)) :
    (ofDraw d : Stepping ρ α β).run.run run =
      (.error (.fault fault), { run with random := random }) := by
  have unfolded : (ofDraw d : Stepping ρ α β).run.run run =
      (ofExcept (d.run.run run.random).1 : Stepping ρ α β).run.run
        { run with random := (d.run.run run.random).2 } := rfl
  rw [unfolded, drawn]
  rfl

/-- Settling is drawing a strategy and a population. -/
theorem settle_eq (progress : Progress) (run : Run ρ α) :
    (settle problem progress).run.run run =
      match (run.strategy.settle problem.directions progress run.population : Draw ρ _).run.run
          run.random with
      | (.ok (strategy, population), random) =>
        (.ok (), { run with strategy := strategy, population := population, random := random })
      | (.error fault, random) => (.error (.fault fault), { run with random := random }) := by
  rw [settle, get_run]
  cases drawn : (run.strategy.settle problem.directions progress run.population :
      Draw ρ _).run.run run.random with
  | mk result random =>
    cases result with
    | error fault => exact run_bind_of_error (ofDraw_fault drawn)
    | ok kept => exact ofDraw_run drawn _

theorem vary_eq (progress : Progress) (run : Run ρ α) :
    (vary progress).run.run run =
      match (run.strategy.vary progress run.population : Draw ρ _).run.run run.random with
      | (.ok (strategy, population), random) =>
        (.ok (), { run with strategy := strategy, population := population, random := random })
      | (.error fault, random) => (.error (.fault fault), { run with random := random }) := by
  rw [vary, get_run]
  cases drawn : (run.strategy.vary progress run.population : Draw ρ _).run.run run.random with
  | mk result random =>
    cases result with
    | error fault => exact run_bind_of_error (ofDraw_fault drawn)
    | ok kept => exact ofDraw_run drawn _

variable (agrees : c.Agrees c')

include agrees

theorem settle_lockstep (iteration : Nat) :
    Lockstep c.algorithm (settle problem ⟨iteration, c.iterations⟩ : Stepping ρ α Unit)
      (settle problem ⟨iteration, c'.iterations⟩) := by
  intro run passes carries
  have same : (run.strategy.settle problem.directions ⟨iteration, c'.iterations⟩ run.population :
      Draw ρ _) = run.strategy.settle problem.directions ⟨iteration, c.iterations⟩
        run.population := by
    rcases agrees.budget with equal | free
    · rw [equal]
    · exact Strategy.settle_budget (carries ▸ free) problem.directions iteration _ _
  have kept : Draw.Yields (run.strategy.settle problem.directions ⟨iteration, c.iterations⟩
      run.population : Draw ρ _) _ :=
    Strategy.settle_algorithm problem.directions ⟨iteration, c.iterations⟩ run.strategy
  have aside : (settle problem ⟨iteration, c'.iterations⟩).run.run (run.withPasses passes) = _ :=
    settle_eq ⟨iteration, c'.iterations⟩ (run.withPasses passes)
  have strategy : (run.withPasses passes).strategy = run.strategy := rfl
  have population : (run.withPasses passes).population = run.population := rfl
  have random : (run.withPasses passes).random = run.random := rfl
  rw [strategy, population, random, same] at aside
  rw [aside, settle_eq]
  cases drawn : (run.strategy.settle problem.directions ⟨iteration, c.iterations⟩ run.population :
      Draw ρ _).run.run run.random with
  | mk result random =>
    cases result with
    | error fault => exact ⟨carries, passes, rfl⟩
    | ok after => exact ⟨(kept run.random after random trivial drawn).trans carries, passes, rfl⟩

theorem vary_lockstep (iteration : Nat) :
    Lockstep c.algorithm (vary ⟨iteration, c.iterations⟩ : Stepping ρ α Unit)
      (vary ⟨iteration, c'.iterations⟩) := by
  intro run passes carries
  have same : (run.strategy.vary ⟨iteration, c'.iterations⟩ run.population : Draw ρ _) =
      run.strategy.vary ⟨iteration, c.iterations⟩ run.population := by
    rcases agrees.budget with equal | free
    · rw [equal]
    · exact Strategy.vary_budget (carries ▸ free) iteration _ _
  have kept : Draw.Yields (run.strategy.vary ⟨iteration, c.iterations⟩ run.population :
      Draw ρ _) _ := Strategy.vary_algorithm ⟨iteration, c.iterations⟩ run.strategy
  have aside : (vary ⟨iteration, c'.iterations⟩).run.run (run.withPasses passes) = _ :=
    vary_eq ⟨iteration, c'.iterations⟩ (run.withPasses passes)
  have strategy : (run.withPasses passes).strategy = run.strategy := rfl
  have population : (run.withPasses passes).population = run.population := rfl
  have random : (run.withPasses passes).random = run.random := rfl
  rw [strategy, population, random, same] at aside
  rw [aside, vary_eq]
  cases drawn : (run.strategy.vary ⟨iteration, c.iterations⟩ run.population :
      Draw ρ _).run.run run.random with
  | mk result random =>
    cases result with
    | error fault => exact ⟨carries, passes, rfl⟩
    | ok after => exact ⟨(kept run.random after random trivial drawn).trans carries, passes, rfl⟩

variable (pure : problem.model.Pure) (round : Nat)

include pure

theorem cycles_lockstep (iteration n : Nat) :
    Lockstep c.algorithm (cycles problem round ⟨iteration, c.iterations⟩ n : Stepping ρ α Unit)
      (cycles problem round ⟨iteration, c'.iterations⟩ n) := by
  induction n with
  | zero => exact .pure ()
  | succ n ih =>
    exact (vary_lockstep agrees iteration).bind fun _ =>
      (evaluate_lockstep pure round rfl).bind fun _ =>
        (settle_lockstep agrees iteration).bind fun _ => ih

theorem update_lockstep (iteration count : Nat) :
    Lockstep c.algorithm (update problem round ⟨iteration, c.iterations⟩ count : Stepping ρ α Unit)
      (update problem round ⟨iteration, c'.iterations⟩ count) := by
  cases count with
  | zero => exact .pure ()
  | succ n =>
    exact (evaluate_lockstep pure round rfl).bind fun _ =>
      (settle_lockstep agrees iteration).bind fun _ => cycles_lockstep agrees pure round iteration n

omit pure [RandomSource ρ α] in
theorem recording_lockstep (iteration : Nat) :
    Lockstep a (recording c iteration : Stepping ρ α (List (Statistics α)))
      (recording c' iteration) := by
  unfold recording
  rw [agrees.recordHistory]
  split
  · exact (statistics_lockstep agrees iteration).bind fun s => .pure [s]
  · exact .pure []

omit pure in
theorem between_lockstep (left iteration : Nat) :
    Lockstep c.algorithm (between c left iteration : Stepping ρ α Unit)
      (between c' left iteration) := by
  unfold between
  split
  · exact .pure ()
  · exact vary_lockstep agrees iteration

theorem iterate_lockstep (left iteration : Nat) :
    Lockstep c.algorithm
      (iterate problem c round left iteration : Stepping ρ α (List (Statistics α)))
      (iterate problem c' round left iteration) := by
  induction left generalizing iteration with
  | zero => exact .pure []
  | succ left ih =>
    rw [iterate_succ, iterate_succ, agrees.algorithm]
    refine (update_lockstep agrees pure round iteration _).bind fun _ => ?_
    refine (recording_lockstep agrees iteration).bind fun entry => ?_
    refine (between_lockstep agrees left iteration).bind fun _ => ?_
    exact (ih (iteration + 1)).bind fun rest => .pure (entry ++ rest)

omit pure in
variable (problem) in
theorem start_lockstep (passes passes' : Nat) (random : ρ) :
    start problem c' passes' random =
      (start problem c passes random).map fun run => run.withPasses passes' := by
  unfold start
  rw [agrees.algorithm, agrees.agents, agrees.archiveCapacity]
  dsimp only
  cases (Population.draw (problem.layout c.algorithm) problem.directions c.agents :
      Draw ρ _).run.run random with
  | mk result source => cases result <;> rfl

omit agrees pure in
theorem start_algorithm {passes : Nat} {random : ρ} {run : Run ρ α}
    (started : start problem c passes random = .ok run) : run.strategy.algorithm = c.algorithm := by
  obtain ⟨population, _, rfl⟩ := map_ok.mp started
  cases c.algorithm <;> rfl

end Run

namespace Search

variable [RandomSource ρ α] {problem : Problem α} {c c' : Config α}

omit [Scalar α] [RandomSource ρ α] in
/-- The number of passes is handed over apart from all else. -/
theorem handOver_withPasses (result : Except (Failure α) (List (Statistics α))) (run : Run ρ α)
    (passes : Nat) :
    (handOver (result, run.withPasses passes)).map Prod.fst =
      (handOver (result, run)).map Prod.fst := by
  cases result with
  | ok history => rfl
  | error failure => cases failure <;> rfl

/-- What comes of a repeat does not depend on the passes before it, nor on what its
configuration says about other repeats. -/
theorem attempt_lockstep (pure : problem.model.Pure) (agrees : c.Agrees c')
    (budget : c'.iterations = c.iterations) (round passes passes' : Nat) (random : ρ) :
    (attempt problem c' round passes' random).map Prod.fst =
      (attempt problem c round passes random).map Prod.fst := by
  have beside := Run.start_lockstep problem agrees passes passes' random
  cases started : Run.start problem c passes random with
  | error fault =>
    rw [started] at beside
    rw [attempt_eq_error round started, attempt_eq_error round beside]
  | ok run =>
    rw [started] at beside
    obtain ⟨_, last, ended⟩ := Run.iterate_lockstep agrees pure round c.iterations 0 run passes'
      (Run.start_algorithm started)
    rw [attempt_eq round started, attempt_eq round beside, budget, ended]
    cases (Run.iterate problem c round c.iterations 0).run.run run with
    | mk result run' => exact handOver_withPasses result run' last

omit [Scalar α] [RandomSource ρ α] in
/-- Sequences whose steps agree in what they answer, apart from a second component. -/
private theorem bind_fst {ε β β' γ γ' : Type} {x x' : Except ε (β × β')}
    {f f' : β × β' → Except ε (γ × γ')} (first : x'.map Prod.fst = x.map Prod.fst)
    (rest : ∀ b n n', (f' (b, n')).map Prod.fst = (f (b, n)).map Prod.fst) :
    (x' >>= f').map Prod.fst = (x >>= f).map Prod.fst := by
  cases x with
  | error e =>
    cases x' with
    | error e' =>
      cases first
      rfl
    | ok pair' => cases first
  | ok pair =>
    cases x' with
    | error e' => cases first
    | ok pair' =>
      obtain ⟨b, n⟩ := pair
      obtain ⟨b', n'⟩ := pair'
      cases first
      exact rest b n n'

/-- Neither do the outcomes of repeats one after the other. -/
theorem attempts_lockstep (pure : problem.model.Pure) (agrees : c.Agrees c')
    (budget : c'.iterations = c.iterations) (round passes passes' : Nat) (seeds : List UInt64) :
    (attempts ρ problem c' round passes' seeds).map Prod.fst =
      (attempts ρ problem c round passes seeds).map Prod.fst := by
  induction seeds generalizing round passes passes' with
  | nil => rfl
  | cons seed seeds ih =>
    rw [attempts, attempts]
    refine bind_fst (attempt_lockstep pure agrees budget round passes passes' _) ?_
    intro outcome middle middle'
    exact bind_fst (ih (round + 1) middle middle') fun rest last last' => rfl

end Search
end Metaheuristic
