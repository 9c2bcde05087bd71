import Metaheuristic.Proofs.Model.Discovery
import Metaheuristic.Proofs.Quality.Offering
import Metaheuristic.Proofs.Search.Repeats
import Metaheuristic.Proofs.Strategy.Answers

/-! The steps of a run that was accepted. Settling and varying always succeed, and an
evaluation goes as the pass of the model goes, which faults only where the model itself
stops with this fault. There is one exception: a pass that is accepted without a column for
each objective, because the model has gone on after an objective was refused, faults as its
outcome is written. What carries this from step to step is that the rows keep their sizes,
the strategy keeps its settings, its leaders are as long as the rows, and the record holds
agents with a reward for each direction. -/
namespace Metaheuristic

variable {ρ α : Type} [Scalar α]

/-- The model stops with a fault of its own, in the pass of that number over a view. -/
def Problem.Halts (problem : Problem α) (mode : Mode) (number : Nat) (view : View α)
    (cause : Fault) : Prop :=
  Pass.Halts mode problem.schema view (problem.model number) (.start view.rows.length) cause

/-- The evaluation of that number is accepted over a view with a column missing. -/
def Problem.Lacks (problem : Problem α) (number : Nat) (view : View α) : Prop :=
  ∃ e, (problem.schema.evaluate (problem.model number) view).1 = .ok e ∧
    e.objectives.length < problem.schema.objectives

/-- A model that stops at refusals lacks nothing. -/
theorem Problem.not_lacks {problem : Problem α} {number : Nat} {view : View α}
    (strict : (problem.model number).Strict) : ¬problem.Lacks number view := by
  rintro ⟨e, ran, lacks⟩
  have spans := Pass.run_spans ran (Pass.run_strict strict ran)
  exact absurd (spans.count rfl) (Nat.ne_of_lt lacks)

/-- A problem and a configuration that a search goes on with: one row at least, one gene,
one objective, and settings that were checked for them. -/
structure Problem.Accepted (problem : Problem α) (config : Config α) : Prop where
  laid : problem.schema.registry.Laid
  genes : 0 < problem.schema.genes
  directions : problem.directions = problem.schema.directions
  directed : problem.directions ≠ []
  agents : 0 < config.agents
  settings : config.algorithm.validateFor config.agents problem.directions.length = .ok ()

/-- A pass over rows of the right length faults only where the model halts. The lengths of
the variables together have to be a machine word. -/
theorem Problem.Accepted.halts {problem : Problem α} {config : Config α} {mode : Mode}
    {number : Nat} {view : View α} {cause : Fault} (accepted : problem.Accepted config)
    (roomy : problem.schema.registry.demand < wordCount)
    (uniform : ∀ row ∈ view.rows, row.length = problem.schema.genes)
    (ran : (Pass.run mode problem.schema (problem.model number) view).1 = .error (.fault cause)) :
    problem.Halts mode number view cause :=
  Pass.halts_of_run (fun v member row inside =>
    accepted.laid.exists_stretchOf roomy (uniform row inside) v member) ran

theorem Problem.accepted {problem : Problem α} {config : Config α} {model : Model α}
    (made : Problem.make model config.penaltyCoefficient = .ok problem)
    (valid : config.validate = .ok ())
    (fitting : config.algorithm.validateFor config.agents problem.schema.objectives = .ok ()) :
    problem.Accepted config := by
  obtain ⟨discovered, _, scoring⟩ := Problem.make_ok made
  obtain ⟨_, laid, genes, objectives⟩ := Schema.discover_ok discovered
  have directions : problem.directions = problem.schema.directions := by
    rw [Problem.directions, scoring]
  refine ⟨laid, genes, directions, ?_, ?_, ?_⟩
  · rw [directions]
    exact List.length_pos_iff.mp objectives
  · exact config.algorithm.agents_pos (Config.validate_ok valid).1
  · rw [directions]
    exact fitting

/-- Agents with a reward for each direction can be entered. -/
theorem Ledger.exists_enter {l : Ledger α} {ds : List Direction} {agents : List (Agent α)}
    (sized : l.record.Sized ds) (lengths : ∀ a ∈ agents, a.reward.length = ds.length)
    (latest : List α) : ∃ l', l.enter agents latest = .ok l' ∧ l'.record.Sized ds :=
  exists_bind (sized.exists_observeAll lengths) fun _ held => ⟨_, rfl, held⟩

namespace Run

/-- What every step of a run keeps. -/
structure Safe (problem : Problem α) (config : Config α) (run : Run ρ α) : Prop where
  sized : run.population.Sized (problem.layout config.algorithm) config.agents
  algorithm : run.strategy.algorithm = config.algorithm
  leaders : ∀ leader ∈ run.strategy.leaders, leader.length = problem.schema.genes
  record : run.ledger.record.Sized problem.directions

variable {problem : Problem α} {config : Config α} {round passes : Nat} {progress : Progress}
  {random : ρ} {run : Run ρ α}

omit [Scalar α] in
theorem get_run {β : Type} (f : Run ρ α → Stepping ρ α β) :
    (get >>= f).run.run run = (f run).run.run run := rfl

omit [Scalar α] in
theorem set_run {β : Type} (next : Run ρ α) (f : PUnit → Stepping ρ α β) :
    (set next >>= f).run.run run = (f ⟨⟩).run.run next := rfl

omit [Scalar α] in
theorem ofExcept_run {β γ : Type} {r : Except Fault β} {b : β} (ran : r = .ok b)
    (f : β → Stepping ρ α γ) (run : Run ρ α) :
    (ofExcept r >>= f).run.run run = (f b).run.run run := by
  rw [ran]
  rfl

omit [Scalar α] in
theorem ofDraw_run {β γ : Type} {d : Draw ρ β} {b : β} {random : ρ}
    (drawn : d.run.run run.random = (.ok b, random)) (f : β → Stepping ρ α γ) :
    (ofDraw d >>= f).run.run run = (f b).run.run { run with random := random } := by
  have answered : (ofDraw d : Stepping ρ α β).run.run run =
      (.ok b, { run with random := random }) := by
    have unfolded : (ofDraw d : Stepping ρ α β).run.run run =
        (ofExcept (d.run.run run.random).1 : Stepping ρ α β).run.run
          { run with random := (d.run.run run.random).2 } := rfl
    rw [unfolded, drawn]
    rfl
  exact run_bind_of_ok answered

omit [Scalar α] in
/-- A step has one outcome, so what a step leads to is where it has led. -/
theorem led_to {P : Run ρ α → Prop} {step : Stepping ρ α Unit} {run' : Run ρ α}
    (leads : ∃ next, step.run.run run = (.ok (), next) ∧ P next)
    (ran : step.run.run run = (.ok (), run')) : P run' := by
  obtain ⟨next, same, holds⟩ := leads
  rw [ran] at same
  cases same
  exact holds

section Evaluating

variable {view : View α} (viewed : run.population.view .trial = .ok view)

include viewed

/-- An evaluation succeeds when each of its parts does. -/
theorem evaluate_of_ok {e : Evaluation α} {population : Population α} {latest : List α}
    {agents : List (Agent α)} {ledger : Ledger α}
    (passed : (problem.schema.evaluate (problem.model run.ledger.passes) view).1 = .ok e)
    (assigned : problem.scoring.assign e run.population .trial = .ok population)
    (read : population.rewardColumn .trial 0 = .ok latest)
    (copied : population.agents .trial = .ok agents)
    (entered : run.ledger.beginPass.enter agents latest = .ok ledger) :
    (evaluate problem round progress).run.run run =
      (.ok (), { run with population := population, ledger := ledger }) := by
  rw [evaluate, get_run, ofExcept_run viewed, set_run]
  simp only [passed]
  rw [ofExcept_run assigned, ofExcept_run read, ofExcept_run copied, ofExcept_run entered]
  rfl

theorem evaluate_of_error {cause : Error α}
    (passed : (problem.schema.evaluate (problem.model run.ledger.passes) view).1 =
      .error (.error cause)) :
    (evaluate problem round progress).run.run run =
      (.error (.error (.evaluation round progress.iteration cause)),
        { run with ledger := run.ledger.beginPass }) := by
  rw [evaluate, get_run, ofExcept_run viewed, set_run]
  simp only [passed]
  rfl

theorem evaluate_of_fault {cause : Fault}
    (passed : (problem.schema.evaluate (problem.model run.ledger.passes) view).1 =
      .error (.fault cause)) :
    (evaluate problem round progress).run.run run =
      (.error (.fault cause), { run with ledger := run.ledger.beginPass }) := by
  rw [evaluate, get_run, ofExcept_run viewed, set_run]
  simp only [passed]
  rfl

theorem evaluate_of_unassigned {e : Evaluation α} {cause : Fault}
    (passed : (problem.schema.evaluate (problem.model run.ledger.passes) view).1 = .ok e)
    (unassigned : problem.scoring.assign e run.population .trial = .error cause) :
    (evaluate problem round progress).run.run run =
      (.error (.fault cause), { run with ledger := run.ledger.beginPass }) := by
  rw [evaluate, get_run, ofExcept_run viewed, set_run]
  simp only [passed, unassigned]
  rfl

end Evaluating

variable [RandomSource ρ α]

variable (problem config) in
theorem exists_start (passes : Nat) (random : ρ) :
    ∃ run, start problem config passes random = .ok run ∧ Safe problem config run := by
  have answers : Draw.Answers (Population.draw (problem.layout config.algorithm)
      problem.directions config.agents : Draw ρ (Population α)) _ :=
    Population.draw_answers config.agents rfl
  obtain ⟨population, random', drawn, sized⟩ := answers random
  refine ⟨⟨config.algorithm.strategy, population,
    .empty problem.directions config.archiveCapacity passes, random'⟩, ?_, sized, ?_, ?_, ?_⟩
  · unfold start
    simp only [drawn]
    rfl
  · cases config.algorithm <;> rfl
  · cases config.algorithm <;> nofun
  · exact Record.empty_sized _ _

section Steps

variable [Scalar.LawfulUnit α] (accepted : problem.Accepted config)
  (inRange : RandomSource.InRange ρ config.agents) (safe : Safe problem config run)

include accepted inRange safe

theorem Safe.exists_settle (progress : Progress) :
    ∃ run', (settle problem progress).run.run run = (.ok (), run') ∧ Safe problem config run' := by
  have answers : Draw.Answers
      (run.strategy.settle problem.directions progress run.population : Draw ρ _) _ :=
    Strategy.settle_answers progress inRange (safe.algorithm.symm ▸ accepted.settings)
      accepted.agents accepted.directed rfl safe.sized
  obtain ⟨⟨strategy, population⟩, random, drawn, same, sized, led⟩ := answers run.random
  refine ⟨{ run with strategy := strategy, population := population, random := random }, ?_,
    sized, same.trans safe.algorithm, led, safe.record⟩
  rw [settle, get_run, ofDraw_run drawn]
  rfl

theorem Safe.exists_vary (progress : Progress) :
    ∃ run', (vary progress).run.run run = (.ok (), run') ∧ Safe problem config run' := by
  have answers : Draw.Answers (run.strategy.vary progress run.population : Draw ρ _) _ :=
    Strategy.vary_answers progress inRange (safe.algorithm.symm ▸ accepted.settings)
      accepted.genes safe.sized safe.leaders
  obtain ⟨⟨strategy, population⟩, random, drawn, same, sized, led⟩ := answers run.random
  refine ⟨{ run with strategy := strategy, population := population, random := random }, ?_,
    sized, same.trans safe.algorithm, led, safe.record⟩
  rw [Run.vary, get_run, ofDraw_run drawn]
  rfl

end Steps

omit [RandomSource ρ α] in
/-- An evaluation goes as the pass of the model goes over the trials, unless a column is
missing. -/
theorem Safe.evaluate_cases (accepted : problem.Accepted config) (safe : Safe problem config run)
    (round : Nat) (progress : Progress) :
    ∃ view, run.population.view .trial = .ok view ∧ view.rows.length = config.agents ∧
      (∀ row ∈ view.rows, row.length = problem.schema.genes) ∧
      ((∃ e run', (problem.schema.evaluate (problem.model run.ledger.passes) view).1 = .ok e ∧
          e.Spans .evaluate config.agents problem.schema.objectives ∧
          (evaluate problem round progress).run.run run = (.ok (), run') ∧
          Safe problem config run') ∨
        (∃ cause run', (problem.schema.evaluate (problem.model run.ledger.passes) view).1 =
            .error (.error cause) ∧
          (evaluate problem round progress).run.run run =
            (.error (.error (.evaluation round progress.iteration cause)), run')) ∨
        (∃ cause run', (problem.schema.evaluate (problem.model run.ledger.passes) view).1 =
            .error (.fault cause) ∧
          (evaluate problem round progress).run.run run = (.error (.fault cause), run')) ∨
        ∃ run', problem.Lacks run.ledger.passes view ∧
          (evaluate problem round progress).run.run run = (.error (.fault .outOfRange), run')) := by
  obtain ⟨view, viewed⟩ := safe.sized.exists_view .trial
  obtain ⟨_, rows, _⟩ := Population.view_ok safe.sized viewed
  refine ⟨view, viewed, rows, safe.sized.view_uniform viewed, ?_⟩
  cases passed : (problem.schema.evaluate (problem.model run.ledger.passes) view).1 with
  | error failure =>
    cases failure with
    | error cause => exact .inr (.inl ⟨cause, _, rfl, evaluate_of_error viewed passed⟩)
    | fault cause => exact .inr (.inr (.inl ⟨cause, _, rfl, evaluate_of_fault viewed passed⟩))
  | ok e =>
    obtain ⟨penalty, columns, counted⟩ := Pass.run_delivers passed
    rw [rows] at penalty columns
    have objectives : problem.schema.objectives = (problem.layout config.algorithm).objectives :=
      (congrArg List.length accepted.directions).symm
    rcases Nat.lt_or_eq_of_le (counted rfl ▸ Nat.le_add_right e.objectives.length _)
      with lacks | full
    · have unassigned := Scoring.assign_lacking safe.sized rfl penalty columns accepted.agents
        (objectives ▸ lacks) .trial
      exact .inr (.inr (.inr ⟨_, ⟨e, passed, lacks⟩, evaluate_of_unassigned viewed passed unassigned⟩))
    have spans : e.Spans .evaluate config.agents problem.schema.objectives :=
      ⟨penalty, columns, fun _ => full⟩
    obtain ⟨population, assigned, sized⟩ :=
      Scoring.exists_assign safe.sized rfl (objectives ▸ spans) .trial
    obtain ⟨latest, read⟩ := sized.exists_rewardColumn (k := 0)
      (List.length_pos_iff.mpr accepted.directed) .trial
    obtain ⟨agents, copied, _, lengths⟩ := sized.exists_agents .trial
    obtain ⟨ledger, entered, held⟩ := Ledger.exists_enter (l := run.ledger.beginPass)
      safe.record (fun a member => (lengths a member).2) latest
    exact .inl ⟨e, { run with population := population, ledger := ledger }, rfl, spans,
      evaluate_of_ok viewed passed assigned read copied entered, sized, safe.algorithm,
      safe.leaders, held⟩

omit [RandomSource ρ α] in
theorem Safe.evaluated {run' : Run ρ α} (accepted : problem.Accepted config)
    (safe : Safe problem config run)
    (ran : (evaluate problem round progress).run.run run = (.ok (), run')) :
    Safe problem config run' := by
  obtain ⟨view, _, _, _, cases⟩ := safe.evaluate_cases accepted round progress
  rcases cases with ⟨e, after, _, _, same, kept⟩ | ⟨cause, after, _, same⟩ |
    ⟨cause, after, _, same⟩ | ⟨after, _, same⟩
  · rw [ran] at same
    cases same
    exact kept
  · rw [ran] at same
    cases same
  · rw [ran] at same
    cases same
  · rw [ran] at same
    cases same

end Run
end Metaheuristic
