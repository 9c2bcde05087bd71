import Metaheuristic.Proofs.Random.Generator
import Metaheuristic.Proofs.Search.Faithful
import Metaheuristic.Proofs.Search.Reached
import Metaheuristic.Proofs.Search.Summary

/-! Where accepted searches fault. A repeat ends with a fault exactly where it comes to a
state in which the model stops with this fault during the evaluation, or where the model has
ignored that an objective was refused, so that a pass was accepted without its column. A
search whose model stops at refusals has no faults of its own. -/
namespace Metaheuristic

variable {ρ α : Type}

namespace Repeat

variable [Scalar α] [RandomSource ρ α]

/-- In a state before an evaluation, the model stops with this fault over the trials, or has
its pass accepted with a column missing. -/
def Blames (r : Repeat ρ α) (cause : Fault) : Prop :=
  ∃ i k run view, r.Reached i k .ready run ∧ run.population.view .trial = .ok view ∧
    (r.problem.Halts .evaluate run.ledger.passes view cause ∨
      r.problem.Lacks run.ledger.passes view ∧ cause = .outOfRange)

variable {r : Repeat ρ α} {i k : Nat} {phase : Phase} {run : Run ρ α}

variable [Scalar.LawfulUnit α]

section Steps

variable (accepted : r.problem.Accepted r.config)
  (inRange : RandomSource.InRange ρ r.config.agents)

include accepted inRange

/-- Every state that a repeat comes to is safe. -/
theorem Reached.safe (reached : r.Reached i k phase run) : Run.Safe r.problem r.config run := by
  induction reached with
  | @start run started =>
    obtain ⟨run', same, safe⟩ := Run.exists_start r.problem r.config r.passes r.random
    rw [started] at same
    cases same
    exact safe
  | @evaluate i k run run' before ran safe =>
    exact safe.evaluated accepted ran
  | @settle i k run run' before ran safe =>
    exact Run.led_to (safe.exists_settle accepted inRange (r.progress i)) ran
  | @within i k run run' before more ran safe =>
    exact Run.led_to (safe.exists_vary accepted inRange (r.progress i)) ran
  | @after i k run run' before last more ran safe =>
    exact Run.led_to (safe.exists_vary accepted inRange (r.progress i)) ran

/-- A step that faults is an evaluation, and the model is to blame for it. -/
theorem Breaks.blames {cause : Fault} (roomy : r.problem.schema.registry.demand < wordCount)
    (broken : r.Breaks (.fault cause) run) : r.Blames cause := by
  cases broken with
  | @evaluate i k run before ran =>
    obtain ⟨view, viewed, _, uniform, cases⟩ :=
      (before.safe accepted inRange).evaluate_cases accepted r.round (r.progress i)
    rcases cases with ⟨e, after, _, _, same, _⟩ | ⟨_, after, _, same⟩ | ⟨_, after, passed, same⟩ |
      ⟨after, lacks, same⟩
    · rw [ran] at same
      cases same
    · rw [ran] at same
      cases same
    · rw [ran] at same
      cases same
      exact ⟨i, k, run, view, before, viewed, .inl (accepted.halts roomy uniform passed)⟩
    · rw [ran] at same
      cases same
      exact ⟨i, k, run, view, before, viewed, .inr ⟨lacks, rfl⟩⟩
  | @settle i k run before ran =>
    obtain ⟨_, same, _⟩ :=
      (before.safe accepted inRange).exists_settle accepted inRange (r.progress i)
    rw [ran] at same
    cases same
  | @vary i k run before ran =>
    obtain ⟨_, same, _⟩ :=
      (before.safe accepted inRange).exists_vary accepted inRange (r.progress i)
    rw [ran] at same
    cases same
  | @look i k run before ran =>
    obtain ⟨_, same⟩ := before.exists_statistics accepted i
    rw [ran] at same
    cases same

/-- Where the model is to blame, the evaluation faults. -/
theorem Blames.evaluate_faults {cause : Fault} (blames : r.Blames cause) :
    ∃ i k run run', r.Reached i k .ready run ∧
      (Run.evaluate r.problem r.round (r.progress i)).run.run run =
        (.error (.fault cause), run') := by
  obtain ⟨i, k, run, view, before, viewed, halts | ⟨⟨e, passed, lacks⟩, rfl⟩⟩ := blames
  · exact ⟨i, k, run, _, before, Run.evaluate_of_fault viewed (Pass.run_of_halts halts)⟩
  · obtain ⟨view', viewed', _, _, cases⟩ :=
      (before.safe accepted inRange).evaluate_cases accepted r.round (r.progress i)
    rw [viewed] at viewed'
    cases viewed'
    rcases cases with ⟨e', _, passed', spans, _⟩ | ⟨_, _, failed, _⟩ | ⟨_, _, failed, _⟩ |
      ⟨run', _, ran⟩
    · rw [passed] at passed'
      cases passed'
      exact absurd (spans.count rfl) (Nat.ne_of_lt lacks)
    · rw [passed] at failed
      cases failed
    · rw [passed] at failed
      cases failed
    · exact ⟨i, k, run, run', before, ran⟩

end Steps

omit [Scalar.LawfulUnit α] in
/-- A model that stops at refusals is to blame only for faults of its own. -/
theorem Blames.halts {cause : Fault} (strict : ∀ number, (r.problem.model number).Strict)
    (blames : r.Blames cause) :
    ∃ number view, r.problem.Halts .evaluate number view cause := by
  obtain ⟨_, _, run, view, _, _, halts | ⟨lacks, _⟩⟩ := blames
  · exact ⟨run.ledger.passes, view, halts⟩
  · exact absurd lacks (Problem.not_lacks (strict _))

end Repeat

namespace Search

variable [Scalar α] [RandomSource ρ α] {problem : Problem α} {config : Config α} {cause : Fault}

/-- A repeat that faults has come to a state in which the model is to blame. -/
theorem attempt_fault [Scalar.LawfulUnit α] (r : Repeat ρ α)
    (accepted : r.problem.Accepted r.config)
    (inRange : RandomSource.InRange ρ r.config.agents)
    (roomy : r.problem.schema.registry.demand < wordCount) (active : Active r.config)
    (ran : attempt r.problem r.config r.round r.passes r.random = .error cause) :
    r.Blames cause := by
  obtain ⟨run, started, _⟩ := Run.exists_start r.problem r.config r.passes r.random
  obtain ⟨left, budget⟩ := Nat.exists_eq_succ_of_ne_zero (Nat.ne_of_gt active.iterations)
  have whole : 0 + left + 1 = r.config.iterations := by omega
  obtain ⟨_, broken⟩ := Repeat.leads_iterate active.cycles whole run (.start started)
  rw [attempt_eq r.round started, budget] at ran
  cases ended : (Run.iterate r.problem r.config r.round (left + 1) 0).run.run run with
  | mk result run' =>
    rw [ended] at ran
    cases result with
    | ok history => cases ran
    | error failure =>
      cases failure with
      | error cause => cases ran
      | fault fault =>
        cases ran
        exact (broken _ run' ended).blames accepted inRange roomy

/-- And a repeat that comes to such a state faults. -/
theorem attempt_of_blames [Scalar.LawfulUnit α] (r : Repeat ρ α)
    (accepted : r.problem.Accepted r.config)
    (inRange : RandomSource.InRange ρ r.config.agents) (active : Active r.config)
    (blames : r.Blames cause) :
    attempt r.problem r.config r.round r.passes r.random = .error cause := by
  obtain ⟨i, k, run, run', reached, faults⟩ := blames.evaluate_faults accepted inRange
  obtain ⟨first, kept, started, ended⟩ := reached.continues accepted active
  rw [Repeat.remaining, run_bind_of_error faults] at ended
  rw [attempt_eq r.round started, ended]
  rfl

/-- What faults in a sequence of repeats is one of them. -/
theorem attempts_fault [Scalar.LawfulUnit α] (accepted : problem.Accepted config)
    (inRange : RandomSource.InRange ρ config.agents)
    (roomy : problem.schema.registry.demand < wordCount) (active : Active config)
    {round passes : Nat} {seeds : List UInt64}
    (ran : attempts ρ problem config round passes seeds = .error cause) :
    ∃ round passes random,
      (⟨problem, config, round, passes, random⟩ : Repeat ρ α).Blames cause := by
  induction seeds generalizing round passes with
  | nil => cases ran
  | cons seed seeds ih =>
    rcases bind_error.mp ran with first | ⟨⟨outcome, middle⟩, _, ran⟩
    · exact ⟨_, _, _, attempt_fault ⟨problem, config, round, passes, RandomSource.ofSeed seed⟩
        accepted inRange roomy active first⟩
    · rcases bind_error.mp ran with later | ⟨_, _, built⟩
      · exact ih later
      · cases built

omit [RandomSource ρ α] in
/-- Checking an agent again faults only where the model halts over its chromosome. -/
theorem candidate_fault (accepted : problem.Accepted config)
    (roomy : problem.schema.registry.demand < wordCount) {passes : Nat} {a : Agent α}
    (length : a.chromosome.length = problem.schema.genes)
    (ran : candidate problem passes a = .error (.fault cause)) :
    problem.Halts .feasibility passes (View.single a.chromosome) cause := by
  have uniform : ∀ row ∈ (View.single a.chromosome).rows, row.length = problem.schema.genes := by
    intro row member
    rw [List.mem_singleton.mp member]
    exact length
  rcases bind_error.mp ran with checked | ⟨statuses, _, ran⟩
  · have passed : (Pass.run .feasibility problem.schema (problem.model passes)
        (View.single a.chromosome)).1 = .error (.fault cause) := by
      have unfolded : (problem.schema.classify (problem.model passes)
          (View.single a.chromosome)).1 = (Pass.run .feasibility problem.schema
            (problem.model passes) (View.single a.chromosome)).1.map fun e =>
              e.penalty.map (Feasibility.classify problem.schema.constraints.length) := rfl
      rw [unfolded] at checked
      revert checked
      cases (Pass.run .feasibility problem.schema (problem.model passes)
        (View.single a.chromosome)).1 with
      | error failure =>
        rintro ⟨⟩
        rfl
      | ok e => nofun
    exact accepted.halts roomy uniform passed
  · rcases bind_error.mp ran with undecoded | ⟨_, _, built⟩
    · obtain ⟨s, decoded⟩ := accepted.laid.exists_decode roomy length
      obtain ⟨_, failed, _⟩ := mapError_error.mp undecoded
      rw [Schema.decode, decoded] at failed
      cases failed
    · cases built

omit [RandomSource ρ α] in
theorem conclude_fault (accepted : problem.Accepted config)
    (roomy : problem.schema.registry.demand < wordCount) {passes : Nat} {s : Summary α}
    (lengths : ∀ a ∈ s.record.held, a.chromosome.length = problem.schema.genes)
    (ran : conclude problem config passes s = .error (.fault cause)) :
    ∃ chromosome, problem.Halts .feasibility passes (View.single chromosome) cause := by
  unfold conclude at ran
  split at ran
  · cases ran
  · rcases bind_error.mp ran with failed | ⟨_, _, built⟩
    · obtain ⟨a, member, faulted⟩ := mapM_error failed
      exact ⟨a.chromosome,
        candidate_fault accepted roomy (lengths a (Record.mem_reported.mp member)) faulted⟩
    · cases built

/-- The faults of a search that goes on: those of its repeats, and those of checking the
reported agents again. -/
theorem run_fault [Scalar.LawfulUnit α] {model : Model α} {fallback : UInt64}
    (made : Problem.make model config.penaltyCoefficient = .ok problem)
    (valid : config.validate = .ok ())
    (fitting : config.algorithm.validateFor config.agents problem.schema.objectives = .ok ())
    (inRange : RandomSource.InRange ρ config.agents)
    (roomy : problem.schema.registry.demand < wordCount)
    (ran : run ρ config fallback model = .error (.fault cause)) :
    (∃ round passes random,
      (⟨problem, config, round, passes, random⟩ : Repeat ρ α).Blames cause) ∨
    ∃ passes chromosome, problem.Halts .feasibility passes (View.single chromosome) cause := by
  have accepted := Problem.accepted made valid fitting
  have active := active_of_valid valid fitting
  rcases bind_error.mp ran with invalid | ⟨_, _, ran⟩
  · obtain ⟨_, _, ⟨⟩⟩ := mapError_error.mp invalid
  rcases bind_error.mp ran with unmade | ⟨_, same, ran⟩
  · rw [made] at unmade
    cases unmade
  rw [made] at same
  cases same
  rcases bind_error.mp ran with unfit | ⟨_, _, ran⟩
  · obtain ⟨_, _, ⟨⟩⟩ := mapError_error.mp unfit
  rcases bind_error.mp ran with faulted | ⟨⟨outcomes, passes⟩, attempted, ran⟩
  · obtain ⟨_, faulted, ⟨⟩⟩ := mapError_error.mp faulted
    exact .inl (attempts_fault accepted inRange roomy active faulted)
  have attempted := mapError_ok.mp attempted
  have fresh : (Summary.empty problem.directions config.archiveCapacity : Summary α).record.Sized
      problem.directions := Record.empty_sized _ _
  have repeats := attempts_told active attempted
  obtain ⟨summary, added, _⟩ := Summary.exists_addAll config.recordHistory 0 fresh
    fun o member => (repeats o member).1.sized
  dsimp only at ran
  rw [added] at ran
  refine .inr ⟨passes, conclude_fault accepted roomy (fun a held => ?_) ran⟩
  have member := held_evaluated (fun o inside => (repeats o inside).1) added a held
  obtain ⟨o, inside, logged⟩ := mem_evaluated.mp member
  exact ((repeats o inside).1.assessed a logged).genes

/-- A search whose configuration was accepted faults only through its model.

A pass of the model that goes through has a penalty for each row and full columns, one for
each objective that it did not refuse: all of them, where the model stops at refusals. In
every repeat, whatever the random source answers, the first population is drawn; in every
state that the repeat comes to, settling and making new trials succeed, and an evaluation
succeeds with a column for each objective, ends with the error of the model, faults because
the pass of the model over the trials of that state does, or faults because the pass was
accepted with a column missing.

Where the lengths of the variables together are a machine word, a pass faults only where
the model stops with a fault of its own. So a repeat faults exactly where the model stops
or a column is missing, and if the model stops at refusals, only with its own fault. The same
goes for the whole search, which in the end passes the model over the reported agents once
more. -/
theorem validated_search_never_faults [Scalar.LawfulUnit α] {model : Model α}
    (made : Problem.make model config.penaltyCoefficient = .ok problem)
    (valid : config.validate = .ok ())
    (fitting : config.algorithm.validateFor config.agents problem.schema.objectives = .ok ())
    (inRange : RandomSource.InRange ρ config.agents) :
    (∀ program view e, (problem.schema.evaluate program view).1 = .ok e →
      e.penalty.length = view.rows.length ∧
        (∀ column ∈ e.objectives, column.size = view.rows.length) ∧
        e.objectives.length + (Pass.refused .evaluate problem.schema view program
          (.start view.rows.length)).length = problem.schema.objectives ∧
        (program.Strict → e.objectives.length = problem.schema.objectives)) ∧
    (∀ (round passes : Nat) (random : ρ),
      let r : Repeat ρ α := ⟨problem, config, round, passes, random⟩
      (∃ run, Run.start problem config passes random = .ok run) ∧
      (∀ i k run, r.Reached i k .ready run →
        ∃ view, run.population.view .trial = .ok view ∧ view.rows.length = config.agents ∧
          ((∃ e run', (problem.schema.evaluate (problem.model run.ledger.passes) view).1 = .ok e ∧
              e.objectives.length = problem.schema.objectives ∧
              (Run.evaluate problem round (r.progress i)).run.run run = (.ok (), run')) ∨
            (∃ cause run',
              (problem.schema.evaluate (problem.model run.ledger.passes) view).1 =
                .error (.error cause) ∧
              (Run.evaluate problem round (r.progress i)).run.run run =
                (.error (.error (.evaluation round i cause)), run')) ∨
            (∃ cause run',
              (problem.schema.evaluate (problem.model run.ledger.passes) view).1 =
                .error (.fault cause) ∧
              (problem.schema.registry.demand < wordCount →
                problem.Halts .evaluate run.ledger.passes view cause) ∧
              (Run.evaluate problem round (r.progress i)).run.run run =
                (.error (.fault cause), run')) ∨
            ∃ run', problem.Lacks run.ledger.passes view ∧
              (Run.evaluate problem round (r.progress i)).run.run run =
                (.error (.fault .outOfRange), run'))) ∧
      (∀ i k run, r.Reached i k .evaluated run →
        ∃ run', (Run.settle problem (r.progress i)).run.run run = (.ok (), run')) ∧
      (∀ i k run, r.Reached i k .settled run →
        ∃ run', (Run.vary (r.progress i)).run.run run = (.ok (), run')) ∧
      (problem.schema.registry.demand < wordCount →
        ∀ cause, attempt problem config round passes random = .error cause ↔ r.Blames cause) ∧
      ((∀ number, (model number).Strict) → ∀ cause, r.Blames cause →
        ∃ number view, problem.Halts .evaluate number view cause)) ∧
    (problem.schema.registry.demand < wordCount →
      ∀ fallback cause, run ρ config fallback model = .error (.fault cause) →
        (∃ round passes random,
          (⟨problem, config, round, passes, random⟩ : Repeat ρ α).Blames cause) ∨
        ∃ passes chromosome,
          problem.Halts .feasibility passes (View.single chromosome) cause) := by
  have accepted := Problem.accepted made valid fitting
  have active := active_of_valid valid fitting
  have same := (Problem.make_ok made).2.1
  refine ⟨fun program view e ran => ?_, fun round passes random => ?_,
    fun roomy fallback cause ran => run_fault made valid fitting inRange roomy ran⟩
  · obtain ⟨penalty, columns, counted⟩ := Pass.run_delivers ran
    exact ⟨penalty, columns, counted rfl, fun strict =>
      (Pass.run_spans ran (Pass.run_strict strict ran)).count rfl⟩
  · intro r
    refine ⟨?_, fun i k run ready => ?_, fun i k run evaluated => ?_, fun i k run settled => ?_,
      fun roomy cause => ⟨attempt_fault r accepted inRange roomy active,
        attempt_of_blames r accepted inRange active⟩,
      fun strict cause blames => blames.halts (same.symm ▸ strict)⟩
    · obtain ⟨run, started, _⟩ := Run.exists_start problem config passes random
      exact ⟨run, started⟩
    · obtain ⟨view, viewed, rows, uniform, cases⟩ :=
        (ready.safe accepted inRange).evaluate_cases accepted round (r.progress i)
      refine ⟨view, viewed, rows, ?_⟩
      rcases cases with ⟨e, run', passed, spans, ran, _⟩ | failed | ⟨cause, run', passed, ran⟩ |
        lacks
      · exact .inl ⟨e, run', passed, spans.count rfl, ran⟩
      · exact .inr (.inl failed)
      · exact .inr (.inr (.inl ⟨cause, run', passed,
          fun roomy => accepted.halts roomy uniform passed, ran⟩))
      · exact .inr (.inr (.inr lacks))
    · obtain ⟨run', ran, _⟩ :=
        (evaluated.safe accepted inRange).exists_settle accepted inRange (r.progress i)
      exact ⟨run', ran⟩
    · obtain ⟨run', ran, _⟩ :=
        (settled.safe accepted inRange).exists_vary accepted inRange (r.progress i)
      exact ⟨run', ran⟩

/-- A short search by differential evolution, with as few agents as it takes. -/
def budgetCrossing : Config Float :=
  { budgetSearch with algorithm := .differential .default, populationSize := 4 }

/-- The script of the budget stops at refusals, and never with a fault. -/
theorem validated_search_never_faults_budget :
    Problem.make Schema.budget.model budgetCrossing.penaltyCoefficient = .ok budgetProblem ∧
    budgetCrossing.validate = .ok () ∧
    budgetCrossing.algorithm.validateFor budgetCrossing.agents
      budgetProblem.schema.objectives = .ok () ∧
    RandomSource.InRange (Generator Float) budgetCrossing.agents ∧
    ∀ (round passes : Nat) (random : Generator Float),
      let r : Repeat (Generator Float) Float :=
        ⟨budgetProblem, budgetCrossing, round, passes, random⟩
      (∃ run, Run.start budgetProblem budgetCrossing passes random = .ok run) ∧
      (∀ i k run, r.Reached i k .settled run →
        ∃ run', (Run.vary (r.progress i)).run.run run = (.ok (), run')) ∧
      ∀ cause, attempt budgetProblem budgetCrossing round passes random = .error cause →
        ∃ number view, budgetProblem.Halts .evaluate number view cause := by
  have made : Problem.make Schema.budget.model budgetCrossing.penaltyCoefficient =
      .ok budgetProblem := budget_made
  have valid : budgetCrossing.validate = .ok () := by rfl
  have fitting : budgetCrossing.algorithm.validateFor budgetCrossing.agents
      budgetProblem.schema.objectives = .ok () := by rfl
  have roomy : budgetProblem.schema.registry.demand < wordCount := by decide
  have inRange : RandomSource.InRange (Generator Float) budgetCrossing.agents :=
    Generator.inRange.mono (by decide)
  have strict (number : Nat) : (Schema.budget.model number).Strict :=
    Schema.budget.program_strict number []
  obtain ⟨_, repeats, _⟩ := validated_search_never_faults made valid fitting inRange
  refine ⟨made, valid, fitting, inRange, fun round passes random => ?_⟩
  obtain ⟨started, _, _, varies, blames, halts⟩ := repeats round passes random
  exact ⟨started, varies, fun cause faulted => halts strict cause ((blames roomy cause).mp faulted)⟩

/-- The fault that a computation ends with. -/
def faultOf {β : Type} : Except (Failure α) β → Option Fault
  | .error (.fault cause) => some cause
  | .error (.error _) | .ok _ => none

omit [Scalar α] in
theorem eq_of_faultOf {β : Type} {x : Except (Failure α) β} {cause : Fault}
    (ends : faultOf x = some cause) : x = .error (.fault cause) := by
  cases x with
  | ok b => cases ends
  | error failure =>
    cases failure with
    | error cause => cases ends
    | fault cause =>
      cases ends
      rfl

/-- A model that minimizes three values, however many agents there are, and does not care
whether it may. -/
def careless : Model Float := fun _ =>
  .declare ⟨"x", .continuous, .scalar, ⟨0.0, 1.0⟩⟩ fun _ =>
    .optimize .minimize ⟨[1.0, 2.0, 3.0]⟩ fun _ => .done

/-- What it declares. -/
def carelessProblem : Problem Float :=
  ⟨careless, ⟨⟨[⟨⟨"x", .continuous, .scalar, ⟨0.0, 1.0⟩⟩, 0, 0, 1⟩],
    (∅ : Std.HashMap String Nat).insert "x" 0, 1⟩, [], [.minimize]⟩, ⟨1.0, [.minimize], 0⟩⟩

theorem careless_made : Problem.make careless 1.0 = .ok carelessProblem := by
  have fresh : (Registry.empty : Registry Float).positions.contains "x" = false :=
    Std.HashMap.contains_empty
  have bound : Registry.checkedBound (⟨"x", .continuous, .scalar, ⟨0.0, 1.0⟩⟩ :
      Declaration Float) = .ok ⟨0.0, 1.0⟩ := rfl
  have declared : Registry.declare Schema.empty.registry
      (⟨"x", .continuous, .scalar, ⟨0.0, 1.0⟩⟩ : Declaration Float) =
        .ok (⟨⟨"x", .continuous, .scalar, ⟨0.0, 1.0⟩⟩, 0, 0, 1⟩,
          carelessProblem.schema.registry) := by
    rw [Registry.declare, if_neg (by simp [Schema.empty, fresh]), bound]
    rfl
  have extended : Schema.extend (careless 0) .empty = (.ok carelessProblem.schema, []) := by
    rw [careless, Schema.extend, declared]
    rfl
  rw [Problem.make, Schema.discover, extended]
  rfl

def carelessSearch : Config Float :=
  { Config.ofAlgorithm (.genetic .default) with
    populationSize := 20, iterations := 2, penaltyCoefficient := 1.0, seed := some 7 }

/-- A search that was accepted faults: the pass over twenty agents goes through without a
column, and there is none to be read when its outcome is written. -/
theorem careless_search_faults :
    Problem.make careless carelessSearch.penaltyCoefficient = .ok carelessProblem ∧
    carelessSearch.validate = .ok () ∧
    carelessSearch.algorithm.validateFor carelessSearch.agents
      carelessProblem.schema.objectives = .ok () ∧
    RandomSource.InRange (Generator Float) carelessSearch.agents ∧
    carelessProblem.Lacks 0 ⟨1, List.replicate 20 [0.5]⟩ ∧
    run (Generator Float) carelessSearch 0 careless = .error (.fault .outOfRange) := by
  have valid : carelessSearch.validate = .ok () := by rfl
  have fitting : carelessSearch.algorithm.validateFor carelessSearch.agents
      carelessProblem.schema.objectives = .ok () := by rfl
  have inRange : RandomSource.InRange (Generator Float) carelessSearch.agents :=
    Generator.inRange.mono (by decide)
  have lacks : carelessProblem.Lacks 0 ⟨1, List.replicate 20 [0.5]⟩ := by
    obtain ⟨e, ran, few⟩ := exists_ok_of_any
      (x := (carelessProblem.schema.evaluate (careless 0) ⟨1, List.replicate 20 [0.5]⟩).1)
      (P := fun e => e.objectives.length < 1) (by decide +kernel)
    exact ⟨e, ran, few⟩
  have faulted : faultOf (run (Generator Float) carelessSearch 0 careless) = some .outOfRange := by
    rw [run, show carelessSearch.penaltyCoefficient = 1.0 from rfl, careless_made]
    decide +kernel
  exact ⟨careless_made, valid, fitting, inRange, lacks, eq_of_faultOf faulted⟩

end Search
end Metaheuristic
