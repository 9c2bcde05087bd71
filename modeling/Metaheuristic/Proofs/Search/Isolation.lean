import Metaheuristic.Proofs.Search.Faithful
import Metaheuristic.Proofs.Search.Reached
import Metaheuristic.Proofs.Search.Summary
import Metaheuristic.Random.Generator

/-! Failed repeats do not disturb a search. What it reports is what its successful repeats
alone would have it report, with a warning more for each one that failed; only when none
succeeded does an error come through, the one of the first repeat. And a repeat fails only
where the model does in an evaluation, with the error that says so. -/
namespace Metaheuristic

variable {ρ α : Type} [Scalar α]

/-- Checking the feasibility of a chromosome of the right length never fails. -/
def Problem.Rechecks (problem : Problem α) : Prop :=
  ∀ (passes : Nat) (chromosome : List α), chromosome.length = problem.schema.genes →
    ∃ statuses, (problem.schema.classify (problem.model passes) (View.single chromosome)).1 =
      .ok statuses

/-- What a repeat of a problem leaves behind: a record with a reward for each direction and
chromosomes of the right length. -/
structure Outcome.Fits (problem : Problem α) (o : Outcome α) : Prop where
  record : o.record.Sized problem.directions
  genes : ∀ a ∈ o.record.held, a.chromosome.length = problem.schema.genes

namespace Search

variable {problem : Problem α} {config : Config α} {passes : Nat} {s : Summary α}
  {outcomes : List (Except (Error α) (Outcome α))}

/-- What a search makes of its repeats. -/
def fold (problem : Problem α) (config : Config α) (passes : Nat)
    (outcomes : List (Except (Error α) (Outcome α))) : Except (Failure α) (Result α) := do
  let summary ← (Summary.addAll config.recordHistory 0 outcomes
    (.empty problem.directions config.archiveCapacity)).mapError .fault
  conclude problem config passes summary

/-- A chromosome that can be checked can be decoded too. -/
theorem exists_candidate (rechecks : problem.Rechecks) (passes : Nat) {a : Agent α}
    (length : a.chromosome.length = problem.schema.genes) :
    ∃ c, candidate problem passes a = .ok c := by
  obtain ⟨statuses, classified⟩ := rechecks passes a.chromosome length
  obtain ⟨e, passed, _⟩ := map_ok.mp classified
  obtain ⟨solution, decoded⟩ := Registry.exists_decodeOnto (s := .empty)
    fun v member => Pass.run_cuts passed v member a.chromosome (List.mem_singleton.mpr rfl)
  refine ⟨⟨solution, a.reward, statuses.headD a.status⟩, ?_⟩
  rw [candidate, classified, Schema.decode, Registry.decode, decoded]
  rfl

/-- Where a repeat succeeded, the traces of the others only add their warnings. -/
theorem conclude_found (succeeded : s.succeeded ≠ 0) :
    conclude problem config passes s =
      (conclude problem config passes s.found).map
        fun r => { r with warnings := s.warnings ++ r.warnings } := by
  unfold conclude
  have other : s.found.succeeded ≠ 0 := succeeded
  split
  · contradiction
  · split
    · contradiction
    · exact bind_same fun candidates => rfl

variable (config) in
theorem exists_conclude (rechecks : problem.Rechecks) (passes : Nat) (succeeded : s.succeeded ≠ 0)
    (lengths : ∀ a ∈ s.record.held, a.chromosome.length = problem.schema.genes) :
    ∃ result, conclude problem config passes s = .ok result ∧
      result.warnings = s.warnings ++
        (if lacksFeasible result.candidates then [.infeasibleResult] else []) := by
  obtain ⟨candidates, reported, _⟩ := exists_mapM (Q := fun _ => True)
    (f := candidate problem passes) fun a (member : a ∈ s.record.reported) => by
      obtain ⟨c, ran⟩ :=
        exists_candidate rechecks passes (lengths a (Record.mem_reported.mp member))
      exact ⟨c, ran, trivial⟩
  unfold conclude
  split
  · contradiction
  · rw [reported]
    exact ⟨_, rfl, rfl⟩

/-- Folding the repeats of a problem, some of which succeeded, comes to what folding these
alone comes to, after the warnings of the others. -/
theorem fold_successes (rechecks : problem.Rechecks) (passes : Nat)
    (fits : ∀ o, .ok o ∈ outcomes → o.Fits problem) (success : ∃ o, .ok o ∈ outcomes) :
    ∃ result, fold problem config passes (successes outcomes) = .ok result ∧
      result.warnings = (if lacksFeasible result.candidates then [.infeasibleResult] else []) ∧
      fold problem config passes outcomes =
        .ok { result with warnings := failures 0 outcomes ++ result.warnings } := by
  have fresh : (Summary.empty problem.directions config.archiveCapacity : Summary α).record.Sized
      problem.directions := Record.empty_sized _ _
  obtain ⟨s, added, _⟩ :=
    Summary.exists_addAll config.recordHistory 0 fresh fun o member => (fits o member).record
  obtain ⟨warnings, count, _⟩ := Summary.addAll_traces added
  have alone : Summary.addAll config.recordHistory 0 (successes outcomes)
      (.empty problem.directions config.archiveCapacity) = .ok s.found := by
    have same := Summary.addAll_successes config.recordHistory 0 0 outcomes
      (.empty problem.directions config.archiveCapacity)
    rw [added] at same
    exact same
  have succeeded : s.succeeded ≠ 0 := by
    obtain ⟨o, member⟩ := success
    have some := List.length_pos_of_mem (mem_successes.mpr member)
    rw [count]
    omega
  have lengths : ∀ a ∈ s.record.held, a.chromosome.length = problem.schema.genes := by
    refine Summary.addAll_ok
      (I := fun _ r => ∀ a ∈ r.held, a.chromosome.length = problem.schema.genes)
      (fun _ _ _ known => known) (fun _ o r r' member known merged a held => ?_)
      (fun a held => ?_) added
    · rcases Record.mem_merge merged held with before | new
      · exact known a before
      · exact (fits o member).genes a new
    · rw [Summary.empty, Record.held_empty] at held
      cases held
  obtain ⟨result, concluded, own⟩ :=
    exists_conclude config (s := s.found) rechecks passes succeeded lengths
  refine ⟨result, ?_, own, ?_⟩
  · rw [fold, alone]
    exact concluded
  · have whole : fold problem config passes outcomes = conclude problem config passes s := by
      rw [fold, added]
      rfl
    rw [whole, conclude_found succeeded, concluded, warnings]
    rfl

/-- Where no repeat succeeded, the first error ends the search. -/
theorem fold_failures {cause : Error α} {rest : List (Except (Error α) (Outcome α))}
    (failed : ∀ o, .ok o ∉ rest) :
    fold problem config passes (.error cause :: rest) = .error (.error cause) := by
  have fresh : (Summary.empty problem.directions config.archiveCapacity : Summary α).record.Sized
      problem.directions := Record.empty_sized _ _
  have none : ∀ o, .ok o ∉ (.error cause :: rest : List (Except (Error α) (Outcome α))) := by
    rintro o (_ | ⟨_, member⟩)
    exact failed o member
  obtain ⟨s, added, _⟩ := Summary.exists_addAll config.recordHistory 0 fresh
    fun o member => absurd member (none o)
  obtain ⟨_, count, first⟩ := Summary.addAll_traces added
  have nothing : successes (.error cause :: rest) = [] := by
    refine List.filter_eq_nil_iff.mpr fun outcome member => ?_
    cases outcome with
    | error cause => nofun
    | ok o => exact absurd member (none o)
  rw [nothing] at count
  have whole : fold problem config passes (.error cause :: rest) =
      conclude problem config passes s := by
    rw [fold, added]
    rfl
  rw [whole, conclude, count, first]
  rfl

end Search

namespace Repeat

variable [RandomSource ρ α] {r : Repeat ρ α} {cause : Error α} {run' : Run ρ α}

/-- In a state before an evaluation, the pass of the model over the trials fails. The error
says in which repeat and in which iteration, and the pass counts. -/
def FailsWith (r : Repeat ρ α) (cause : Error α) (passes' : Nat) : Prop :=
  ∃ i k run view source, r.Reached i k .ready run ∧ run.population.view .trial = .ok view ∧
    (r.problem.schema.evaluate (r.problem.model run.ledger.passes) view).1 =
      .error (.error source) ∧
    cause = .evaluation r.round i source ∧ passes' = run.ledger.passes + 1

/-- A step that ends with an error is an evaluation. -/
theorem Breaks.failsWith (broken : r.Breaks (.error cause) run') :
    r.FailsWith cause run'.ledger.passes := by
  cases broken with
  | @evaluate i k run before ran =>
    obtain ⟨view, source, viewed, failed, same, rfl⟩ := Run.evaluate_error ran
    exact ⟨i, k, run, view, source, before, viewed, failed, same, rfl⟩
  | settle before ran => exact absurd ran Run.settle_not_error
  | vary before ran => exact absurd ran Run.vary_not_error
  | look before ran => exact absurd ran Run.statistics_not_error

end Repeat

namespace Search

variable [RandomSource ρ α]

/-- A repeat ends with an error exactly where the model fails on its way. -/
theorem attempt_error_iff (r : Repeat ρ α) (accepted : r.problem.Accepted r.config)
    (active : Active r.config) (cause : Error α) (passes' : Nat) :
    attempt r.problem r.config r.round r.passes r.random = .ok (.error cause, passes') ↔
      r.FailsWith cause passes' := by
  obtain ⟨first, started, _⟩ := Run.exists_start r.problem r.config r.passes r.random
  rw [attempt_eq r.round started]
  constructor
  · intro ran
    obtain ⟨left, budget⟩ := Nat.exists_eq_succ_of_ne_zero (Nat.ne_of_gt active.iterations)
    have whole : 0 + left + 1 = r.config.iterations := by omega
    obtain ⟨_, broken⟩ := Repeat.leads_iterate active.cycles whole first (.start started)
    rw [budget] at ran
    cases ended : (Run.iterate r.problem r.config r.round (left + 1) 0).run.run first with
    | mk result run' =>
      rw [ended] at ran
      cases result with
      | ok history => cases ran
      | error failure =>
        cases failure with
        | fault fault => cases ran
        | error cause =>
          cases ran
          exact (broken _ run' ended).failsWith
  · rintro ⟨i, k, run, view, source, reached, viewed, failed, rfl, rfl⟩
    obtain ⟨first', kept, same, ended⟩ := reached.continues accepted active
    rw [started] at same
    cases same
    have stopped : (r.remaining i k .ready).run.run run =
        (.error (.error (.evaluation r.round i source)),
          { run with ledger := run.ledger.beginPass }) :=
      run_bind_of_error (Run.evaluate_of_error viewed failed)
    rw [stopped] at ended
    rw [ended]
    rfl

/-- What the successful repeats of a problem leave behind can be folded. -/
theorem attempts_fit {config : Config α} {problem : Problem α} {round passes passes' : Nat}
    {seeds : List UInt64} {outcomes : List (Except (Error α) (Outcome α))}
    (active : Active config)
    (ran : attempts ρ problem config round passes seeds = .ok (outcomes, passes')) :
    ∀ o, .ok o ∈ outcomes → o.Fits problem := by
  intro o member
  obtain ⟨told, _⟩ := attempts_told active ran o member
  exact ⟨told.sized, fun a held => (told.assessed a (told.mem_log held)).genes⟩

/-- A search that goes on comes to what its repeats are folded to. -/
theorem run_eq_fold {config : Config α} {model : Model α} {problem : Problem α}
    {fallback : UInt64} {outcomes : List (Except (Error α) (Outcome α))} {passes : Nat}
    (made : Problem.make model config.penaltyCoefficient = .ok problem)
    (valid : config.validate = .ok ())
    (fitting : config.algorithm.validateFor config.agents problem.schema.objectives = .ok ())
    (attempted : attempts ρ problem config 0 0 (streamSeeds config.repeats
      (RandomSource.ofSeed (config.seed.getD fallback) : ρ)) = .ok (outcomes, passes)) :
    run ρ config fallback model = fold problem config passes outcomes := by
  rw [run, valid, made]
  simp only [bind, Except.bind, Except.mapError, fitting, attempted]
  rfl

/-- Failed repeats are isolated in what a search reports.

Repeats are folded in order, each of them successful or not. With one success at least,
there is a result: that of folding only the successful repeats, whose own warnings say no
more than whether anything feasible was found, with a warning in front for each failed
repeat, in order, with its number and its error. With no success, the error of the first
repeat comes through.

What a search folds are as many repeats as it was configured for. Each is the attempt of its
number from its own seed, and those that succeed leave what can be folded.

And a repeat ends with an error exactly where an evaluation pass of the model does, in some
state that the repeat comes to; the error carries the number of the repeat and the iteration
of that state. -/
theorem failed_repeats_isolated {config : Config α} {model : Model α} {problem : Problem α}
    (made : Problem.make model config.penaltyCoefficient = .ok problem)
    (valid : config.validate = .ok ())
    (fitting : config.algorithm.validateFor config.agents problem.schema.objectives = .ok ())
    (rechecks : problem.Rechecks) :
    (∀ (passes : Nat) (outcomes : List (Except (Error α) (Outcome α))),
      (∀ o, .ok o ∈ outcomes → o.Fits problem) →
      ((∃ o, .ok o ∈ outcomes) → ∃ result,
        fold problem config passes (successes outcomes) = .ok result ∧
        result.warnings =
          (if lacksFeasible result.candidates then [.infeasibleResult] else []) ∧
        fold problem config passes outcomes =
          .ok { result with warnings := failures 0 outcomes ++ result.warnings }) ∧
      ∀ cause rest, outcomes = .error cause :: rest → (∀ o, .ok o ∉ rest) →
        fold problem config passes outcomes = .error (.error cause)) ∧
    (∀ fallback outcomes passes,
      let seeds := streamSeeds config.repeats
        (RandomSource.ofSeed (config.seed.getD fallback) : ρ)
      attempts ρ problem config 0 0 seeds = .ok (outcomes, passes) →
      run ρ config fallback model = fold problem config passes outcomes ∧
      outcomes.length = config.repeats ∧ (∀ o, .ok o ∈ outcomes → o.Fits problem) ∧
      ∀ (j : Nat) seed, seeds[j]? = some seed → ∃ outcome before after,
        outcomes[j]? = some outcome ∧
        attempt problem config j before (RandomSource.ofSeed seed : ρ) = .ok (outcome, after)) ∧
    ∀ (round passes : Nat) (random : ρ) (cause : Error α) (passes' : Nat),
      attempt problem config round passes random = .ok (.error cause, passes') ↔
        (⟨problem, config, round, passes, random⟩ : Repeat ρ α).FailsWith cause passes' := by
  have accepted := Problem.accepted made valid fitting
  have active := active_of_valid valid fitting
  refine ⟨fun passes outcomes fits => ⟨fold_successes rechecks passes fits, ?_⟩,
    fun fallback outcomes passes => ?_, fun round passes random => ?_⟩
  · rintro cause rest rfl failed
    exact fold_failures failed
  · intro seeds attempted
    refine ⟨run_eq_fold made valid fitting attempted, ?_, attempts_fit active attempted,
      fun j seed place => ?_⟩
    · rw [length_attempts attempted, length_streamSeeds]
    · obtain ⟨outcome, before, after, here, ran⟩ := attempts_at attempted j seed place
      rw [Nat.zero_add] at ran
      exact ⟨outcome, before, after, here, ran⟩
  · exact attempt_error_iff ⟨problem, config, round, passes, random⟩ accepted active

/-- What a repeat might have found for the budget. -/
def budgetOutcome : Outcome Float :=
  ⟨.single .maximize (some ⟨[0.25, 0.5], [5.0], .feasible⟩), [], [], .empty⟩

/-- Of three repeats, only the middle one succeeds. -/
theorem failed_repeats_isolated_budget :
    Problem.make Schema.budget.model budgetSearch.penaltyCoefficient = .ok budgetProblem ∧
    budgetSearch.validate = .ok () ∧
    budgetSearch.algorithm.validateFor budgetSearch.agents budgetProblem.schema.objectives =
      .ok () ∧
    budgetProblem.Rechecks ∧ budgetOutcome.Fits budgetProblem ∧
    ∃ result, fold budgetProblem budgetSearch 9 [.ok budgetOutcome] = .ok result ∧
      fold budgetProblem budgetSearch 9
          [.error (.model "first"), .ok budgetOutcome, .error (.model "last")] =
        .ok { result with
          warnings := [.repeatFailed 0 (.model "first"), .repeatFailed 2 (.model "last")] ++
            result.warnings } := by
  have valid : budgetSearch.validate = .ok () := by rfl
  have fitting : budgetSearch.algorithm.validateFor budgetSearch.agents
      budgetProblem.schema.objectives = .ok () := by rfl
  have rechecks : budgetProblem.Rechecks := by
    intro passes chromosome length
    obtain ⟨x, y, rfl⟩ := List.length_eq_two.mp length
    exact ⟨_, rfl⟩
  have fits : budgetOutcome.Fits budgetProblem := by
    refine ⟨rfl, fun a held => ?_⟩
    rw [List.mem_singleton.mp held]
    rfl
  obtain ⟨folds, _⟩ := failed_repeats_isolated (ρ := Generator Float) budget_made valid fitting
    rechecks
  obtain ⟨mixed, _⟩ := folds 9
    [.error (.model "first"), .ok budgetOutcome, .error (.model "last")] fun o member => by
      simp only [List.mem_cons, List.not_mem_nil, Except.ok.injEq, reduceCtorEq, or_false,
        false_or] at member
      rw [member]
      exact fits
  obtain ⟨result, alone, _, whole⟩ := mixed ⟨budgetOutcome, by simp⟩
  exact ⟨budget_made, valid, fitting, rechecks, fits, result, alone, whole⟩

end Search
end Metaheuristic
