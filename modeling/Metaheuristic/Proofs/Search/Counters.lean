import Metaheuristic.Proofs.Search.Coverage
import Metaheuristic.Proofs.Search.History
import Metaheuristic.Proofs.Search.Summary
import Metaheuristic.Proofs.Strategy.Counters

/-! The counters of a search balance. In every state that a repeat comes to, the place in the
repeat tells how many agents were evaluated and how many decisions were made, and what the
strategy counted agrees with that. A search adds up what its successful repeats counted. -/
namespace Metaheuristic

variable {ρ α : Type}

/-- What the counters of a repeat have to satisfy, with so many agents of so many genes and so
many iterations. -/
def Algorithm.Balances (agents genes iterations : Nat) (count : String → Nat) :
    Algorithm α → Prop
  | genetic _ => count "matings" ≤ agents * (iterations - 1) ∧
      count "mutations" ≤ agents * genes * (iterations - 1)
  | differential _ => count "replacements" + count "kept" = agents * iterations
  | annealing s => count "accepted_better" + count "accepted_worse" + count "rejected" =
      iterations * s.cycles
  | tabu s => count "moves" + count "rejected" = iterations ∧ 1 ≤ count "moves" ∧
      (s.strict = true → count "tabu_hits" = count "aspirations" + count "rejected" ∧
        1 ≤ count "memory" ∧ count "memory" ≤ s.tenure) ∧
      (s.strict = false → count "tabu_hits" = 0 ∧ count "aspirations" = 0 ∧ count "memory" = 1)
  | greyWolf _ => 1 ≤ count "leader_changes" ∧ count "leader_changes" ≤ iterations

/-- A successful repeat whose counters balance. What it reports are the exact counts as
machine words, and with a machine word above the last bound none of them wraps. -/
structure Outcome.Balanced (problem : Problem α) (config : Config α) (count : String → Nat)
    (o : Outcome α) : Prop where
  evaluations : o.evaluations = config.agents * (config.iterations * config.algorithm.cycles)
  shown : o.report.Shows config.algorithm.counters count
  balances : config.algorithm.Balances config.agents problem.schema.genes config.iterations count
  bounded : ∀ name, count name ≤
    config.agents * problem.schema.genes * (config.iterations * config.algorithm.cycles)
  history : config.recordHistory = true →
    o.history.map (·.iteration) = List.range config.iterations

namespace Strategy

variable {s : Strategy α} {agents genes iterations settled varied bound : Nat}

/-- What a strategy says in the end of its iterations. -/
theorem Tallies.balances (positive : 0 < iterations)
    (tallies : s.Tallies agents genes (iterations * s.algorithm.cycles)
      (iterations * s.algorithm.cycles - 1)) :
    s.algorithm.Balances agents genes iterations s.count := by
  cases s with
  | genetic s =>
    simp only [algorithm, Algorithm.cycles, Nat.mul_one] at tallies
    exact tallies
  | differential s =>
    simp only [algorithm, Algorithm.cycles, Nat.mul_one] at tallies
    exact tallies
  | annealing s => exact tallies
  | tabu s =>
    simp only [algorithm, Algorithm.cycles, Nat.mul_one] at tallies
    have remembered := tallies.remembered positive
    refine ⟨tallies.decided, tallies.moved positive,
      fun strict => ⟨tallies.strict strict, remembered, tallies.fits⟩, fun climbing => ?_⟩
    obtain ⟨hits, aspirations, size⟩ := tallies.climbing climbing
    exact ⟨hits, aspirations, Nat.le_antisymm size remembered⟩
  | greyWolf s =>
    simp only [algorithm, Algorithm.cycles, Nat.mul_one] at tallies
    exact ⟨tallies.changed (.inl positive), tallies.few⟩

/-- No counter exceeds the number of genes that were evaluated. -/
theorem Tallies.count_le (tallies : s.Tallies agents genes settled varied)
    (agentsPos : 0 < agents) (genesPos : 0 < genes) (order : varied ≤ settled) (name : String) :
    s.count name ≤ agents * genes * settled := by
  have steps : settled ≤ agents * genes * settled :=
    Nat.le_mul_of_pos_left settled (Nat.mul_pos agentsPos genesPos)
  have rows : agents * settled ≤ agents * genes * settled :=
    Nat.mul_le_mul_right settled (Nat.le_mul_of_pos_right agents genesPos)
  have each : ∀ e ∈ s.tally, e.2 ≤ agents * genes * settled := by
    cases s with
    | genetic s =>
      obtain ⟨matings, mutations⟩ := tallies
      have once := Nat.mul_le_mul_left agents order
      have drawn := Nat.mul_le_mul_left (agents * genes) order
      simp only [tally, List.forall_mem_cons]
      exact ⟨by omega, by omega, nofun⟩
    | differential s =>
      have decided : s.replacements + s.kept = agents * settled := tallies
      simp only [tally, List.forall_mem_cons]
      exact ⟨by omega, by omega, nofun⟩
    | annealing s =>
      have decided : s.acceptedBetter + s.acceptedWorse + s.rejected = settled := tallies
      simp only [tally, List.forall_mem_cons]
      exact ⟨by omega, by omega, by omega, nofun⟩
    | tabu s =>
      have decided := tallies.decided
      have aspired := tallies.aspired
      have few := tallies.few
      have hits : s.hits ≤ settled := by
        cases strict : s.settings.strict with
        | true =>
          have counted := tallies.strict strict
          omega
        | false =>
          rw [(tallies.climbing strict).1]
          exact Nat.zero_le _
      simp only [tally, List.forall_mem_cons]
      exact ⟨by omega, by omega, by omega, by omega, by omega, nofun⟩
    | greyWolf s =>
      have few := tallies.few
      simp only [tally, List.forall_mem_cons]
      exact ⟨by omega, nofun⟩
  unfold count
  cases found : s.tally.lookup name with
  | none => exact Nat.zero_le _
  | some count =>
    obtain ⟨before, after, split, _⟩ := List.lookup_eq_some_iff.mp found
    exact each (name, count) (by simp [split])

end Strategy

namespace Phase

/-- Number of evaluations in a cycle so far. -/
def evaluations : Phase → Nat
  | ready => 0
  | evaluated | settled => 1

/-- Number of decisions in a cycle so far. -/
def decisions : Phase → Nat
  | ready | evaluated => 0
  | settled => 1

end Phase

variable [Scalar α] [RandomSource ρ α]

/-- What a state of a run says of so many evaluations, decisions and variations. -/
structure Run.Counted (problem : Problem α) (config : Config α)
    (evaluated settled varied : Nat) (run : Run ρ α) : Prop where
  algorithm : run.strategy.algorithm = config.algorithm
  evaluations : run.ledger.log.length = config.agents * evaluated
  tallies : run.strategy.Tallies config.agents problem.schema.genes settled varied

namespace Run.Counted

variable {problem : Problem α} {config : Config α} {round passes : Nat} {progress : Progress}
  {random : ρ} {evaluated settled varied : Nat} {run run' : Run ρ α}

theorem start (ran : Run.start problem config passes random = .ok run) :
    Counted problem config 0 0 0 run := by
  obtain ⟨population, _, rfl⟩ := map_ok.mp ran
  refine ⟨?_, rfl, Strategy.tallies_fresh ..⟩
  cases config.algorithm <;> rfl

omit [RandomSource ρ α] in
theorem evaluate (counted : Counted problem config evaluated settled varied run)
    (sound : Run.Sound problem config run)
    (ran : (Run.evaluate problem round progress).run.run run = (.ok (), run')) :
    Counted problem config (evaluated + 1) settled varied run' := by
  obtain ⟨_, agents, length, log⟩ := Run.evaluate_sound run () run' ⟨sound, rfl⟩ ran
  obtain ⟨_, _, _, _, _, _, _, _, _, _, _, _, rfl⟩ := Run.evaluate_ok ran
  refine ⟨counted.algorithm, ?_, counted.tallies⟩
  rw [log, List.length_append, counted.evaluations, length, Nat.mul_succ]

theorem settle (counted : Counted problem config evaluated settled varied run)
    (sound : Run.Sound problem config run) (valid : config.algorithm.validate = .ok ())
    (clock : config.algorithm.cycles = 1 → progress.iteration = settled)
    (ran : (Run.settle problem progress).run.run run = (.ok (), run')) :
    Counted problem config evaluated (settled + 1) varied run' := by
  obtain ⟨strategy, population, random, drawn, rfl⟩ := Run.settle_ok ran
  have same : Draw.Yields
      (run.strategy.settle problem.directions progress run.population : Draw ρ _) _ :=
    Strategy.settle_algorithm problem.directions progress run.strategy
  have tallies : Draw.Yields
      (run.strategy.settle problem.directions progress run.population : Draw ρ _) _ :=
    Strategy.settle_tallies problem.directions sound.sized (counted.algorithm ▸ valid)
      (counted.algorithm ▸ clock) counted.tallies
  exact ⟨(same _ _ random trivial drawn).trans counted.algorithm, counted.evaluations,
    tallies _ _ random trivial drawn⟩

theorem vary (counted : Counted problem config evaluated settled varied run)
    (sound : Run.Sound problem config run)
    (ran : (Run.vary progress).run.run run = (.ok (), run')) :
    Counted problem config evaluated settled (varied + 1) run' := by
  obtain ⟨strategy, population, random, drawn, rfl⟩ := Run.vary_ok ran
  have same : Draw.Yields (run.strategy.vary progress run.population : Draw ρ _) _ :=
    Strategy.vary_algorithm progress run.strategy
  have tallies : Draw.Yields (run.strategy.vary progress run.population : Draw ρ _) _ :=
    Strategy.vary_tallies progress sound.sized counted.tallies
  exact ⟨(same _ _ random trivial drawn).trans counted.algorithm, counted.evaluations,
    tallies _ _ random trivial drawn⟩

end Run.Counted

namespace Repeat

variable {r : Repeat ρ α} {i k : Nat} {phase : Phase} {run : Run ρ α}

/-- By induction on the steps: a place in a repeat tells what was counted on the way. -/
theorem Reached.counted (valid : r.config.algorithm.validate = .ok ())
    (positive : 0 < r.config.algorithm.cycles) (reached : r.Reached i k phase run) :
    Run.Counted r.problem r.config (i * r.config.algorithm.cycles + k + phase.evaluations)
      (i * r.config.algorithm.cycles + k + phase.decisions)
      (i * r.config.algorithm.cycles + k) run := by
  induction reached with
  | start started =>
    rw [Nat.zero_mul]
    exact .start started
  | evaluate before ran counted => exact counted.evaluate before.sound ran
  | @settle i k run run' before ran counted =>
    refine counted.settle before.sound valid (fun once => ?_) ran
    have first := before.cycle_lt positive
    rw [once] at first ⊢
    show i = i * 1 + k + 0
    omega
  | within before more ran counted => exact counted.vary before.sound ran
  | @after i k run run' before last more ran counted =>
    have place : (i + 1) * r.config.algorithm.cycles + 0 =
        i * r.config.algorithm.cycles + k + 1 := by
      rw [Nat.succ_mul, Nat.add_zero, Nat.add_assoc, last]
    rw [place]
    exact counted.vary before.sound ran

theorem Reached.algorithm (accepted : r.problem.Accepted r.config)
    (reached : r.Reached i k phase run) : run.strategy.algorithm = r.config.algorithm := by
  obtain ⟨_, valid, _⟩ := bind_ok.mp accepted.settings
  exact (reached.counted valid (Algorithm.cycles_pos accepted.settings)).algorithm

end Repeat

namespace Search

omit [Scalar α] [RandomSource ρ α] in
/-- What the successful repeats found, in order. -/
def finished (outcomes : List (Except (Error α) (Outcome α))) : List (Outcome α) :=
  outcomes.filterMap Except.toOption

omit [Scalar α] [RandomSource ρ α] in
theorem mem_finished {outcomes : List (Except (Error α) (Outcome α))} {o : Outcome α} :
    o ∈ finished outcomes ↔ .ok o ∈ outcomes := by
  rw [finished, List.mem_filterMap]
  constructor
  · rintro ⟨outcome, member, same⟩
    cases outcome with
    | error cause => cases same
    | ok o' =>
      cases same
      exact member
  · intro member
    exact ⟨.ok o, member, rfl⟩

end Search

namespace Summary

open Search (finished)

omit [RandomSource ρ α] in
/-- What folding repeats adds up. -/
theorem addAll_totals {recordHistory : Bool} {round : Nat} {s s' : Summary α}
    {outcomes : List (Except (Error α) (Outcome α))}
    (ran : addAll recordHistory round outcomes s = .ok s') :
    s'.evaluations = s.evaluations + ((finished outcomes).map Outcome.evaluations).sum ∧
      s'.report = ((finished outcomes).map (·.report)).foldl .merge s.report ∧
      s'.history = s.history ++
        if recordHistory then (finished outcomes).map (·.history) else [] := by
  induction outcomes generalizing round s with
  | nil =>
    cases ran
    refine ⟨rfl, rfl, ?_⟩
    cases recordHistory <;> exact (List.append_nil _).symm
  | cons outcome outcomes ih =>
    obtain ⟨next, added, rest⟩ := bind_ok.mp ran
    obtain ⟨evaluations, report, history⟩ := ih rest
    cases outcome with
    | error cause =>
      cases added
      exact ⟨evaluations, report, history⟩
    | ok o =>
      obtain ⟨record, _, built⟩ := bind_ok.mp added
      cases built
      have kept : finished (.ok o :: outcomes) = o :: finished outcomes := rfl
      rw [kept, evaluations, report, history]
      refine ⟨?_, rfl, ?_⟩
      · rw [List.map_cons, List.sum_cons, Nat.add_assoc]
      · cases recordHistory with
        | true => exact List.append_assoc ..
        | false => rfl

end Summary

namespace Search

variable {problem : Problem α} {config : Config α} {model : Model α}

theorem attempt_balanced {round passes passes' : Nat} {random : ρ} {o : Outcome α}
    (accepted : problem.Accepted config) (active : Active config)
    (ran : attempt problem config round passes random = .ok (.ok o, passes')) :
    ∃ count, Outcome.Balanced problem config count o := by
  obtain ⟨run, reached, _, log, report⟩ := attempt_reached active ran
  obtain ⟨_, valid, _⟩ := bind_ok.mp accepted.settings
  have counted := reached.counted valid active.cycles
  have total : (config.iterations - 1) * config.algorithm.cycles + (config.algorithm.cycles - 1) =
      config.iterations * config.algorithm.cycles - 1 := by
    rw [Nat.sub_mul, Nat.one_mul]
    have whole := Nat.le_mul_of_pos_left config.algorithm.cycles active.iterations
    have some := active.cycles
    omega
  have last : config.iterations * config.algorithm.cycles - 1 + 1 =
      config.iterations * config.algorithm.cycles :=
    Nat.succ_pred_eq_of_pos (Nat.mul_pos active.iterations active.cycles)
  obtain ⟨algorithm, evaluations, tallies⟩ := counted
  dsimp only [Phase.evaluations, Phase.decisions] at evaluations tallies
  rw [total, last] at evaluations tallies
  refine ⟨run.strategy.count, ?_⟩
  constructor
  case evaluations => rw [Outcome.evaluations, log, evaluations]
  case shown =>
    rw [report, ← algorithm]
    exact run.strategy.report_shows
  case balances =>
    rw [← algorithm] at tallies ⊢
    exact tallies.balances active.iterations
  case bounded =>
    exact tallies.count_le active.agents accepted.genes (Nat.sub_le _ 1)
  case history =>
    intro recorded
    obtain ⟨length, records⟩ := attempt_records active recorded ran
    rw [records.iterations, length]

omit [RandomSource ρ α] in
theorem conclude_totals {passes : Nat} {s : Summary α} {result : Result α}
    (ran : conclude problem config passes s = .ok result) :
    result.evaluations = s.evaluations ∧ result.report = s.report ∧
      result.history = s.history := by
  unfold conclude at ran
  split at ran
  · cases ran
  · obtain ⟨candidates, _, built⟩ := bind_ok.mp ran
    cases built
    exact ⟨rfl, rfl, rfl⟩

/-- What holds of every successful attempt holds of what the repeats of a search found. -/
theorem forall_finished {P : Outcome α → Prop} {passes : Nat} {seeds : List UInt64}
    {outcomes : List (Except (Error α) (Outcome α))}
    (each : ∀ (round before : Nat) (random : ρ) (o : Outcome α) (after : Nat),
      attempt problem config round before random = .ok (.ok o, after) → P o)
    (ran : attempts ρ problem config 0 0 seeds = .ok (outcomes, passes)) :
    ∀ o ∈ finished outcomes, P o := by
  intro o member
  obtain ⟨round, before, random, after, attempted⟩ := mem_attempts ran (mem_finished.mp member)
  exact each round before random o after attempted

namespace Concluded

variable {seed : UInt64} {outcomes : List (Except (Error α) (Outcome α))} {summary : Summary α}
  {result : Result α} (concluded : Concluded ρ problem config seed outcomes summary result)

include concluded

theorem exists_finished : ∃ o, o ∈ finished outcomes := by
  obtain ⟨passes, _, ended⟩ := concluded.attempted
  obtain ⟨o, success⟩ :=
    Summary.exists_success concluded.added concluded.tried rfl (conclude_ok ended).2
  exact ⟨o, mem_finished.mpr success⟩

/-- A result adds up what the repeats found. -/
theorem totals :
    result.evaluations = ((finished outcomes).map Outcome.evaluations).sum ∧
      result.report = ((finished outcomes).map (·.report)).foldl .merge .empty ∧
      result.history =
        if config.recordHistory then (finished outcomes).map (·.history) else [] := by
  obtain ⟨passes, _, ended⟩ := concluded.attempted
  obtain ⟨evaluations, report, history⟩ := Summary.addAll_totals concluded.added
  obtain ⟨evaluations', report', history'⟩ := conclude_totals ended
  refine ⟨?_, report'.trans report, ?_⟩
  · rw [evaluations', evaluations]
    exact Nat.zero_add _
  · rw [history', history]
    exact List.nil_append _

end Concluded

/-- The counters of a search balance.

In a successful repeat every agent that an iteration uses is evaluated once in each of its
cycles, every decision is counted once whichever way it goes, and where statistics are kept
each iteration has its entry. Genetic counters are bounded by the variations, of which there
is none after the last evaluation.

The evaluations, the report and the history of a result are put together from those of the
successful repeats. -/
theorem counters_balance (made : Problem.make model config.penaltyCoefficient = .ok problem)
    (valid : config.validate = .ok ())
    (fitting : config.algorithm.validateFor config.agents problem.schema.objectives = .ok ()) :
    (∀ (round passes : Nat) (random : ρ) (o : Outcome α) (passes' : Nat),
      attempt problem config round passes random = .ok (.ok o, passes') →
        ∃ count, Outcome.Balanced problem config count o) ∧
    ∀ fallback result, run ρ config fallback model = .ok result →
      ∃ outcomes passes, attempts ρ problem config 0 0 (streamSeeds config.repeats
          (RandomSource.ofSeed (config.seed.getD fallback) : ρ)) = .ok (outcomes, passes) ∧
        ∃ counts, List.Forall₂ (Outcome.Balanced problem config) counts (finished outcomes) ∧
          result.evaluations = ((finished outcomes).map Outcome.evaluations).sum ∧
          result.report.Shows config.algorithm.counters
            (fun name => (counts.map (· name)).sum) ∧
          result.history =
            if config.recordHistory then (finished outcomes).map (·.history) else [] := by
  have accepted := Problem.accepted made valid fitting
  have active := active_of_valid valid fitting
  refine ⟨fun round passes random o passes' => attempt_balanced accepted active,
    fun fallback result ran => ?_⟩
  obtain ⟨outcomes, summary, concluded⟩ := concluded_of_run made ran
  obtain ⟨passes, attempted, _⟩ := concluded.attempted
  have balanced : ∀ o ∈ finished outcomes, ∃ count, o.Balanced problem config count :=
    forall_finished (fun _ _ _ _ _ => attempt_balanced accepted active) attempted
  choose! count counted using balanced
  have each : List.Forall₂ (Outcome.Balanced problem config) ((finished outcomes).map count)
      (finished outcomes) :=
    List.forall₂_map_left_iff.mpr (List.forall₂_same.mpr counted)
  obtain ⟨evaluations, report, history⟩ := concluded.totals
  obtain ⟨o, success⟩ := concluded.exists_finished
  refine ⟨outcomes, passes, attempted, _, each, evaluations, ?_, history⟩
  obtain ⟨first, rest, some⟩ := List.exists_cons_of_ne_nil (List.ne_nil_of_mem success)
  rw [some] at each counted
  have shown : List.Forall₂ (Report.Shows config.algorithm.counters) (rest.map count)
      (rest.map (·.report)) :=
    List.forall₂_map_left_iff.mpr (List.forall₂_map_right_iff.mpr (List.forall₂_same.mpr
      fun o member => (counted o (List.mem_cons_of_mem _ member)).shown))
  rw [report, some]
  exact (counted first List.mem_cons_self).shown.empty_merge.foldl_merge shown

/-- The tabu searches of the budget, with their statistics. -/
def budgetCounting : Config Float := { budgetSearch with recordHistory := true }

/-- Two agents in each of two repeats, and one state in memory at the end of each. -/
theorem counters_balance_budget :
    Problem.make Schema.budget.model budgetCounting.penaltyCoefficient = .ok budgetProblem ∧
    budgetCounting.validate = .ok () ∧
    budgetCounting.algorithm.validateFor budgetCounting.agents
      budgetProblem.schema.objectives = .ok () ∧
    ∃ result, run (Generator Float) budgetCounting 0 Schema.budget.model = .ok result ∧
      result.evaluations = 4 ∧ result.report.get? "memory" = some 2 ∧
      result.history.map (·.map (·.iteration)) = [[0, 1], [0, 1]] := by
  have valid : budgetCounting.validate = .ok () := by rfl
  have fitting : budgetCounting.algorithm.validateFor budgetCounting.agents
      budgetProblem.schema.objectives = .ok () := by rfl
  have made : Problem.make Schema.budget.model budgetCounting.penaltyCoefficient =
      .ok budgetProblem := budget_made
  obtain ⟨result, ran⟩ : ∃ result,
      run (Generator Float) budgetCounting 0 Schema.budget.model = .ok result := by
    refine exists_ok ?_
    rw [run, made]
    decide +kernel
  obtain ⟨⟨outcomes, passes⟩, attempted, both⟩ := exists_ok_of_any
    (x := attempts (Generator Float) budgetProblem budgetCounting 0 0
      (streamSeeds 2 (RandomSource.ofSeed 7 : Generator Float)))
    (P := fun r => (finished r.1).length = 2) (by decide +kernel)
  obtain ⟨_, totals⟩ := counters_balance (ρ := Generator Float) made valid fitting
  obtain ⟨outcomes', passes', attempted', counts, each, evaluations, report, history⟩ :=
    totals 0 result ran
  have same := attempted.symm.trans attempted'
  cases same
  obtain ⟨o, o', two⟩ := List.length_eq_two.mp both
  rw [two] at each evaluations history
  obtain ⟨count, _, balanced, second, rfl⟩ := List.forall₂_cons_right_iff.mp each
  obtain ⟨count', _, balanced', none, rfl⟩ := List.forall₂_cons_right_iff.mp second
  cases none
  refine ⟨made, valid, fitting, result, ran, ?_, ?_, ?_⟩
  · rw [evaluations, List.map_cons, List.map_cons, List.sum_cons, List.sum_cons,
      balanced.evaluations, balanced'.evaluations]
    rfl
  · have one : count "memory" = 1 := (balanced.balances.2.2.2 rfl).2.2
    have one' : count' "memory" = 1 := (balanced'.balances.2.2.2 rfl).2.2
    rw [report.found, if_pos (by decide)]
    simp only [List.map_cons, List.map_nil, one, one']
    rfl
  · rw [history]
    simp only [budgetCounting, if_true, List.map_cons, List.map_nil]
    rw [balanced.history rfl, balanced'.history rfl]
    rfl

end Search
end Metaheuristic
