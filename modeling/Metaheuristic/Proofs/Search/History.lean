import Metaheuristic.Proofs.Search.Places

/-! The history of a repeat. Where statistics are kept there is an entry for every iteration,
taken from the state that the iteration ends with. -/
namespace Metaheuristic

variable {ρ α : Type} [Scalar α] [RandomSource ρ α]

theorem Statistics.ofColumn_iteration (iteration : Nat) (column : List α) :
    (ofColumn iteration column).iteration = iteration := by
  unfold ofColumn
  dsimp only
  split <;> rfl

omit [RandomSource ρ α] in
/-- What statistics are taken of: the incumbents where there are some, and else the rewards of
the last evaluation. -/
theorem Run.statistics_column {config : Config α} {iteration : Nat} {run run' : Run ρ α}
    {s : Statistics α}
    (ran : (Run.statistics config iteration).run.run run = (.ok s, run')) :
    ∃ column, s = .ofColumn iteration column ∧
      if config.algorithm.twoPhase then
        run.population.rewardColumn config.algorithm.incumbent 0 = .ok column
      else column = run.ledger.latest := by
  obtain ⟨_, _, got, ran⟩ := run_bind_ok ran
  cases got
  split at ran
  · rename_i phases
    obtain ⟨column, read, ran⟩ := Run.ofExcept_ok ran
    cases ran
    exact ⟨column, rfl, by rw [if_pos phases]; exact read⟩
  · rename_i single
    cases ran
    exact ⟨_, rfl, by rw [if_neg single]⟩

namespace Repeat

variable {r : Repeat ρ α} {i k : Nat} {phase : Phase} {run run' : Run ρ α}

/-- Statistics taken of the states that some iterations end with, the first of them having the
given number. -/
def Records (r : Repeat ρ α) (i : Nat) (history : List (Statistics α)) : Prop :=
  ∀ (j : Nat) s, history[j]? = some s → ∃ run,
    r.Reached (i + j) (r.config.algorithm.cycles - 1) .settled run ∧
      (Run.statistics r.config (i + j)).run.run run = (.ok s, run)

theorem Records.cons {history : List (Statistics α)} {s : Statistics α}
    (reached : r.Reached i (r.config.algorithm.cycles - 1) .settled run)
    (seen : (Run.statistics r.config i).run.run run = (.ok s, run))
    (records : r.Records (i + 1) history) : r.Records i (s :: history) := by
  intro j t place
  cases j with
  | zero =>
    cases place
    exact ⟨run, reached, seen⟩
  | succ j =>
    obtain ⟨run', reached', seen'⟩ := records j t place
    have shifted : i + 1 + j = i + (j + 1) := by omega
    rw [shifted] at reached' seen'
    exact ⟨run', reached', seen'⟩

/-- The entries of a history are those of consecutive iterations. -/
theorem Records.iterations {history : List (Statistics α)} (records : r.Records 0 history) :
    history.map (·.iteration) = List.range history.length := by
  refine List.ext_getElem? fun j => ?_
  rw [List.getElem?_map]
  by_cases inside : j < history.length
  · obtain ⟨run, _, seen⟩ := records j _ (List.getElem?_eq_getElem inside)
    obtain ⟨column, same, _⟩ := Run.statistics_column seen
    rw [List.getElem?_eq_getElem inside, List.getElem?_range inside, Option.map_some, same,
      Statistics.ofColumn_iteration, Nat.zero_add]
  · rw [List.getElem?_eq_none (Nat.le_of_not_lt inside),
      List.getElem?_eq_none (by rw [List.length_range]; exact Nat.le_of_not_lt inside)]
    rfl

/-- An iteration that is recorded, and what comes after it. -/
private theorem iterate_ok (recorded : r.config.recordHistory = true)
    (positive : 0 < r.config.algorithm.cycles) {left : Nat} {history : List (Statistics α)}
    (reached : r.Reached i 0 .ready run)
    (ran : (Run.iterate r.problem r.config r.round (left + 1) i).run.run run =
      (.ok history, run')) :
    ∃ middle s rest next, r.Reached i (r.config.algorithm.cycles - 1) .settled middle ∧
      (Run.statistics r.config i).run.run middle = (.ok s, middle) ∧ history = s :: rest ∧
      (Run.between r.config left i).run.run middle = (.ok (), next) ∧
      (Run.iterate r.problem r.config r.round left (i + 1)).run.run next = (.ok rest, run') := by
  rw [Run.iterate_succ] at ran
  obtain ⟨_, middle, updated, ran⟩ := run_bind_ok ran
  obtain ⟨entry, seen, recording, ran⟩ := run_bind_ok ran
  obtain ⟨_, next, between, ran⟩ := run_bind_ok ran
  obtain ⟨rest, last, later, built⟩ := run_bind_ok ran
  cases built
  have settled := (leads_update i positive run reached).1 () middle updated
  rw [Run.recording, if_pos recorded] at recording
  obtain ⟨s, looked, seeing, built⟩ := run_bind_ok recording
  cases built
  cases Run.statistics_ok seeing
  exact ⟨middle, s, rest, next, settled, seeing, rfl, between, later⟩

/-- By induction on the iterations that are left after the next one. -/
theorem iterate_records (recorded : r.config.recordHistory = true)
    (positive : 0 < r.config.algorithm.cycles) {left : Nat} {history : List (Statistics α)}
    (budget : i + left + 1 = r.config.iterations) (reached : r.Reached i 0 .ready run)
    (ran : (Run.iterate r.problem r.config r.round (left + 1) i).run.run run =
      (.ok history, run')) :
    history.length = left + 1 ∧ r.Records i history := by
  induction left generalizing i run history with
  | zero =>
    obtain ⟨middle, s, rest, next, settled, seen, rfl, _, later⟩ :=
      iterate_ok recorded positive reached ran
    cases later
    exact ⟨rfl, .cons settled seen nofun⟩
  | succ left ih =>
    obtain ⟨middle, s, rest, next, settled, seen, rfl, between, later⟩ :=
      iterate_ok recorded positive reached ran
    rw [Run.between_succ] at between
    have ready : r.Reached (i + 1) 0 .ready next :=
      .after settled (Nat.succ_pred_eq_of_pos positive) (by omega) between
    obtain ⟨length, records⟩ := ih (by omega) ready later
    exact ⟨congrArg Nat.succ length, .cons settled seen records⟩

end Repeat

namespace Search

variable {problem : Problem α} {config : Config α}

/-- The history of a successful repeat has an entry for each iteration. -/
theorem attempt_records {round passes passes' : Nat} {random : ρ} {o : Outcome α}
    (active : Active config) (recorded : config.recordHistory = true)
    (ran : attempt problem config round passes random = .ok (.ok o, passes')) :
    o.history.length = config.iterations ∧
      (⟨problem, config, round, passes, random⟩ : Repeat ρ α).Records 0 o.history := by
  obtain ⟨first, last, started, ended, _⟩ := attempt_ok ran
  obtain ⟨left, iterations⟩ := Nat.exists_eq_succ_of_ne_zero (Nat.ne_of_gt active.iterations)
  let r : Repeat ρ α := ⟨problem, config, round, passes, random⟩
  rw [iterations] at ended
  obtain ⟨length, records⟩ := r.iterate_records recorded active.cycles
    ((congrArg Nat.succ (Nat.zero_add left)).trans iterations.symm) (.start started) ended
  exact ⟨length.trans iterations.symm, records⟩

end Search
end Metaheuristic
