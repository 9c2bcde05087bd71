import Metaheuristic.Proofs.Model.Satisfaction
import Metaheuristic.Proofs.Population.Evaluated
import Metaheuristic.Proofs.Quality.Penalty
import Metaheuristic.Proofs.Search.Run

/-! Rewards after an evaluation. Every reward is a penalized fitness, so it is a number, whatever a
model computes, and numbers are what sorting and record keeping rely on: better is a total order of
the rewards that were written, and comparing agrees with it. -/
namespace Metaheuristic

section Slots

variable {α : Type}

/-- The rewards of all rows in a region. -/
def Population.slots (p : Population α) (region : Region) : List α :=
  p.rows.flatMap fun r => (r.block region).rewards

variable [Scalar α] [Scalar.LawfulOrder α] {s : Scoring α} {e : Evaluation α} {l : Layout} {n : Nat}
  {p q : Population α} {region : Region}

theorem Scoring.Scores.defined {i : Nat} {status : Feasibility} {rewards : List α}
    (scores : s.Scores e i status rewards) : ∀ x ∈ rewards, Scalar.isNaN x = false := by
  obtain ⟨penalty, _, _, length, places⟩ := scores
  intro x member
  obtain ⟨k, place⟩ := List.mem_iff_getElem?.mp member
  have below : k < s.directions.length := length ▸ (List.getElem?_eq_some_iff.mp place).1
  obtain ⟨_, objective, _, _, reward⟩ := places k _ (List.getElem?_eq_getElem below)
  rw [place] at reward
  cases reward
  exact s.fitness_defined ..

/-- No reward that was written is undefined, in whichever region. -/
theorem Scoring.slots_defined (sized : p.Sized l n) (objectives : l.objectives = s.objectives)
    (ran : s.assign e p region = .ok q) : ∀ x ∈ q.slots region, Scalar.isNaN x = false := by
  have written := assign_written sized objectives ran
  intro x member
  obtain ⟨r, row, reward⟩ := List.mem_flatMap.mp member
  obtain ⟨i, place⟩ := List.mem_iff_getElem?.mp row
  have below : i < n := written.sized.length ▸ (List.getElem?_eq_some_iff.mp place).1
  exact (written.scored i below r place).defined x reward

end Slots

namespace Run

/-- An accepted scoring with a positive coefficient never makes a fitness better for a larger
violation, and makes that of a finite value worse; without a violation it keeps the value. Its
fitness is never undefined. So after an evaluation no reward of the evaluated region is undefined,
and under either direction the rewards stand in a total order. -/
theorem penalties_never_improve {ρ K : Type} [Field K] [LinearOrder K] [FloorRing K] [Elementary K]
    [IsStrictOrderedRing K] {coefficient : Exact K} {directions : List Direction} {constraints : Nat}
    {problem : Problem (Exact K)}
    (made : Scoring.make coefficient directions constraints = .ok problem.scoring) :
    (∀ (d : Direction) (objective p q : Exact K), Scalar.lt Scalar.zero coefficient = true →
      Scalar.le Scalar.zero p = true → Scalar.le p q = true →
        d.isBetter (problem.scoring.fitness objective q d)
          (problem.scoring.fitness objective p d) = false ∧
        (Scalar.isFinite objective = true → Scalar.isFinite p = true → Scalar.lt p q = true →
          d.isBetter (problem.scoring.fitness objective p d)
            (problem.scoring.fitness objective q d) = true)) ∧
    (∀ (d : Direction) (objective : Exact K), Scalar.isNaN objective = false →
      problem.scoring.fitness objective Scalar.zero d = objective) ∧
    (∀ (d : Direction) (objective penalty : Exact K),
      Scalar.isNaN (problem.scoring.fitness objective penalty d) = false) ∧
    (∀ (l : Layout) (n : Nat) (region : Region) e (p q : Population (Exact K)), p.Sized l n →
      l.objectives = problem.scoring.objectives → problem.scoring.assign e p region = .ok q →
        (∀ x ∈ q.slots region, Scalar.isNaN x = false) ∧
          ∀ d : Direction, d.Orders (q.slots region)) ∧
    ∀ (algorithm : Algorithm (Exact K)) (n round : Nat) progress (run run' : Run ρ (Exact K)),
      run.population.Sized (problem.layout algorithm) n →
      (evaluate problem round progress).run.run run = (.ok (), run') →
        (∀ x ∈ run'.population.slots .trial, Scalar.isNaN x = false) ∧
          ∀ d : Direction, d.Orders (run'.population.slots .trial) := by
  obtain ⟨same, c, rfl, lower⟩ := Scoring.make_ok made
  refine ⟨?_, ?_, ?_, ?_, ?_⟩
  · intro d objective p q positive from_zero farther
    rw [Exact.zero_eq, Exact.lt_eq, Exact.below, decide_eq_true_iff] at positive
    have amount := Exact.amount_of_le from_zero
    refine ⟨Scoring.fitness_mono same positive amount farther, fun value violation more => ?_⟩
    obtain ⟨b, rfl⟩ := Exact.isFinite_iff.mp value
    obtain ⟨a, rfl⟩ := Exact.isFinite_iff.mp violation
    exact Scoring.fitness_strict same positive (Exact.amount_finite.mp amount) more
  · intro d objective defined
    exact Scoring.fitness_zero same defined
  · intro d objective penalty
    exact problem.scoring.fitness_defined objective penalty d
  · intro l n region e p q sized objectives ran
    have defined := Scoring.slots_defined sized objectives ran
    exact ⟨defined, fun d => Direction.orders_of_defined defined⟩
  · intro algorithm n round progress run run' sized ran
    obtain ⟨_, e, population, _, _, _, _, _, assigned, _, _, _, rfl⟩ := evaluate_ok ran
    have defined := Scoring.slots_defined sized rfl assigned
    exact ⟨defined, fun d => Direction.orders_of_defined defined⟩

/-- The doses with a coefficient of two. -/
def doseProblem : Problem (Exact ℚ) :=
  ⟨Pass.dose.model, Pass.doseSchema, ⟨.finite 2, [.minimize], 2⟩⟩

/-- A pack of wolves with the genes of the doses, before the first evaluation. -/
def dosing : Run Unit (Exact ℚ) where
  strategy := (Algorithm.greyWolf .default).strategy
  population := ⟨⟨1, 1, false⟩, 3, Pass.doses.rows.map fun genes =>
    ⟨⟨genes, .infeasible, [.undefined]⟩, none⟩⟩
  ledger := .empty [.minimize] none 0
  random := ()

theorem dosing_sized :
    dosing.population.Sized (doseProblem.layout (.greyWolf .default)) 3 := by
  refine ⟨rfl, rfl, rfl, fun i r place => ?_⟩
  obtain ⟨genes, member, rfl⟩ := List.mem_map.mp (List.mem_of_getElem? place)
  have single : ∀ genes ∈ Pass.doses.rows, genes.length = 1 := by decide
  exact ⟨⟨single genes member, rfl⟩, nofun, rfl⟩

/-- The second agent pays for what it takes too much, and the third one, whose gene is undefined,
gets the worst reward. The best value is worth nothing under an infinite violation. -/
theorem penalties_never_improve_dose :
    Scoring.make (.finite 2) [.minimize] 2 = .ok doseProblem.scoring ∧
    Direction.minimize.isBetter (doseProblem.scoring.fitness .negInfinity .infinity .minimize)
      (doseProblem.scoring.fitness .negInfinity (.finite 1) .minimize) = false ∧
    Direction.minimize.isBetter (doseProblem.scoring.fitness (.finite 5) (.finite 1) .minimize)
      (doseProblem.scoring.fitness (.finite 5) (.finite (7 / 2)) .minimize) = true ∧
    doseProblem.scoring.fitness .negInfinity Scalar.zero .minimize = .negInfinity ∧
    ∃ run', (evaluate doseProblem 0 ⟨0, 1⟩).run.run dosing = (.ok (), run') ∧
      run'.population.slots .trial = [.finite (5 / 2), .finite (59 / 2), .infinity] ∧
      Direction.minimize.Orders (run'.population.slots .trial) := by
  have made : Scoring.make (.finite 2) [.minimize] 2 = .ok doseProblem.scoring := by rfl
  obtain ⟨mono, free, _, _, evaluated⟩ := penalties_never_improve (ρ := Unit) made
  have ran : ((evaluate doseProblem 0 ⟨0, 1⟩).run.run dosing).1.toOption = some () ∧
      ((evaluate doseProblem 0 ⟨0, 1⟩).run.run dosing).2.population.slots .trial =
        [.finite (5 / 2), .finite (59 / 2), .infinity] := by
    decide +kernel
  refine ⟨made, ?_, ?_, ?_, ?_⟩
  · exact (mono .minimize .negInfinity (.finite 1) .infinity (by decide) (by decide) (by decide)).1
  · exact (mono .minimize (.finite 5) (.finite 1) (.finite (7 / 2)) (by decide) (by decide)
      (by decide +kernel)).2 rfl rfl (by decide +kernel)
  · exact free .minimize .negInfinity rfl
  · cases ended : (evaluate doseProblem 0 ⟨0, 1⟩).run.run dosing with
    | mk result run' =>
      rw [ended] at ran
      cases result with
      | error failure => cases ran.1
      | ok u =>
        have ordered := (evaluated _ 3 0 ⟨0, 1⟩ dosing run' dosing_sized ended).2 .minimize
        exact ⟨run', rfl, ran.2, ordered⟩

end Run
end Metaheuristic
