import Metaheuristic.Proofs.Computation
import Metaheuristic.Proofs.Number.Amount
import Metaheuristic.Proofs.Search.Statistics
import Metaheuristic.Quality.Scoring

/-! What a violation does to a fitness. A positive coefficient moves a defined objective value
towards the worst value by the square of the violation times the coefficient, and an infinite
violation leads all the way, also where the arithmetic says nothing. So over exact numbers a
larger violation never makes a fitness better, and no violation leaves the value as it is. -/
namespace Metaheuristic

/-- An undefined fitness counts as the worst one, so every fitness is a number. -/
theorem Scoring.fitness_defined {α : Type} [Scalar α] [Scalar.LawfulOrder α] (s : Scoring α)
    (objective penalty : α) (d : Direction) :
    Scalar.isNaN (s.fitness objective penalty d) = false := by
  unfold fitness
  dsimp only
  split
  · exact Direction.worst_defined
  · rename_i defined
    simpa using defined

variable {K : Type} [Field K] [LinearOrder K] [FloorRing K] [Elementary K] {d : Direction}
  {c a b : K} {objective p q : Exact K}

namespace Direction

/-- A value that is moved that far to the worse side. -/
def worsen (d : Direction) (x : Exact K) (far : K) : Exact K :=
  match d with
  | minimize => x + .finite far
  | maximize => x - .finite far

theorem worsen_zero (x : Exact K) : d.worsen x 0 = x := by
  cases d with
  | minimize => exact Exact.add_zero x
  | maximize =>
    have unfolded : x - .finite 0 = x + .finite (-0) := rfl
    rw [worsen, unfolded, neg_zero, Exact.add_zero]

theorem isNaN_worsen (x : Exact K) (far : K) :
    Scalar.isNaN (d.worsen x far) = Scalar.isNaN x := by
  cases x with
  | finite a => cases d <;> exact (Exact.isNaN_finite _).trans (Exact.isNaN_finite _).symm
  | infinity | negInfinity | undefined => cases d <;> rfl

variable [IsStrictOrderedRing K]

/-- A finite value that is moved is better exactly when it is moved less far. -/
theorem isBetter_worsen {near far : K} (x : K) :
    d.isBetter (d.worsen (.finite x) near) (d.worsen (.finite x) far) = true ↔ near < far := by
  cases d with
  | minimize =>
    rw [isBetter, worsen, worsen, Exact.finite_add, Exact.finite_add, Exact.lt_eq, Exact.below,
      decide_eq_true_iff]
    exact add_lt_add_iff_left x
  | maximize =>
    rw [isBetter, worsen, worsen, Exact.finite_sub, Exact.finite_sub, Exact.lt_eq, Exact.below,
      decide_eq_true_iff]
    exact sub_lt_sub_iff_left x

/-- Whatever the value is, it is not better when it is moved farther. -/
theorem worsen_mono {near far : K} (farther : near ≤ far) (x : Exact K) :
    d.isBetter (d.worsen x far) (d.worsen x near) = false := by
  cases x with
  | finite a =>
    rw [Bool.eq_false_iff, ne_eq, isBetter_worsen]
    exact farther.not_gt
  | infinity | negInfinity | undefined => cases d <;> rfl

end Direction

namespace Scoring

variable {s : Scoring (Exact K)}

/-- An accepted coefficient is a finite number that is not negative. -/
theorem make_ok {coefficient : Exact K} {directions : List Direction} {constraints : Nat}
    (made : make coefficient directions constraints = .ok s) :
    s.coefficient = coefficient ∧ ∃ c : K, coefficient = .finite c ∧ 0 ≤ c := by
  obtain ⟨_, checked, made⟩ := bind_ok.mp made
  unfold checkCoefficient at checked
  split at checked
  · cases checked
  · rename_i valid
    simp only [Bool.or_eq_true, Bool.not_eq_true', not_or, Bool.not_eq_false,
      Bool.not_eq_true] at valid
    obtain ⟨c, rfl⟩ := Exact.isFinite_iff.mp valid.1
    rw [Exact.zero_eq, Exact.lt_eq, Exact.below, decide_eq_false_iff_not, not_lt] at valid
    refine ⟨?_, c, rfl, valid.2⟩
    split at made
    · cases made
    · cases made
      rfl

theorem fitness_finite (coefficient : s.coefficient = .finite c) :
    s.fitness objective (.finite a) d =
      if Scalar.isNaN objective then d.worst else d.worsen objective (c * a * a) := by
  have value : objective - d.sign * s.coefficient * .finite a * .finite a =
      d.worsen objective (c * a * a) := by
    rw [coefficient]
    cases d with
    | minimize =>
      have sign : Direction.minimize.sign = (.finite (-1) : Exact K) := by
        rw [Direction.sign, Exact.one_eq, Exact.neg_finite]
      rw [sign, Exact.finite_mul, Exact.finite_mul, Exact.finite_mul, Direction.worsen]
      have turned : objective - .finite (-1 * c * a * a) =
          objective + .finite (-(-1 * c * a * a)) := rfl
      rw [turned]
      congr 2
      ring
    | maximize =>
      rw [Direction.sign, Exact.one_eq, Exact.finite_mul, Exact.finite_mul, Exact.finite_mul,
        one_mul, Direction.worsen]
  rw [fitness, value]
  simp only [Direction.isNaN_worsen]

theorem fitness_zero (coefficient : s.coefficient = .finite c)
    (defined : Scalar.isNaN objective = false) : s.fitness objective Scalar.zero d = objective := by
  rw [Exact.zero_eq, fitness_finite coefficient, defined, if_neg Bool.false_ne_true, mul_zero,
    Direction.worsen_zero]

variable [IsStrictOrderedRing K]

/-- An infinite violation leads to the worst value, even from the best one. -/
theorem fitness_infinity (coefficient : s.coefficient = .finite c) (positive : 0 < c) :
    s.fitness objective .infinity d = d.worst := by
  have above {x : K} (positive : 0 < x) : (.finite x * .infinity : Exact K) = .infinity :=
    if_pos positive
  have beneath {x : K} (negative : x < 0) : (.finite x * .infinity : Exact K) = .negInfinity :=
    (if_neg negative.not_gt).trans (if_pos negative)
  have upper : (.infinity * .infinity : Exact K) = .infinity := rfl
  have lower : (.negInfinity * .infinity : Exact K) = .negInfinity := rfl
  rw [fitness, coefficient]
  cases d with
  | minimize =>
    rw [Direction.sign, Exact.one_eq, Exact.neg_finite, Exact.finite_mul,
      neg_one_mul, beneath (neg_neg_of_pos positive), lower]
    cases objective <;> rfl
  | maximize =>
    rw [Direction.sign, Exact.one_eq, Exact.finite_mul, one_mul, above positive, upper]
    cases objective <;> rfl

omit [FloorRing K] [Elementary K] in
/-- The way to the worse side grows with the violation. -/
theorem square_lt (positive : 0 < c) (lower : 0 ≤ a) (farther : a < b) :
    c * a * a < c * b * b := by
  rw [mul_assoc, mul_assoc]
  exact mul_lt_mul_of_pos_left (mul_self_lt_mul_self lower farther) positive

/-- A larger violation makes no fitness better, whatever the objective value is. -/
theorem fitness_mono (coefficient : s.coefficient = .finite c) (positive : 0 < c) (first : p.Amount)
    (farther : Scalar.le p q = true) :
    d.isBetter (s.fitness objective q d) (s.fitness objective p d) = false := by
  cases q with
  | infinity =>
    rw [fitness_infinity coefficient positive]
    exact Direction.not_worst_isBetter _
  | finite b =>
    obtain rfl | ⟨a, lower, rfl⟩ := Exact.amount_iff.mp first
    · cases farther
    · rw [fitness_finite coefficient, fitness_finite coefficient]
      split
      · exact Direction.isBetter_irrefl
      · rcases (Exact.le_finite.mp farther).eq_or_lt with rfl | more
        · exact Direction.isBetter_irrefl
        · exact Direction.worsen_mono (square_lt positive lower more).le objective
  | negInfinity | undefined =>
    obtain rfl | ⟨a, _, rfl⟩ := Exact.amount_iff.mp first <;> cases farther

/-- It makes the fitness of a finite value worse. -/
theorem fitness_strict (coefficient : s.coefficient = .finite c) (positive : 0 < c) (lower : 0 ≤ a)
    (farther : Scalar.lt (.finite a) q = true) :
    d.isBetter (s.fitness (.finite b) (.finite a) d) (s.fitness (.finite b) q d) = true := by
  rw [fitness_finite coefficient, Exact.isNaN_finite, if_neg Bool.false_ne_true]
  cases q with
  | infinity =>
    rw [fitness_infinity coefficient positive]
    exact (Direction.finite_iff.mp (by cases d <;> rfl)).1
  | finite a' =>
    rw [Exact.lt_eq, Exact.below, decide_eq_true_iff] at farther
    rw [fitness_finite coefficient, Exact.isNaN_finite, if_neg Bool.false_ne_true]
    exact (Direction.isBetter_worsen b).mpr (square_lt positive lower farther)
  | negInfinity | undefined => cases farther

end Scoring
end Metaheuristic
