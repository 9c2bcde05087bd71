import Metaheuristic.Proofs.Number.Exact
import Metaheuristic.Quality.Direction

/-! Negation. Where nothing is rounded and zero has no sign, negating the operands
of an operation negates its result, and the order turns round. So maximizing a
value is minimizing its negation: every question about a direction has the same
answer for the opposite direction and the negated values. -/
namespace Metaheuristic

/-- The laws of negation. -/
class Scalar.LawfulNegation (α : Type) [Scalar α] : Prop where
  neg_neg (x : α) : - -x = x
  neg_zero : -(Scalar.zero : α) = Scalar.zero
  neg_notANumber : -(Scalar.notANumber : α) = Scalar.notANumber
  neg_add_neg (x y : α) : -x + -y = -(x + y)
  neg_sub_neg (x y : α) : -x - -y = -(x - y)
  neg_mul (x y : α) : -x * y = -(x * y)
  mul_neg (x y : α) : x * -y = -(x * y)
  neg_div (x y : α) : -x / y = -(x / y)
  abs_neg (x : α) : Scalar.abs (-x) = Scalar.abs x
  lt_neg (x y : α) : Scalar.lt (-x) (-y) = Scalar.lt y x
  beq_neg (x y : α) : (-x == -y) = (x == y)
  isFinite_neg (x : α) : Scalar.isFinite (-x) = Scalar.isFinite x

namespace Exact

variable {K : Type} [Field K]

section Raw

@[simp] theorem neg_of_finite (x : K) : neg (finite x) = finite (-x) := rfl

@[simp] theorem neg_of_infinity : neg (infinity : Exact K) = negInfinity := rfl

@[simp] theorem neg_of_negInfinity : neg (negInfinity : Exact K) = infinity := rfl

@[simp] theorem neg_of_undefined : neg (undefined : Exact K) = undefined := rfl

@[simp] theorem neg_neg' (x : Exact K) : neg (neg x) = x := by
  cases x <;> simp

theorem add_neg_neg (x y : Exact K) : add (neg x) (neg y) = neg (add x y) := by
  cases x <;> cases y <;> simp [add]
  exact add_comm _ _

variable [LinearOrder K] [IsStrictOrderedRing K]

@[simp] theorem infinityTimes_neg (x : K) : infinityTimes (-x) = neg (infinityTimes x) := by
  rcases lt_trichotomy x 0 with below | rfl | above
  · simp [infinityTimes, below, not_lt.mpr below.le]
  · simp [infinityTimes]
  · simp [infinityTimes, above, not_lt.mpr above.le]

theorem neg_mul' (x y : Exact K) : mul (neg x) y = neg (mul x y) := by
  cases x <;> cases y <;> simp [mul]

theorem mul_neg' (x y : Exact K) : mul x (neg y) = neg (mul x y) := by
  cases x <;> cases y <;> simp [mul]

theorem neg_div' (x y : Exact K) : div (neg x) y = neg (div x y) := by
  cases x with
  | finite x =>
    cases y with
    | finite y =>
      by_cases zero : y = 0 <;> simp [div, zero, neg_div]
    | infinity | negInfinity | undefined => simp [div]
  | infinity | negInfinity =>
    cases y with
    | finite y => by_cases negative : y < 0 <;> simp [div, negative]
    | infinity | negInfinity | undefined => simp [div]
  | undefined => rfl

end Raw

instance [LinearOrder K] [IsStrictOrderedRing K] [FloorRing K] [Elementary K] :
    Scalar.LawfulNegation (Exact K) where
  neg_neg := neg_neg'
  neg_zero := by rw [zero_eq, neg_finite, NegZeroClass.neg_zero]
  neg_notANumber := rfl
  neg_add_neg := add_neg_neg
  neg_sub_neg x y := add_neg_neg x (neg y)
  neg_mul := neg_mul'
  mul_neg := mul_neg'
  neg_div := neg_div'
  abs_neg x := by
    have unfolded : abs (neg x) = abs x := by cases x <;> simp [abs]
    exact unfolded
  lt_neg x y := by
    have unfolded : below (neg x) (neg y) = below y x := by cases x <;> cases y <;> simp [below]
    exact unfolded
  beq_neg x y := by
    have unfolded : same (neg x) (neg y) = same x y := by cases x <;> cases y <;> simp [same]
    exact unfolded
  isFinite_neg x := by cases x <;> rfl

end Exact

namespace Scalar

variable {α : Type} [Scalar α]

/-- A number, negated when it is turned round. -/
def turn (turned : Bool) (x : α) : α := if turned then -x else x

theorem turn_of_eq {k i : Nat} (same : k = i) : turn (k == i) = fun x : α => -x := by
  rw [beq_iff_eq.mpr same]
  rfl

theorem turn_of_ne {k i : Nat} (other : k ≠ i) : turn (k == i) = (id : α → α) := by
  rw [beq_eq_false_iff_ne.mpr other]
  rfl

variable [LawfulNegation α]

theorem isNaN_neg (x : α) : isNaN (-x) = isNaN x := by rw [isNaN, isNaN, LawfulNegation.beq_neg]

theorem min_neg (x y : α) : min (-x) (-y) = -max x y := by
  unfold min max
  simp only [isNaN_neg, LawfulNegation.lt_neg]
  split
  · rfl
  · split
    · rfl
    · split <;> rfl

theorem max_neg (x y : α) : max (-x) (-y) = -min x y := by
  have turned := min_neg (-x) (-y)
  rw [LawfulNegation.neg_neg, LawfulNegation.neg_neg] at turned
  rw [turned, LawfulNegation.neg_neg]

theorem sum_neg (xs : List α) : sum (xs.map fun x => -x) = -sum xs := by
  have from_start (start : α) : (xs.map fun x => -x).foldl (· + ·) (-start) =
      -xs.foldl (· + ·) start := by
    induction xs generalizing start with
    | nil => rfl
    | cons x xs ih =>
      rw [List.map_cons, List.foldl_cons, List.foldl_cons, LawfulNegation.neg_add_neg, ih]
  have start := from_start (-zero)
  have unsigned : - -(zero : α) = -zero := congrArg Neg.neg LawfulNegation.neg_zero
  rw [unsigned] at start
  exact start

theorem powInt_neg_two (x : α) : powInt (-x) 2 = powInt x 2 := by
  have square : -x * -x = x * x := by
    rw [LawfulNegation.neg_mul, LawfulNegation.mul_neg, LawfulNegation.neg_neg]
  have halves (y : α) : powInt y 2 = powLoop one (y * y) 1 := by
    have whole : powInt y 2 = powLoop one y 2 := rfl
    rw [whole, powLoop]
    simp
  rw [halves, halves, square]

variable (turned : Bool)

theorem turn_zero : turn turned (zero : α) = zero := by
  cases turned
  · rfl
  · exact LawfulNegation.neg_zero

theorem turn_notANumber : turn turned (notANumber : α) = notANumber := by
  cases turned
  · rfl
  · exact LawfulNegation.neg_notANumber

theorem isNaN_turn (x : α) : isNaN (turn turned x) = isNaN x := by
  cases turned
  · rfl
  · exact isNaN_neg x

theorem beq_turn (x y : α) : (turn turned x == turn turned y) = (x == y) := by
  cases turned
  · rfl
  · exact LawfulNegation.beq_neg x y

theorem abs_sub_turn (x y : α) : abs (turn turned x - turn turned y) = abs (x - y) := by
  cases turned
  · rfl
  · have negated : abs (-x - -y) = abs (x - y) := by
      rw [LawfulNegation.neg_sub_neg, LawfulNegation.abs_neg]
    exact negated

end Scalar

namespace Direction

/-- The other direction. -/
def opposite : Direction → Direction
  | minimize => maximize
  | maximize => minimize

/-- A direction, opposed when it is turned round. -/
def turn (turned : Bool) (d : Direction) : Direction := if turned then d.opposite else d

variable {α : Type} [Scalar α] [Scalar.LawfulNegation α] (turned : Bool) (d : Direction)

theorem sign_opposite : (d.opposite.sign : α) = -d.sign := by
  cases d with
  | minimize => exact (Scalar.LawfulNegation.neg_neg _).symm
  | maximize => rfl

theorem worst_turn : ((d.turn turned).worst : α) = Scalar.turn turned d.worst := by
  cases turned with
  | false => rfl
  | true =>
    cases d with
    | minimize => rfl
    | maximize => exact (Scalar.LawfulNegation.neg_neg _).symm

theorem isBetter_turn (x y : α) :
    (d.turn turned).isBetter (Scalar.turn turned x) (Scalar.turn turned y) = d.isBetter x y := by
  cases turned with
  | false => rfl
  | true =>
    cases d with
    | minimize => exact Scalar.LawfulNegation.lt_neg y x
    | maximize => exact Scalar.LawfulNegation.lt_neg x y

theorem compare_turn (x y : α) :
    (d.turn turned).compare (Scalar.turn turned x) (Scalar.turn turned y) = d.compare x y := by
  unfold compare
  simp only [Scalar.isNaN_turn, isBetter_turn]

theorem toMinimum_turn (x : α) :
    (d.turn turned).toMinimum (Scalar.turn turned x) = d.toMinimum x := by
  cases turned with
  | false => rfl
  | true =>
    have unfolded : (d.turn true).toMinimum (Scalar.turn true x) = -d.opposite.sign * -x := rfl
    rw [unfolded, sign_opposite, toMinimum, Scalar.LawfulNegation.neg_neg,
      Scalar.LawfulNegation.mul_neg, Scalar.LawfulNegation.neg_mul]

end Direction
end Metaheuristic
