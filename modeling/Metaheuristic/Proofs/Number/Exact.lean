import Mathlib.Algebra.Order.Field.Basic
import Mathlib.Algebra.Order.Floor.Ring
import Mathlib.Data.Rat.Floor
import Mathlib.Data.Rat.Sqrt
import Metaheuristic.Proofs.Number.Order

/-! Exact numbers: an ordered field with two infinities and one value for every
undefined operation. They calculate as doubles do, without rounding and with a
single zero. Square roots, exponentials and powers stay uninterpreted, so what is
proved over exact numbers holds whatever these functions are. -/
namespace Metaheuristic

/-- The elements of a field, two infinities and an undefined value. -/
inductive Exact (K : Type) where
  | finite (x : K)
  | infinity
  | negInfinity
  | undefined
  deriving DecidableEq, Repr

/-- Any choice of the functions that a field does not have. -/
class Elementary (K : Type) where
  sqrt : Exact K → Exact K
  exp : Exact K → Exact K
  pow : Exact K → Exact K → Exact K

namespace Exact

variable {K : Type}

section Operations

variable [Field K] [LinearOrder K]

def neg : Exact K → Exact K
  | finite x => finite (-x)
  | infinity => negInfinity
  | negInfinity => infinity
  | undefined => undefined

/-- Infinities of opposite sign do not add up. -/
def add : Exact K → Exact K → Exact K
  | finite x, finite y => finite (x + y)
  | finite _, infinity | infinity, finite _ | infinity, infinity => infinity
  | finite _, negInfinity | negInfinity, finite _ | negInfinity, negInfinity => negInfinity
  | _, _ => undefined

/-- Infinity times a finite number. -/
def infinityTimes (x : K) : Exact K :=
  if 0 < x then infinity else if x < 0 then negInfinity else undefined

def mul : Exact K → Exact K → Exact K
  | finite x, finite y => finite (x * y)
  | finite x, infinity | infinity, finite x => infinityTimes x
  | finite x, negInfinity | negInfinity, finite x => infinityTimes (-x)
  | infinity, infinity | negInfinity, negInfinity => infinity
  | infinity, negInfinity | negInfinity, infinity => negInfinity
  | _, _ => undefined

/-- A quotient by zero has the sign of the dividend. -/
def div : Exact K → Exact K → Exact K
  | finite x, finite y => if y = 0 then infinityTimes x else finite (x / y)
  | finite _, infinity | finite _, negInfinity => finite 0
  | infinity, finite y => if y < 0 then negInfinity else infinity
  | negInfinity, finite y => if y < 0 then infinity else negInfinity
  | _, _ => undefined

def same : Exact K → Exact K → Bool
  | finite x, finite y => x = y
  | infinity, infinity | negInfinity, negInfinity => true
  | _, _ => false

def below : Exact K → Exact K → Bool
  | finite x, finite y => x < y
  | negInfinity, finite _ | negInfinity, infinity | finite _, infinity => true
  | _, _ => false

/-- The order of all values, the undefined one last. -/
def compare : Exact K → Exact K → Ordering
  | finite x, finite y => Ord.compare x y
  | negInfinity, negInfinity | infinity, infinity | undefined, undefined => .eq
  | negInfinity, _ | _, undefined | finite _, infinity => .lt
  | _, negInfinity | undefined, _ | infinity, finite _ => .gt

def abs : Exact K → Exact K
  | finite x => finite |x|
  | infinity | negInfinity => infinity
  | undefined => undefined

variable [FloorRing K]

/-- Nearest whole number, halves away from zero. -/
def nearest (x : K) : Int := if 0 ≤ x then ⌊x + 1 / 2⌋ else -⌊-x + 1 / 2⌋

/-- Applies a function into the whole numbers. -/
def whole (f : K → Int) : Exact K → Exact K
  | finite x => finite (f x)
  | x => x

def toWord : Exact K → Nat
  | finite x => Nat.min ⌊x⌋.toNat (wordCount - 1)
  | infinity => wordCount - 1
  | negInfinity | undefined => 0

def toSigned : Exact K → Int
  | finite x =>
    if 0 ≤ x then Nat.min ⌊x⌋.toNat (wordCount / 2 - 1) else -Nat.min ⌊-x⌋.toNat (wordCount / 2)
  | infinity => (wordCount / 2 - 1 : Nat)
  | negInfinity => -(wordCount / 2 : Nat)
  | undefined => 0

instance [Elementary K] : Scalar (Exact K) where
  add := add
  sub x y := add x (neg y)
  mul := mul
  div := div
  neg := neg
  beq := same
  ofNat n := finite n
  infinity := infinity
  notANumber := undefined
  lt := below
  le x y := below x y || same x y
  isFinite
    | finite _ => true
    | _ => false
  totalOrder := compare
  abs := abs
  sqrt := Elementary.sqrt
  floor := whole Int.floor
  round := whole nearest
  exp := Elementary.exp
  pow := Elementary.pow
  toWord := toWord
  toSigned := toSigned

end Operations

section Laws

variable [Field K] [LinearOrder K] [FloorRing K] [Elementary K] {x y z : Exact K}

theorem isNaN_eq_false : Scalar.isNaN x = false ↔ x ≠ undefined := by
  have unfolded : Scalar.isNaN x = !same x x := rfl
  rw [unfolded]
  cases x <;> simp [same]

theorem lt_eq (x y : Exact K) : Scalar.lt x y = below x y := rfl

theorem beq_eq (x y : Exact K) : (x == y) = same x y := rfl

theorem le_eq (x y : Exact K) : Scalar.le x y = (below x y || same x y) := rfl

theorem le_finite {a b : K} : Scalar.le (finite a) (finite b : Exact K) = true ↔ a ≤ b := by
  rw [le_eq]
  simp [below, same, le_iff_lt_or_eq]

instance : Scalar.LawfulOrder (Exact K) where
  lt_irrefl x := by
    rw [lt_eq]
    cases x <;> simp [below]
  lt_trans {x y z} first second := by
    rw [lt_eq] at first second ⊢
    cases x <;> cases y <;> cases z <;> simp [below] at first second ⊢
    exact first.trans second
  lt_or_lt {x y} z defined first := by
    rw [lt_eq] at first ⊢
    rw [lt_eq]
    rw [isNaN_eq_false] at defined
    cases x <;> cases y <;> cases z <;> simp [below] at first defined ⊢
    exact (lt_or_ge _ _).imp_right fun upper => upper.trans_lt first
  defined_of_lt {x y} first := by
    rw [lt_eq] at first
    rw [isNaN_eq_false, isNaN_eq_false]
    cases x <;> cases y <;> simp [below] at first ⊢
  eq_iff {x y} := by
    rw [isNaN_eq_false, isNaN_eq_false, lt_eq, lt_eq, beq_eq]
    cases x <;> cases y <;> simp [below, same]
    exact le_antisymm_iff.trans and_comm
  le_iff {x y} := by
    rw [le_eq, lt_eq, beq_eq, Bool.or_eq_true]
  finite_iff {x} := by
    have lower : -(Scalar.infinity : Exact K) = negInfinity := rfl
    rw [lt_eq, lt_eq, lower]
    cases x <;> simp [Scalar.isFinite, Scalar.infinity, below]
  infinity_defined := rfl
  neg_infinity_defined := rfl

theorem zero_eq : (Scalar.zero : Exact K) = finite 0 := congrArg finite Nat.cast_zero

theorem one_eq : (Scalar.one : Exact K) = finite 1 := congrArg finite Nat.cast_one

theorem finite_add (a b : K) : (finite a + finite b : Exact K) = finite (a + b) := rfl

theorem add_zero (x : Exact K) : x + finite 0 = x := by
  cases x with
  | finite a => exact congrArg finite (AddMonoid.add_zero a)
  | infinity | negInfinity | undefined => rfl

theorem infinity_add_finite (a : K) : (infinity + finite a : Exact K) = infinity := rfl

theorem finite_mul (a b : K) : (finite a * finite b : Exact K) = finite (a * b) := rfl

theorem neg_finite (a : K) : (-finite a : Exact K) = finite (-a) := rfl

theorem finite_sub (a b : K) : (finite a - finite b : Exact K) = finite (a - b) :=
  congrArg finite (sub_eq_add_neg a b).symm

theorem finite_div {a b : K} (nonzero : b ≠ 0) :
    (finite a / finite b : Exact K) = finite (a / b) := by
  have unfolded : (finite a / finite b : Exact K) = div (finite a) (finite b) := rfl
  rw [unfolded, div, if_neg nonzero]

theorem isFinite_iff : Scalar.isFinite x = true ↔ ∃ a, x = finite a := by
  cases x <;> simp [Scalar.isFinite]

/-- Only finite numbers have a finite difference. -/
theorem finite_of_sub (difference : Scalar.isFinite (x - y) = true) :
    ∃ a b, x = finite a ∧ y = finite b := by
  have unfolded : x - y = add x (neg y) := rfl
  rw [unfolded] at difference
  cases x <;> cases y <;> simp [neg, add, Scalar.isFinite] at difference ⊢

/-- The first value comes no later than the second in the order of all values. -/
def atMost (x y : Exact K) : Bool := Scalar.totalOrder x y != .gt

theorem atMost_eq (x y : Exact K) : atMost x y = (compare x y != .gt) := rfl

@[simp] theorem atMost_finite {a b : K} : atMost (finite a) (finite b) = true ↔ a ≤ b := by
  rw [atMost_eq, compare, bne_iff_ne]
  exact compare_le_iff_le

theorem atMost_trans (first : atMost x y = true) (second : atMost y z = true) :
    atMost x z = true := by
  cases x <;> cases y <;> cases z <;>
    simp [atMost_eq, compare, compare_gt_iff_gt] at first second ⊢
  exact first.trans second

theorem atMost_total (x y : Exact K) : (atMost x y || atMost y x) = true := by
  cases x <;> cases y <;> simp [atMost_eq, compare, compare_gt_iff_gt]
  exact le_total _ _

theorem atMost_of_lt (below : Scalar.totalOrder x y = .lt) : atMost x y = true := by
  rw [atMost, below]
  rfl

theorem atMost_of_not_lt (notBelow : Scalar.totalOrder y x ≠ .lt) : atMost x y = true := by
  have unfolded : compare y x ≠ .lt := notBelow
  cases x <;> cases y <;>
    simp [atMost_eq, compare, compare_gt_iff_gt, compare_lt_iff_lt] at unfolded ⊢
  exact unfolded

/-- What lies between finite numbers is finite. -/
theorem finite_of_between {a b : K} (lower : atMost (finite a) x = true)
    (upper : atMost x (finite b) = true) : ∃ q, x = finite q ∧ a ≤ q ∧ q ≤ b := by
  cases x with
  | finite q => exact ⟨q, rfl, atMost_finite.mp lower, atMost_finite.mp upper⟩
  | infinity => cases upper
  | negInfinity => cases lower
  | undefined => cases upper

end Laws

/-- Over the rationals, the values that are rational where these are known without
calculation, and undefined ones elsewhere. -/
instance : Elementary ℚ where
  sqrt
    | finite x => if Rat.sqrt x * Rat.sqrt x = x then finite (Rat.sqrt x) else undefined
    | infinity => infinity
    | _ => undefined
  exp
    | finite x => if x = 0 then finite 1 else undefined
    | infinity => infinity
    | negInfinity => finite 0
    | undefined => undefined
  pow
    | finite x, finite y => if y = ⌊y⌋₊ then finite (x ^ ⌊y⌋₊) else undefined
    | _, _ => undefined

end Exact
end Metaheuristic
