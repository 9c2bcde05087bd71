import Metaheuristic.Proofs.Number.Bits
import Metaheuristic.Proofs.Number.Negation

/-! The total order, and products with a unit. The order that ranks and crowding distances are
sorted by places every two values, and agrees with the comparisons of numbers. Points are turned
into points to be minimized by a factor of one or its negation, which keeps the order of the
numbers or turns it round. -/
namespace Metaheuristic

/-- The laws of the total order. -/
class Scalar.LawfulTotal (α : Type) [Scalar α] : Prop
    extends Std.TransCmp (Scalar.totalOrder : α → α → Ordering) where
  /-- A lower number stands before a higher one. -/
  of_lt {x y : α} : Scalar.lt x y = true → Scalar.totalOrder x y = .lt

/-- The laws of products with a unit. -/
class Scalar.LawfulSigns (α : Type) [Scalar α] : Prop where
  lt_one_mul (x y : α) :
    Scalar.lt (- -Scalar.one * x) (- -Scalar.one * y) = Scalar.lt x y
  lt_neg_one_mul (x y : α) : Scalar.lt (-Scalar.one * x) (-Scalar.one * y) = Scalar.lt y x
  isNaN_one_mul (x : α) : Scalar.isNaN (- -Scalar.one * x) = Scalar.isNaN x
  isNaN_neg_one_mul (x : α) : Scalar.isNaN (-Scalar.one * x) = Scalar.isNaN x

namespace Scalar

variable {α : Type} [Scalar α] [LawfulTotal α] {x y z : α}

theorem totalOrder_trans (first : totalOrder x y ≠ .gt) (second : totalOrder y z ≠ .gt) :
    totalOrder x z ≠ .gt :=
  Ordering.isLE_iff_ne_gt.mp (Std.TransCmp.isLE_trans (Ordering.isLE_iff_ne_gt.mpr first)
    (Ordering.isLE_iff_ne_gt.mpr second))

/-- What does not stand behind another value is not above it. -/
theorem not_lt_of_totalOrder (ordered : totalOrder x y ≠ .gt) : lt y x = false := by
  rw [Bool.eq_false_iff]
  intro below
  exact ordered (Std.OrientedCmp.gt_of_lt (LawfulTotal.of_lt below))

end Scalar

namespace Double
open Float.Model UnpackedFloat

instance : Scalar.LawfulTotal Float where
  toTransCmp := inferInstanceAs (Std.TransCmp (compareOn rank))
  of_lt {x y} below := by
    obtain ⟨left, right, order⟩ := lt_iff_place.mp below
    change compare (rank x) (rank y) = .lt
    rw [compare_lt_iff_lt, rank_eq, rank_eq]
    exact rankOf_lt (canonical_toModel x) (canonical_toModel y) left right order

/-- A product with a unit keeps the order or turns it round. -/
theorem lt_unit_mul {s : Sign} {one : Float} (unpacked : one.toModel.unpack = unit s)
    (x y : Float) : Scalar.lt (one * x) (one * y) =
      match s with
      | .positive => Scalar.lt x y
      | .negative => Scalar.lt y x := by
  have number (x : Float) : (one * x).isNaN = x.isNaN := by
    change (one * x).toModel.unpack.isNaN = x.toModel.unpack.isNaN
    rw [unpack_unit_mul unpacked, isNaN_signed]
  cases s with
  | positive =>
    rw [Bool.eq_iff_iff, lt_iff_place, lt_iff_place, number, number, placeOf, placeOf,
      unpack_unit_mul unpacked, unpack_unit_mul unpacked]
    rfl
  | negative =>
    rw [Bool.eq_iff_iff, lt_iff_place, lt_iff_place, number, number, placeOf, placeOf,
      unpack_unit_mul unpacked, unpack_unit_mul unpacked, signed, signed, place_neg]
    tauto

theorem isNaN_unit_mul {s : Sign} {one : Float} (unpacked : one.toModel.unpack = unit s)
    (x : Float) : Scalar.isNaN (one * x) = Scalar.isNaN x := by
  rw [isNaN_eq, isNaN_eq]
  change (one * x).toModel.unpack.isNaN = x.toModel.unpack.isNaN
  rw [unpack_unit_mul unpacked, isNaN_signed]

theorem unpack_one : (- -Scalar.one : Float).toModel.unpack = unit .positive := by rfl

theorem unpack_neg_one : (-Scalar.one : Float).toModel.unpack = unit .negative := by rfl

instance : Scalar.LawfulSigns Float where
  lt_one_mul := lt_unit_mul unpack_one
  lt_neg_one_mul := lt_unit_mul unpack_neg_one
  isNaN_one_mul := isNaN_unit_mul unpack_one
  isNaN_neg_one_mul := isNaN_unit_mul unpack_neg_one

end Double

namespace Exact

variable {K : Type} [Field K] [LinearOrder K] [FloorRing K] [Elementary K]

instance : Scalar.LawfulTotal (Exact K) where
  eq_swap {x y} := by
    change compare x y = (compare y x).swap
    cases x <;> cases y <;> try rfl
    exact Std.OrientedOrd.eq_swap (α := K)
  isLE_trans {x y z} first second := by
    have ordered (o : Ordering) : o.isLE = true ↔ (o != .gt) = true :=
      Ordering.isLE_iff_ne_gt.trans bne_iff_ne.symm
    exact (ordered _).mpr (atMost_trans ((ordered _).mp first) ((ordered _).mp second))
  of_lt {x y} below := by
    change compare x y = .lt
    rw [lt_eq] at below
    cases x <;> cases y <;> simp [compare, Exact.below, compare_lt_iff_lt] at below ⊢
    exact below

section Signs

variable [IsStrictOrderedRing K]

theorem unit_mul (x : Exact K) : Scalar.one * x = x := by
  rw [one_eq]
  cases x with
  | finite q => exact congrArg finite (MulOneClass.one_mul q)
  | infinity => exact if_pos (zero_lt_one' K)
  | negInfinity =>
    exact (infinityTimes_neg (1 : K)).trans (congrArg neg (if_pos (zero_lt_one' K)))
  | undefined => rfl

instance : Scalar.LawfulSigns (Exact K) where
  lt_one_mul x y := by rw [Scalar.LawfulNegation.neg_neg, unit_mul, unit_mul]
  lt_neg_one_mul x y := by
    rw [Scalar.LawfulNegation.neg_mul, Scalar.LawfulNegation.neg_mul, unit_mul, unit_mul,
      Scalar.LawfulNegation.lt_neg]
  isNaN_one_mul x := by rw [Scalar.LawfulNegation.neg_neg, unit_mul]
  isNaN_neg_one_mul x := by rw [Scalar.LawfulNegation.neg_mul, unit_mul, Scalar.isNaN_neg]

end Signs

end Exact
end Metaheuristic
