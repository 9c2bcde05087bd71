import Metaheuristic.Proofs.Number.Rounding
import Metaheuristic.Proofs.Number.Double

/-! Ends and signs of numbers. The infinities are the ends of the order, a product with zero
is zero or undefined, and quotients of natural numbers are not negative: what a greedy search
needs to know of its arithmetic beside the order. -/
namespace Metaheuristic

/-- The laws of ends and signs. -/
class Scalar.LawfulEnds (α : Type) [Scalar α] : Prop where
  /-- Nothing lies above the upper infinity. -/
  not_infinity_lt (x : α) : Scalar.lt Scalar.infinity x = false
  /-- Nothing lies below the lower infinity. -/
  not_lt_neg_infinity (x : α) : Scalar.lt x (-Scalar.infinity) = false
  notANumber_undefined : Scalar.isNaN (Scalar.notANumber : α) = true
  /-- A product with a zero on the left is not above zero. -/
  not_zero_lt_mul_left {x : α} (y : α) : (x == Scalar.zero) = true →
    Scalar.lt Scalar.zero (x * y) = false
  /-- A product with a zero on the right is not above zero. -/
  not_zero_lt_mul_right (x : α) {y : α} : (y == Scalar.zero) = true →
    Scalar.lt Scalar.zero (x * y) = false
  /-- A quotient of words is not below zero. -/
  not_ratio_lt_zero {n d : Nat} : n < wordCount → d < wordCount →
    Scalar.lt (Scalar.ratio n d : α) Scalar.zero = false

namespace Double
open Float.Model UnpackedFloat

/-- No value, or one without a minus sign. -/
def Unsigned : UnpackedFloat → Prop
  | .infinity s | .zero s | .finite s _ _ _ => s = .positive
  | .notANumber => True

/-- No value, or a zero of either sign. -/
def Null : UnpackedFloat → Prop
  | .zero _ | .notANumber => True
  | .infinity _ | .finite _ _ _ _ => False

theorem unpack_pack (u : UnpackedFloat) :
    (Float.Model.pack u).unpack =
      UnpackedFloat.unpack Format.binary64 (UnpackedFloat.pack Format.binary64 u) := rfl

theorem unsigned_unpack {b : BitVec Format.binary64.numBits}
    (plus : unpackSign b = Sign.positive.toBitVec) :
    Unsigned (UnpackedFloat.unpack Format.binary64 b) := by
  unfold UnpackedFloat.unpack
  simp only [plus]
  split
  · split
    · rfl
    · trivial
  · split
    · split <;> rfl
    · rfl

/-- Packing adds no minus sign. -/
theorem unsigned_pack {u : UnpackedFloat} (unsigned : Unsigned u) :
    Unsigned (Float.Model.pack u).unpack := by
  rw [unpack_pack]
  cases u with
  | notANumber =>
    rw [UnpackedFloat.pack, unpack_packedNaN]
    trivial
  | infinity s =>
    cases unsigned
    refine unsigned_unpack ?_
    rw [UnpackedFloat.pack, packedInfinity, unpackSign_packComponents]
  | zero s =>
    cases unsigned
    rw [UnpackedFloat.pack, unpack_packedZero]
    rfl
  | finite s m e positive =>
    cases unsigned
    refine unsigned_unpack ?_
    rw [UnpackedFloat.pack]
    dsimp only
    split
    · rw [packedInfinity, unpackSign_packComponents]
    · split <;> rw [unpackSign_packComponents]

theorem null_pack {u : UnpackedFloat} (null : Null u) : Null (Float.Model.pack u).unpack := by
  rw [unpack_pack]
  cases u with
  | notANumber =>
    rw [UnpackedFloat.pack, unpack_packedNaN]
    trivial
  | zero s =>
    rw [UnpackedFloat.pack, unpack_packedZero]
    trivial
  | infinity s => exact null.elim
  | finite s m e positive => exact null.elim

theorem unsigned_roundWithAccuracy (m : Nat) (e : Int) (a : Accuracy) :
    Unsigned (roundWithAccuracy Format.binary64 .positive m e a) := by
  unfold roundWithAccuracy
  dsimp only
  split <;> rfl

theorem unsigned_ofNat (n : Nat) : Unsigned (UnpackedFloat.ofNat Format.binary64 n) := by
  cases n with
  | zero => rfl
  | succ n => exact unsigned_roundWithAccuracy _ _ _

theorem unsigned_div {u v : UnpackedFloat} (left : Unsigned u) (right : Unsigned v) :
    Unsigned (UnpackedFloat.div Format.binary64 u v) := by
  cases u <;> cases v <;> simp only [Unsigned] at left right <;> subst_vars <;>
    first | trivial | exact unsigned_roundWithAccuracy _ _ _

theorem null_mul_left {u : UnpackedFloat} (null : Null u) (v : UnpackedFloat) :
    Null (UnpackedFloat.mul Format.binary64 u v) := by
  cases u <;> cases v <;> first | exact null.elim | trivial

theorem null_mul_right (u : UnpackedFloat) {v : UnpackedFloat} (null : Null v) :
    Null (UnpackedFloat.mul Format.binary64 u v) := by
  cases u <;> cases v <;> first | exact null.elim | trivial

theorem placeOf_zero : placeOf (Scalar.zero : Float) = toLex (0, toLex (0, 0)) := by
  decide +kernel

theorem place_of_null {u : UnpackedFloat} (null : Null u) : place u = toLex (0, toLex (0, 0)) := by
  cases u <;> first | rfl | exact null.elim

/-- Only a zero has the place of zero. -/
theorem null_of_eq_zero {x : Float} (zero : (x == Scalar.zero) = true) : Null x.toModel.unpack := by
  obtain ⟨_, _, same⟩ := eq_iff_place.mp zero
  rw [placeOf_zero, placeOf] at same
  cases unpacked : x.toModel.unpack with
  | zero s => trivial
  | notANumber => trivial
  | infinity s =>
    rw [unpacked] at same
    cases s <;> simp [place] at same
  | finite s m e positive =>
    rw [unpacked] at same
    cases s <;> simp [place] at same

theorem not_zero_lt_of_null {x : Float} (null : Null x.toModel.unpack) :
    Scalar.lt Scalar.zero x = false := by
  rw [Bool.eq_false_iff]
  intro above
  have order := (lt_iff_place.mp above).2.2
  rw [placeOf_zero, placeOf, place_of_null null] at order
  exact lt_irrefl _ order

theorem not_lt_zero_of_unsigned {x : Float} (unsigned : Unsigned x.toModel.unpack) :
    Scalar.lt x Scalar.zero = false := by
  rw [Bool.eq_false_iff]
  intro below
  have order := (lt_iff_place.mp below).2.2
  rw [placeOf_zero, placeOf] at order
  cases unpacked : x.toModel.unpack with
  | zero s =>
    rw [unpacked] at order
    exact lt_irrefl _ order
  | notANumber =>
    rw [unpacked] at order
    exact lt_irrefl _ order
  | infinity s =>
    rw [unpacked] at unsigned order
    cases unsigned
    simp [place, Prod.Lex.lt_iff] at order
  | finite s m e positive =>
    rw [unpacked] at unsigned order
    cases unsigned
    simp [place, Prod.Lex.lt_iff] at order

theorem unsigned_word {n : Nat} (small : n < wordCount) :
    Unsigned (ofNat n).toModel.unpack := by
  have word : ofNat n = n.toUInt64.toFloat := if_pos small
  rw [word]
  exact unsigned_pack (unsigned_ofNat _)

theorem place_le_infinity (u : UnpackedFloat) : place u ≤ place (.infinity .positive) := by
  rcases u with (_ | _) | _ | _ | ⟨_ | _, _, _, _⟩ <;> simp [place, Prod.Lex.le_iff]

theorem neg_infinity_le_place (u : UnpackedFloat) : place (.infinity .negative) ≤ place u := by
  rcases u with (_ | _) | _ | _ | ⟨_ | _, _, _, _⟩ <;> simp [place, Prod.Lex.le_iff]

instance : Scalar.LawfulEnds Float where
  not_infinity_lt x := by
    rw [Bool.eq_false_iff]
    intro above
    exact not_lt_of_ge (place_le_infinity _) (lt_iff_place.mp above).2.2
  not_lt_neg_infinity x := by
    rw [Bool.eq_false_iff]
    intro below
    exact not_lt_of_ge (neg_infinity_le_place _) (lt_iff_place.mp below).2.2
  notANumber_undefined := by rfl
  not_zero_lt_mul_left y zero :=
    not_zero_lt_of_null (null_pack (null_mul_left (null_of_eq_zero zero) _))
  not_zero_lt_mul_right x _ zero :=
    not_zero_lt_of_null (null_pack (null_mul_right _ (null_of_eq_zero zero)))
  not_ratio_lt_zero numerator denominator :=
    not_lt_zero_of_unsigned
      (unsigned_pack (unsigned_div (unsigned_word numerator) (unsigned_word denominator)))

end Double

namespace Exact

variable {K : Type} [Field K] [LinearOrder K] [FloorRing K] [Elementary K]

theorem eq_zero_of_same {x : Exact K} (zero : (x == Scalar.zero) = true) : x = finite 0 := by
  rw [zero_eq, beq_eq] at zero
  cases x <;> simp [same] at zero
  rw [zero]

instance [IsStrictOrderedRing K] : Scalar.LawfulEnds (Exact K) where
  not_infinity_lt x := by cases x <;> rfl
  not_lt_neg_infinity x := by cases x <;> rfl
  notANumber_undefined := rfl
  not_zero_lt_mul_left {x} y zero := by
    have unfolded : finite 0 * y = mul (finite 0) y := rfl
    rw [eq_zero_of_same zero, zero_eq, lt_eq, unfolded]
    cases y <;> simp [mul, infinityTimes, below]
  not_zero_lt_mul_right x {y} zero := by
    have unfolded : x * finite 0 = mul x (finite 0) := rfl
    rw [eq_zero_of_same zero, zero_eq, lt_eq, unfolded]
    cases x <;> simp [mul, infinityTimes, below]
  not_ratio_lt_zero {n d} _ _ := by
    have unfolded : (Scalar.ratio n d : Exact K) = div (finite (n : K)) (finite (d : K)) := rfl
    rw [zero_eq, lt_eq, unfolded, div]
    split
    · unfold infinityTimes
      split
      · rfl
      · rw [if_neg (not_lt.mpr (Nat.cast_nonneg n))]
        rfl
    · simpa [below] using div_nonneg (Nat.cast_nonneg (α := K) n) (Nat.cast_nonneg d)

end Exact
end Metaheuristic
