import Mathlib
import Metaheuristic.Number.Double
import Metaheuristic.Proofs.Number.Order

/-! Double precision numbers obey the laws of the comparisons. Unpacked into
sign, exponent and mantissa, every double that is a number has a place in one
line, and comparing two of them compares their places. -/
namespace Metaheuristic.Double
open Float.Model

/-- The place of a number: first the sign and the size class, then the exponent,
then the mantissa. Zeros of either sign have one place. The value that is not a
number gets the place of zero, which is never looked at. -/
def place : UnpackedFloat → Int ×ₗ Int ×ₗ Int
  | .infinity .negative => toLex (-2, toLex (0, 0))
  | .finite .negative m e _ => toLex (-1, toLex (-e, -m))
  | .zero _ | .notANumber => toLex (0, toLex (0, 0))
  | .finite .positive m e _ => toLex (1, toLex (e, m))
  | .infinity .positive => toLex (2, toLex (0, 0))

/-- The place of a double. -/
def placeOf (x : Float) : Int ×ₗ Int ×ₗ Int := place x.toModel.unpack

private theorem compare_sign_self (s : UnpackedFloat.Sign) : compare s s = .eq := by
  cases s <;> rfl

private theorem compare_lt_iff {a b : UnpackedFloat} :
    a.compare b = some .lt ↔ a.isNaN = false ∧ b.isNaN = false ∧ place a < place b := by
  rcases a with (_ | _) | _ | (_ | _) | ⟨_ | _, m₁, e₁, _⟩ <;>
    rcases b with (_ | _) | _ | (_ | _) | ⟨_ | _, m₂, e₂, _⟩ <;>
    simp [UnpackedFloat.compare, UnpackedFloat.isNaN, place, Prod.Lex.lt_iff,
      Ordering.then_eq_lt, Ordering.then_eq_gt, compare_lt_iff_lt, compare_gt_iff_gt]
  rfl

private theorem compare_eq_iff {a b : UnpackedFloat} :
    a.compare b = some .eq ↔ a.isNaN = false ∧ b.isNaN = false ∧ place a = place b := by
  rcases a with (_ | _) | _ | (_ | _) | ⟨_ | _, m₁, e₁, _⟩ <;>
    rcases b with (_ | _) | _ | (_ | _) | ⟨_ | _, m₂, e₂, _⟩ <;>
    simp [UnpackedFloat.compare, UnpackedFloat.isNaN, place, Ordering.then_eq_eq,
      compare_sign_self]

/-- The first double is below the second when both are numbers and its place is
the lower one. -/
theorem lt_iff_place {x y : Float} :
    Scalar.lt x y = true ↔ x.isNaN = false ∧ y.isNaN = false ∧ placeOf x < placeOf y := by
  have unpacked : Scalar.lt x y = true ↔ x.toModel.unpack.compare y.toModel.unpack = some .lt := by
    simp only [Scalar.lt, decide_eq_true_eq]
    change decide (x.toModel < y.toModel) = true ↔ _
    rw [decide_eq_true_eq]
    exact beq_iff_eq
  exact unpacked.trans compare_lt_iff

/-- Two doubles are equal when both are numbers and they share a place. -/
theorem eq_iff_place {x y : Float} :
    (x == y) = true ↔ x.isNaN = false ∧ y.isNaN = false ∧ placeOf x = placeOf y := by
  have unpacked : (x == y) = true ↔ x.toModel.unpack.compare y.toModel.unpack = some .eq := by
    change (x.toModel.unpack.compare y.toModel.unpack == some .eq) = true ↔ _
    exact beq_iff_eq
  exact unpacked.trans compare_eq_iff

/-- The value that differs from itself is the one that is not a number. -/
theorem isNaN_eq (x : Float) : Scalar.isNaN x = x.isNaN := by
  have self : (x == x) = true ↔ x.isNaN = false := by simp
  cases defined : x.isNaN <;> simp_all [Scalar.isNaN]

theorem le_iff_lt_or_eq {x y : Float} :
    Scalar.le x y = true ↔ Scalar.lt x y = true ∨ (x == y) = true := by
  have unpacked : Scalar.le x y = true ↔
      (x.toModel.unpack.compare y.toModel.unpack).any (·.isLE) = true := by
    simp only [Scalar.le, decide_eq_true_eq]
    change decide (x.toModel ≤ y.toModel) = true ↔ _
    rw [decide_eq_true_eq]
    rfl
  rw [unpacked, lt_iff_place, eq_iff_place]
  have below := compare_lt_iff (a := x.toModel.unpack) (b := y.toModel.unpack)
  have same := compare_eq_iff (a := x.toModel.unpack) (b := y.toModel.unpack)
  change _ ↔ (x.toModel.unpack.isNaN = false ∧ y.toModel.unpack.isNaN = false ∧ _) ∨
    (x.toModel.unpack.isNaN = false ∧ y.toModel.unpack.isNaN = false ∧ _)
  rw [placeOf, placeOf, ← below, ← same]
  rcases x.toModel.unpack.compare y.toModel.unpack with _ | (_ | _ | _) <;> simp

private theorem isNaN_infinity : (Scalar.infinity : Float).isNaN = false := by rfl

private theorem isNaN_neg_infinity : (-Scalar.infinity : Float).isNaN = false := by rfl

private theorem placeOf_infinity : placeOf Scalar.infinity = toLex (2, toLex (0, 0)) := by rfl

private theorem placeOf_neg_infinity : placeOf (-Scalar.infinity) = toLex (-2, toLex (0, 0)) := by
  rfl

/-- The finite doubles have the places strictly between the infinities. -/
theorem finite_iff_place {x : Float} : Scalar.isFinite x = true ↔
    x.isNaN = false ∧ placeOf (-Scalar.infinity) < placeOf x ∧
      placeOf x < placeOf Scalar.infinity := by
  rw [placeOf_infinity, placeOf_neg_infinity]
  change x.toModel.unpack.isFinite = true ↔ x.toModel.unpack.isNaN = false ∧ _
  rw [placeOf]
  rcases x.toModel.unpack with (_ | _) | _ | (_ | _) | ⟨_ | _, m, e, _⟩ <;>
    simp [UnpackedFloat.isFinite, UnpackedFloat.isNaN, place, Prod.Lex.lt_iff]

instance : Scalar.LawfulOrder Float where
  lt_irrefl x := by
    rw [Bool.eq_false_iff]
    intro below
    exact lt_irrefl _ (lt_iff_place.mp below).2.2
  lt_trans first second := by
    obtain ⟨left, _, lower⟩ := lt_iff_place.mp first
    obtain ⟨_, right, upper⟩ := lt_iff_place.mp second
    exact lt_iff_place.mpr ⟨left, right, lower.trans upper⟩
  lt_or_lt z defined below := by
    obtain ⟨left, right, order⟩ := lt_iff_place.mp below
    rw [isNaN_eq] at defined
    rcases lt_or_ge (placeOf _) (placeOf z) with lower | upper
    · exact .inl (lt_iff_place.mpr ⟨left, defined, lower⟩)
    · exact .inr (lt_iff_place.mpr ⟨defined, right, upper.trans_lt order⟩)
  defined_of_lt below := by
    obtain ⟨left, right, _⟩ := lt_iff_place.mp below
    exact ⟨(isNaN_eq _).trans left, (isNaN_eq _).trans right⟩
  eq_iff {x y} := by
    rw [eq_iff_place, isNaN_eq, isNaN_eq, Bool.eq_false_iff (b := Scalar.lt x y),
      Bool.eq_false_iff (b := Scalar.lt y x), Ne, Ne, lt_iff_place, lt_iff_place]
    refine and_congr_right fun left => and_congr_right fun right => ?_
    simp only [left, right, true_and, not_lt]
    exact ⟨fun same => ⟨same.ge, same.le⟩, fun ⟨upper, lower⟩ => le_antisymm lower upper⟩
  le_iff := le_iff_lt_or_eq
  finite_iff {x} := by
    rw [finite_iff_place, lt_iff_place, lt_iff_place]
    simp only [isNaN_infinity, isNaN_neg_infinity, true_and]
    tauto
  infinity_defined := isNaN_infinity
  neg_infinity_defined := isNaN_neg_infinity

end Metaheuristic.Double
