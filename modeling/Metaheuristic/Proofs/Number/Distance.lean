import Metaheuristic.Proofs.Number.Ends

/-! Distances of numbers. What lies at a finite distance from something is finite itself, so
nothing is at a finite distance from an infinity. -/
namespace Metaheuristic

/-- The law of distances. -/
class Scalar.LawfulDistance (α : Type) [Scalar α] : Prop where
  finite_of_distance {x y : α} : Scalar.isFinite (Scalar.abs (x - y)) = true →
    Scalar.isFinite x = true

namespace Double
open Float.Model UnpackedFloat

/-- An infinity, or no value. -/
def Beyond : UnpackedFloat → Prop
  | .infinity _ | .notANumber => True
  | .zero _ | .finite _ _ _ _ => False

theorem beyond_iff {x : Float} :
    Scalar.isFinite x = false ↔ Beyond x.toModel.unpack := by
  change x.toModel.unpack.isFinite = false ↔ _
  cases x.toModel.unpack <;> simp [UnpackedFloat.isFinite, Beyond]

theorem beyond_pack {u : UnpackedFloat} (beyond : Beyond u) :
    Beyond (Float.Model.pack u).unpack := by
  rw [unpack_pack]
  cases u with
  | notANumber =>
    rw [UnpackedFloat.pack, unpack_packedNaN]
    trivial
  | infinity s =>
    cases s <;> trivial
  | zero s => exact beyond.elim
  | finite s m e positive => exact beyond.elim

theorem beyond_sub {u : UnpackedFloat} (beyond : Beyond u) (v : UnpackedFloat) :
    Beyond (UnpackedFloat.sub Format.binary64 u v) := by
  cases u with
  | notANumber => trivial
  | infinity s =>
    cases v with
    | infinity t => cases s <;> cases t <;> trivial
    | notANumber | zero | finite => trivial
  | zero s => exact beyond.elim
  | finite s m e positive => exact beyond.elim

theorem beyond_abs {u : UnpackedFloat} (beyond : Beyond u) : Beyond u.abs := by
  cases u with
  | notANumber | infinity s => trivial
  | zero s => exact beyond.elim
  | finite s m e positive => exact beyond.elim

instance : Scalar.LawfulDistance Float where
  finite_of_distance {x y} distance := by
    by_contra infinite
    rw [Bool.not_eq_true] at infinite
    have beyond := beyond_pack (beyond_sub (beyond_iff.mp infinite) y.toModel.unpack)
    have infinite' : Scalar.isFinite (Scalar.abs (x - y)) = false :=
      beyond_iff.mpr (beyond_pack (beyond_abs beyond))
    rw [infinite'] at distance
    contradiction

end Double

namespace Exact

variable {K : Type} [Field K] [LinearOrder K] [FloorRing K] [Elementary K]

instance : Scalar.LawfulDistance (Exact K) where
  finite_of_distance {x y} distance := by
    have difference : Scalar.isFinite (x - y) = true := by
      have unfolded : Scalar.abs (x - y) = abs (x - y) := rfl
      rw [unfolded] at distance
      cases shape : x - y <;> rw [shape] at distance <;> first | rfl | exact distance
    obtain ⟨a, _, rfl, _⟩ := finite_of_sub difference
    rfl

end Exact
end Metaheuristic
