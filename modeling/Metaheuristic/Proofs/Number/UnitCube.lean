import Metaheuristic.Proofs.Number.Rounding

/-! The unit cube over exact numbers. Sums, differences and products of finite numbers are
finite, and clamping a finite number puts it into the unit interval; that much is all that
keeps chromosomes inside the cube. -/
namespace Metaheuristic.Exact

variable {K : Type}

/-- Neither infinite nor undefined. -/
def Finite (x : Exact K) : Prop := ∃ q, x = finite q

section Unit

variable [Field K] [LinearOrder K]

/-- A number from zero to one. -/
def InUnit (x : Exact K) : Prop := ∃ q : K, x = finite q ∧ 0 ≤ q ∧ q ≤ 1

/-- A point of the unit cube with that many coordinates. -/
def InCube (n : Nat) (xs : List (Exact K)) : Prop := xs.length = n ∧ ∀ x ∈ xs, InUnit x

theorem InUnit.finite {x : Exact K} (inside : InUnit x) : Finite x := by
  obtain ⟨q, rfl, _⟩ := inside
  exact ⟨q, rfl⟩

end Unit

section Operations

variable [Field K] [LinearOrder K] [FloorRing K] [Elementary K] {x y : Exact K}

theorem Finite.add (left : Finite x) (right : Finite y) : Finite (x + y) := by
  obtain ⟨a, rfl⟩ := left
  obtain ⟨b, rfl⟩ := right
  exact ⟨a + b, finite_add a b⟩

theorem Finite.sub (left : Finite x) (right : Finite y) : Finite (x - y) := by
  obtain ⟨a, rfl⟩ := left
  obtain ⟨b, rfl⟩ := right
  exact ⟨a - b, finite_sub a b⟩

theorem Finite.mul (left : Finite x) (right : Finite y) : Finite (x * y) := by
  obtain ⟨a, rfl⟩ := left
  obtain ⟨b, rfl⟩ := right
  exact ⟨a * b, finite_mul a b⟩

theorem Finite.abs (number : Finite x) : Finite (Scalar.abs x) := by
  obtain ⟨a, rfl⟩ := number
  exact ⟨|a|, rfl⟩

theorem finite_ofNat (n : Nat) : Finite (Scalar.ofNat n : Exact K) := ⟨n, rfl⟩

theorem Finite.div_ofNat (number : Finite x) {n : Nat} (nonzero : n ≠ 0) :
    Finite (x / Scalar.ofNat n) := by
  obtain ⟨a, rfl⟩ := number
  rw [ofNat_eq, finite_div (Nat.cast_ne_zero.mpr nonzero)]
  exact ⟨a / n, rfl⟩

theorem Finite.clampUnit [IsStrictOrderedRing K] (number : Finite x) :
    InUnit (Scalar.clampUnit x) := by
  obtain ⟨a, rfl⟩ := number
  rw [clampUnit_finite]
  exact ⟨_, rfl, le_max_left _ _, max_le zero_le_one (min_le_left _ _)⟩

/-- Clamping leaves the unit interval as it is. -/
theorem InUnit.clampUnit_eq [IsStrictOrderedRing K] (inside : InUnit x) :
    Scalar.clampUnit x = x := by
  obtain ⟨a, rfl, lower, upper⟩ := inside
  rw [clampUnit_finite, min_eq_right upper, max_eq_right lower]

end Operations

end Metaheuristic.Exact
