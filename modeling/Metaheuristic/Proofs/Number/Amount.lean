import Mathlib.Tactic.Linarith
import Metaheuristic.Proofs.Number.Exact

/-! Exact amounts: the numbers from zero on, with infinity. Values differ by no more than nothing
when they are in order, except for two equal infinities, which have no difference. Amounts add up to
amounts again and nothing cancels, so a sum of amounts is zero exactly when all of them are. -/
namespace Metaheuristic.Exact

variable {K : Type} [Field K] [LinearOrder K] [FloorRing K] [Elementary K] {x y : Exact K}

@[simp] theorem isNaN_finite (a : K) : Scalar.isNaN (finite a) = false :=
  isNaN_eq_false.mpr nofun

@[simp] theorem isNaN_infinity : Scalar.isNaN (infinity : Exact K) = false := rfl

@[simp] theorem isNaN_negInfinity : Scalar.isNaN (negInfinity : Exact K) = false := rfl

@[simp] theorem isNaN_undefined : Scalar.isNaN (undefined : Exact K) = true := rfl

theorem isNaN_iff : Scalar.isNaN x = true ↔ x = undefined := by
  cases x <;> simp

theorem isFinite_congr (same : (x == y) = true) : Scalar.isFinite x = Scalar.isFinite y := by
  rw [beq_eq] at same
  cases x <;> cases y <;> simp [Exact.same, Scalar.isFinite] at same ⊢

/-- The positive part of a finite number. -/
theorem max_zero (a : K) : Scalar.max (finite a) Scalar.zero = finite (max a 0) := by
  rw [zero_eq, Scalar.max, isNaN_finite, isNaN_finite, lt_eq, below]
  rcases le_or_gt a 0 with lower | upper
  · simp [lower, lower.not_gt]
  · simp [upper, upper.le]

/-- A number that is not negative. -/
def Amount (x : Exact K) : Prop := Scalar.isNaN x = false ∧ Scalar.lt x Scalar.zero = false

theorem amount_iff : x.Amount ↔ x = infinity ∨ ∃ a : K, 0 ≤ a ∧ x = finite a := by
  rw [Amount, isNaN_eq_false, lt_eq, zero_eq]
  cases x <;> simp [below]

theorem amount_of_le (lower : Scalar.le Scalar.zero x = true) : x.Amount := by
  rw [zero_eq] at lower
  cases x with
  | finite a => exact amount_iff.mpr (.inr ⟨a, le_finite.mp lower, rfl⟩)
  | infinity => exact amount_iff.mpr (.inl rfl)
  | negInfinity | undefined => cases lower

@[simp] theorem amount_finite {a : K} : (finite a).Amount ↔ 0 ≤ a := by
  simp [amount_iff]

@[simp] theorem amount_infinity : (infinity : Exact K).Amount := amount_iff.mpr (.inl rfl)

@[simp] theorem finite_beq_zero {a : K} : (finite a == (Scalar.zero : Exact K)) = true ↔ a = 0 := by
  rw [zero_eq, beq_eq]
  exact decide_eq_true_iff

@[simp] theorem infinity_beq_zero : ((infinity : Exact K) == Scalar.zero) = false := rfl

variable [IsStrictOrderedRing K]

/-- A difference is at most zero when the values are in order, but for two equal infinities. -/
theorem sub_le_zero (distinct : (x == y) = true → Scalar.isFinite x = true) :
    Scalar.le (x - y) Scalar.zero = Scalar.le x y := by
  have unfolded : x - y = add x (neg y) := rfl
  rw [Bool.eq_iff_iff]
  cases x <;> cases y
  case finite.finite a b =>
    rw [finite_sub, zero_eq, le_finite, le_finite]
    exact sub_nonpos
  all_goals
    rw [beq_eq] at distinct
    rw [unfolded, le_eq, le_eq, zero_eq]
    simp [add, neg, below, same, Scalar.isFinite] at distinct ⊢

/-- And values at no distance are equal. -/
theorem abs_sub_le_zero (distinct : (x == y) = true → Scalar.isFinite x = true) :
    Scalar.le (Scalar.abs (x - y)) Scalar.zero = (x == y) := by
  have unfolded : x - y = add x (neg y) := rfl
  have size (z : Exact K) : Scalar.abs z = abs z := rfl
  rw [Bool.eq_iff_iff, size, beq_eq]
  rw [beq_eq] at distinct
  cases x <;> cases y
  case finite.finite a b =>
    rw [finite_sub, zero_eq, abs, le_finite, abs_nonpos_iff, sub_eq_zero]
    exact decide_eq_true_iff.symm
  all_goals
    rw [unfolded, le_eq, zero_eq]
    simp [add, neg, abs, below, same, Scalar.isFinite] at distinct ⊢

theorem Amount.add (first : x.Amount) (second : y.Amount) : (x + y).Amount := by
  obtain rfl | ⟨a, lower, rfl⟩ := amount_iff.mp first <;>
    obtain rfl | ⟨b, lower', rfl⟩ := amount_iff.mp second
  · exact amount_infinity
  · exact amount_infinity
  · exact amount_infinity
  · exact amount_finite.mpr (add_nonneg lower lower')

theorem Amount.add_eq_zero (first : x.Amount) (second : y.Amount) :
    (x + y == Scalar.zero) = true ↔ (x == Scalar.zero) = true ∧ (y == Scalar.zero) = true := by
  have top : (infinity + infinity : Exact K) = infinity := rfl
  have left (a : K) : (finite a + infinity : Exact K) = infinity := rfl
  obtain rfl | ⟨a, lower, rfl⟩ := amount_iff.mp first <;>
    obtain rfl | ⟨b, lower', rfl⟩ := amount_iff.mp second
  · simp [top]
  · simp [infinity_add_finite]
  · simp [left]
  · rw [finite_add, finite_beq_zero, finite_beq_zero, finite_beq_zero]
    exact add_eq_zero_iff_of_nonneg lower lower'

/-- A sum of amounts, from an amount on. -/
theorem Amount.foldl_add {xs : List (Exact K)} (first : x.Amount) (all : ∀ y ∈ xs, y.Amount) :
    (xs.foldl (· + ·) x).Amount := by
  induction xs generalizing x with
  | nil => exact first
  | cons y xs ih =>
    obtain ⟨own, others⟩ := List.forall_mem_cons.mp all
    exact ih (first.add own) others

theorem Amount.foldl_add_eq_zero {xs : List (Exact K)} (first : x.Amount)
    (all : ∀ y ∈ xs, y.Amount) : (xs.foldl (· + ·) x == Scalar.zero) = true ↔
      (x == Scalar.zero) = true ∧ ∀ y ∈ xs, (y == Scalar.zero) = true := by
  induction xs generalizing x with
  | nil => simp
  | cons y xs ih =>
    obtain ⟨own, others⟩ := List.forall_mem_cons.mp all
    rw [List.foldl_cons, ih (first.add own) others, first.add_eq_zero own, and_assoc,
      List.forall_mem_cons]

end Metaheuristic.Exact
