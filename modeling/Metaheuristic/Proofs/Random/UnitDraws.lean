import Metaheuristic.Proofs.Number.UnitCube
import Metaheuristic.Proofs.Random.Draw
import Metaheuristic.Random.Generator

/-! Sources of exact numbers whose real draws keep to their ranges: a number of the unit
interval lies below one, and a step of a walk is at most one unit long. The word stream is
such a source. -/
namespace Metaheuristic

open Exact

variable {ρ K : Type} [Field K] [LinearOrder K] [FloorRing K] [Elementary K]
  [RandomSource ρ (Exact K)]

/-- A source whose real draws keep to their ranges. -/
structure RandomSource.WithinUnit (ρ : Type) {K : Type} [Field K] [LinearOrder K] [FloorRing K]
    [Elementary K] [RandomSource ρ (Exact K)] : Prop where
  unit : ∀ s : ρ, ∃ u : K, (RandomSource.unit s).1 = .finite u ∧ 0 ≤ u ∧ u < 1
  walk : ∀ s : ρ, ∃ w : K,
    (RandomSource.between (-Scalar.one) Scalar.one s).1 = .finite w ∧ -1 ≤ w ∧ w ≤ 1

namespace Draw.Yields

variable (within : RandomSource.WithinUnit ρ)

include within

theorem unit_range : Yields (Draw.unit : Draw ρ (Exact K))
    fun x => ∃ u : K, x = .finite u ∧ 0 ≤ u ∧ u < 1 := by
  intro s b s' _ ran
  cases ran
  exact within.unit s

theorem walk_range : Yields (Draw.walk : Draw ρ (Exact K))
    fun x => ∃ w : K, x = .finite w ∧ -1 ≤ w ∧ w ≤ 1 := by
  intro s b s' _ ran
  cases ran
  exact within.walk s

theorem unit : Yields (Draw.unit : Draw ρ (Exact K)) InUnit :=
  (unit_range within).weaken fun _ ⟨u, same, lower, upper⟩ => ⟨u, same, lower, upper.le⟩

theorem walk : Yields (Draw.walk : Draw ρ (Exact K)) Exact.Finite :=
  (walk_range within).weaken fun _ ⟨w, same, _⟩ => ⟨w, same⟩

end Draw.Yields

namespace Generator

omit [RandomSource ρ (Exact K)] in
/-- The upper bits of a word make a fraction below one. -/
private theorem fraction [IsStrictOrderedRing K] {n d : Nat} (below : n < d) :
    ∃ u : K, (Scalar.ratio n d : Exact K) = .finite u ∧ 0 ≤ u ∧ u < 1 := by
  have positive : 0 < d := Nat.zero_lt_of_lt below
  have denominator : (0 : K) < d := Nat.cast_pos.mpr positive
  refine ⟨n / d, ?_, div_nonneg (Nat.cast_nonneg n) denominator.le, ?_⟩
  · rw [Scalar.ratio, ofNat_eq, ofNat_eq, finite_div denominator.ne']
  · rw [div_lt_one denominator]
    exact Nat.cast_lt.mpr below

theorem withinUnit [IsStrictOrderedRing K] :
    RandomSource.WithinUnit (Generator (Exact K)) where
  unit g := by
    have below : (g.word64.1 >>> 11).toNat < Nat.pow 2 53 := by
      have word := UInt64.toNat_lt g.word64.1
      rw [UInt64.toNat_shiftRight]
      simp only [Nat.shiftRight_eq_div_pow]
      exact Nat.div_lt_of_lt_mul (by simpa using word)
    exact fraction below
  walk g := by
    have below : (g.word64.1 >>> 12).toNat < Nat.pow 2 52 := by
      have word := UInt64.toNat_lt g.word64.1
      rw [UInt64.toNat_shiftRight]
      simp only [Nat.shiftRight_eq_div_pow]
      exact Nat.div_lt_of_lt_mul (by simpa using word)
    obtain ⟨u, place, lower, upper⟩ := fraction (K := K) below
    have drawn : (RandomSource.between (-Scalar.one) Scalar.one g : Exact K × _).1 =
        Scalar.ratio (g.word64.1 >>> 12).toNat (Nat.pow 2 52) *
          (Scalar.one - -Scalar.one) + -Scalar.one := rfl
    refine ⟨u * (1 - -1) + -1, ?_, by linarith, by linarith⟩
    rw [drawn, place, one_eq, neg_finite, finite_sub, finite_mul, finite_add]

/-- No word lies below nothing. -/
theorem chance_zero [IsStrictOrderedRing K] (g : Generator (Exact K)) :
    (RandomSource.chance (Scalar.zero : Exact K) g).1 = false := by
  change (chance Scalar.zero g).1 = false
  have unlike : ((Scalar.zero : Exact K) == Scalar.one) = false := by
    rw [zero_eq, one_eq, beq_eq]
    simp [same]
  have nothing : (Scalar.zero : Exact K) * Scalar.ofNat (wordSpan true) = .finite 0 := by
    rw [zero_eq, ofNat_eq, finite_mul, zero_mul]
  have zero : Scalar.toWord (.finite 0 : Exact K) = 0 := by
    change Nat.min ⌊(0 : K)⌋.toNat _ = 0
    rw [Int.floor_zero]
    exact Nat.zero_min _
  rw [chance, unlike, nothing, zero]
  exact decide_eq_false (Nat.not_lt_zero g.word64.1.toNat)

end Generator
end Metaheuristic
