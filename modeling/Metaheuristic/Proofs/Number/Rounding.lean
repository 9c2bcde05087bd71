import Metaheuristic.Proofs.Number.Exact

/-! Rounding and clamping of exact numbers. Rounding keeps the order and leaves whole
numbers as they are, so a rounded number that is moved back into the interval of the
number still rounds to itself. -/
namespace Metaheuristic.Exact

variable {K : Type} [Field K] [LinearOrder K] [FloorRing K]

section Nearest

variable [IsStrictOrderedRing K] {x lo hi : K}

theorem nearest_intCast (n : Int) : nearest (n : K) = n := by
  have half : ⌊(1 / 2 : K)⌋ = 0 := by
    rw [Int.floor_eq_zero_iff]
    constructor <;> norm_num
  unfold nearest
  split
  · rw [Int.floor_intCast_add, half, Int.add_zero]
  · rw [← Int.cast_neg, Int.floor_intCast_add, half, Int.add_zero, Int.neg_neg]

theorem nearest_le_nearest {x y : K} (ordered : x ≤ y) : nearest x ≤ nearest y := by
  unfold nearest
  split
  · rename_i nonneg
    rw [if_pos (nonneg.trans ordered)]
    exact Int.floor_le_floor (add_le_add_left ordered _)
  · rename_i negative
    have lower : 0 ≤ ⌊-x + 1 / 2⌋ := by
      rw [Int.floor_nonneg]
      linarith
    split
    · rename_i nonneg
      have upper : 0 ≤ ⌊y + 1 / 2⌋ := by
        rw [Int.floor_nonneg]
        linarith
      omega
    · have turned : ⌊-y + 1 / 2⌋ ≤ ⌊-x + 1 / 2⌋ :=
        Int.floor_le_floor (add_le_add_left (neg_le_neg ordered) _)
      omega

/-- A number of an interval rounds to the same whole number once this is moved back into
the interval. -/
theorem nearest_clamp (lower : lo ≤ x) (upper : x ≤ hi) :
    nearest (max lo (min hi (nearest x : K))) = nearest x := by
  have mono : Monotone (nearest : K → Int) := fun _ _ => nearest_le_nearest
  calc nearest (max lo (min hi (nearest x : K)))
      = max (nearest lo) (min (nearest hi) (nearest x)) := by
        rw [mono.map_max, mono.map_min, nearest_intCast]
    _ = nearest x := by
        rw [min_eq_right (nearest_le_nearest upper), max_eq_right (nearest_le_nearest lower)]

end Nearest

variable [Elementary K]

theorem round_finite (x : K) : Scalar.round (finite x) = finite (nearest x : K) := rfl

theorem ofNat_eq (n : Nat) : (Scalar.ofNat n : Exact K) = finite (n : K) := rfl

theorem clampUnit_finite [IsStrictOrderedRing K] (x : K) :
    Scalar.clampUnit (finite x) = finite (max 0 (min 1 x)) := by
  rw [Scalar.clampUnit, Scalar.clamp, zero_eq, one_eq, lt_eq, lt_eq]
  simp only [below, decide_eq_true_eq]
  split
  · rename_i negative
    rw [max_eq_left ((min_le_right _ _).trans negative.le)]
  · rename_i nonneg
    split
    · rename_i beyond
      rw [min_eq_left beyond.le, max_eq_right zero_le_one]
    · rename_i within
      rw [min_eq_right (not_lt.mp within), max_eq_right (not_lt.mp nonneg)]

/-- The numbers of the unit interval. -/
theorem unit_iff {x : Exact K} :
    (Scalar.le Scalar.zero x = true ∧ Scalar.le x Scalar.one = true) ↔
      ∃ g, x = finite g ∧ 0 ≤ g ∧ g ≤ 1 := by
  rw [zero_eq, one_eq, le_eq, le_eq]
  cases x <;> simp [below, same, le_iff_lt_or_eq]

/-- A natural number that is a machine word comes back from its number. -/
theorem toWord_ofNat [IsStrictOrderedRing K] {n : Nat} (small : n < wordCount) :
    Scalar.toWord (Scalar.ofNat n : Exact K) = n := by
  have unfolded : Scalar.toWord (Scalar.ofNat n : Exact K) =
      Nat.min ⌊(n : K)⌋.toNat (wordCount - 1) := rfl
  rw [unfolded, Int.floor_natCast, Int.toNat_natCast]
  exact Nat.min_eq_left (by omega)

end Metaheuristic.Exact
