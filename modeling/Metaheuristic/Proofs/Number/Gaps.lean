import Metaheuristic.Proofs.Number.Total

/-! Gaps between numbers. A crowding distance starts at zero and adds gaps between ordered
coordinates as fractions of a range. Rounded or not, a gap is not below zero and the distance
stays from zero on in the total order. There two numbers that are equal have one place, because
the zero of the other sign stands before. -/
namespace Metaheuristic

/-- Zero, or a value that stands behind it. -/
def Scalar.FromZero {α : Type} [Scalar α] (x : α) : Prop :=
  Scalar.totalOrder Scalar.zero x ≠ .gt

/-- The laws of gaps. -/
class Scalar.LawfulGaps (α : Type) [Scalar α] : Prop where
  fromZero_infinity : Scalar.FromZero (Scalar.infinity : α)
  fromZero_add {x y : α} : Scalar.FromZero x → Scalar.lt y Scalar.zero = false →
    Scalar.FromZero (x + y)
  /-- The gap between ordered numbers, as a fraction of a range. -/
  not_gap_lt_zero {x y range : α} : Scalar.lt y x = false → Scalar.lt Scalar.zero range = true →
    Scalar.lt ((y - x) / range) Scalar.zero = false
  /-- From zero on, equal numbers have one place. -/
  totalOrder_eq {x y : α} : Scalar.FromZero x → Scalar.FromZero y → (x == y) = true →
    Scalar.totalOrder x y = .eq

namespace Double
open Float.Model UnpackedFloat

/-- No value, a zero, or a number above zero. -/
def Upper : UnpackedFloat → Prop
  | .infinity s | .finite s _ _ _ => s = .positive
  | .zero _ | .notANumber => True

theorem upper_iff {u : UnpackedFloat} : Upper u ↔ Unsigned u ∨ Null u := by
  cases u <;> simp [Upper, Unsigned, Null]

theorem upper_pack {u : UnpackedFloat} (upper : Upper u) : Upper (Float.Model.pack u).unpack :=
  upper_iff.mpr ((upper_iff.mp upper).imp unsigned_pack null_pack)

theorem not_lt_zero_iff {x : Float} : Scalar.lt x Scalar.zero = false ↔ Upper x.toModel.unpack := by
  have number : (Scalar.zero : Float).isNaN = false := by decide +kernel
  rw [Bool.eq_false_iff, Ne, lt_iff_place, placeOf_zero, placeOf]
  change ¬(x.toModel.unpack.isNaN = false ∧ _) ↔ _
  simp only [number, true_and]
  rcases x.toModel.unpack with (_ | _) | _ | (_ | _) | ⟨_ | _, m, e, _⟩ <;>
    simp [UnpackedFloat.isNaN, place, Prod.Lex.lt_iff, Upper]

theorem fromZero_iff {x : Float} : Scalar.FromZero x ↔ Unsigned x.toModel.unpack := by
  have start : rank Scalar.zero = 0 := by decide +kernel
  have lower := (magnitude_bounds (canonical_toModel x)).1
  change compare (rank Scalar.zero) (rank x) ≠ .gt ↔ _
  rw [compare_le_iff_le, start, rank_eq]
  rcases unpacked : x.toModel.unpack with (_ | _) | _ | (_ | _) | ⟨_ | _, m, e, _⟩ <;>
    rw [unpacked] at lower <;> simp [rankOf, signOf, Unsigned] <;> omega

theorem unsigned_normalize {n : Int} (nonneg : 0 ≤ n) (e : Int) :
    Unsigned (UnpackedFloat.normalize Format.binary64 n e .positive) := by
  unfold UnpackedFloat.normalize
  split
  · rename_i below
    exact absurd (compare_lt_iff_lt.mp below) (not_lt.mpr nonneg)
  · rfl
  · exact unsigned_roundWithAccuracy _ _ _

theorem unsigned_add {u v : UnpackedFloat} (left : Unsigned u) (right : Upper v) :
    Unsigned (UnpackedFloat.add Format.binary64 u v) := by
  rcases u with (_ | _) | _ | (_ | _) | ⟨_ | _, m₁, e₁, _⟩ <;>
    rcases v with (_ | _) | _ | (_ | _) | ⟨_ | _, m₂, e₂, _⟩ <;>
    simp only [Unsigned, Upper, reduceCtorEq] at left right <;>
    first
      | rfl
      | trivial
      | exact unsigned_normalize (Int.add_nonneg (Int.natCast_nonneg _) (Int.natCast_nonneg _)) _

/-- Mantissas of ordered numbers of one sign, brought to one exponent. -/
theorem aligned_le {s t : Sign} {m₁ m₂ : Nat} {e₁ e₂ e : Int} {positive₁ : 0 < m₁}
    {positive₂ : 0 < m₂} (left : Canonical (.finite s m₁ e₁ positive₁))
    (right : Canonical (.finite t m₂ e₂ positive₂)) (low : e ≤ e₁)
    (ordered : e₁ < e₂ ∨ e₁ = e₂ ∧ m₁ ≤ m₂) :
    m₁ <<< (e₁ - e).toNat ≤ m₂ <<< (e₂ - e).toNat := by
  obtain ⟨short, least, _, _⟩ := left
  obtain ⟨_, _, _, long⟩ := right
  rw [Nat.shiftLeft_eq, Nat.shiftLeft_eq]
  rcases ordered with below | ⟨rfl, below⟩
  · have full : 2 ^ 52 ≤ m₂ := by omega
    have move : 2 ^ ((e₁ - e).toNat + 1) ≤ 2 ^ (e₂ - e).toNat :=
      Nat.pow_le_pow_right Nat.two_pos (by omega)
    calc m₁ * 2 ^ (e₁ - e).toNat ≤ 2 ^ 53 * 2 ^ (e₁ - e).toNat := Nat.mul_le_mul_right _ short.le
      _ = 2 ^ 52 * 2 ^ ((e₁ - e).toNat + 1) := by rw [pow_succ 2 52, pow_succ]; ring
      _ ≤ m₂ * 2 ^ (e₂ - e).toNat := Nat.mul_le_mul full move
  · exact Nat.mul_le_mul_right _ below

/-- The difference of ordered finite numbers is not negative before it is rounded. -/
theorem difference_nonneg {s t : Sign} {m₁ m₂ : Nat} {e₁ e₂ : Int} {positive₁ : 0 < m₁}
    {positive₂ : 0 < m₂} (left : Canonical (.finite s m₁ e₁ positive₁))
    (right : Canonical (.finite t m₂ e₂ positive₂))
    (ordered : place (.finite s m₁ e₁ positive₁) ≤ place (.finite t m₂ e₂ positive₂)) :
    0 ≤ t.apply (decreaseExponent m₂ e₂ (min e₂ e₁)).1 -
      s.apply (decreaseExponent m₁ e₁ (min e₂ e₁)).1 := by
  simp only [decreaseExponent]
  cases s <;> cases t <;> simp only [place, Prod.Lex.le_iff] at ordered <;>
    simp only [Sign.apply]
  · have back := aligned_le right left (min_le_left e₂ e₁) (by simp at ordered; omega)
    omega
  · rw [sub_neg_eq_add]
    exact Int.add_nonneg (Int.natCast_nonneg _) (Int.natCast_nonneg _)
  · simp at ordered
  · have ahead := aligned_le left right (min_le_right e₂ e₁) (by simp at ordered; omega)
    omega

/-- The difference of ordered numbers is not below zero. -/
theorem upper_sub {u v : UnpackedFloat} (left : Canonical u) (right : Canonical v)
    (ordered : u.isNaN = false → v.isNaN = false → place u ≤ place v) :
    Upper (UnpackedFloat.sub Format.binary64 v u) := by
  rcases u with (_ | _) | _ | (_ | _) | ⟨_ | _, m₁, e₁, positive₁⟩ <;>
    rcases v with (_ | _) | _ | (_ | _) | ⟨_ | _, m₂, e₂, positive₂⟩ <;>
    first
      | rfl
      | trivial
      | exact upper_iff.mpr
          (.inl (unsigned_normalize (difference_nonneg left right (ordered rfl rfl)) _))
      | simp [UnpackedFloat.isNaN, place, Prod.Lex.le_iff] at ordered

theorem upper_div {u v : UnpackedFloat} (left : Upper u) (right : Unsigned v) :
    Upper (UnpackedFloat.div Format.binary64 u v) := by
  rcases u with (_ | _) | _ | (_ | _) | ⟨_ | _, m₁, e₁, _⟩ <;>
    rcases v with (_ | _) | _ | (_ | _) | ⟨_ | _, m₂, e₂, _⟩ <;>
    simp only [Unsigned, Upper, reduceCtorEq] at left right <;>
    first
      | rfl
      | trivial
      | exact upper_iff.mpr (.inl (unsigned_roundWithAccuracy _ _ _))

/-- Without a minus sign, a number has its own place. -/
theorem rankOf_eq {u v : UnpackedFloat} (left : Unsigned u) (right : Unsigned v)
    (numberLeft : u.isNaN = false) (numberRight : v.isNaN = false) (same : place u = place v) :
    rankOf u = rankOf v := by
  rcases u with (_ | _) | _ | (_ | _) | ⟨_ | _, m₁, e₁, _⟩ <;>
    rcases v with (_ | _) | _ | (_ | _) | ⟨_ | _, m₂, e₂, _⟩ <;>
    simp [Unsigned, UnpackedFloat.isNaN, place] at left right numberLeft numberRight same ⊢
  rw [rankOf, rankOf, signOf, signOf, magnitude, magnitude, same.1, same.2]

instance : Scalar.LawfulGaps Float where
  fromZero_infinity := fromZero_iff.mpr (by rfl)
  fromZero_add left right :=
    fromZero_iff.mpr
      (unsigned_pack (unsigned_add (fromZero_iff.mp left) (not_lt_zero_iff.mp right)))
  not_gap_lt_zero {x y range} ordered positive := by
    refine not_lt_zero_iff.mpr (upper_pack (upper_div (upper_pack (upper_sub (canonical_toModel x)
      (canonical_toModel y) ?_)) ?_))
    · intro left right
      rw [Bool.eq_false_iff, Ne, lt_iff_place] at ordered
      exact not_lt.mp fun below => ordered ⟨right, left, below⟩
    · refine fromZero_iff.mp ?_
      rw [Scalar.FromZero, Scalar.LawfulTotal.of_lt positive]
      decide
  totalOrder_eq {x y} left right same := by
    obtain ⟨numberLeft, numberRight, places⟩ := eq_iff_place.mp same
    change compare (rank x) (rank y) = .eq
    rw [compare_eq_iff_eq, rank_eq, rank_eq]
    exact rankOf_eq (fromZero_iff.mp left) (fromZero_iff.mp right) numberLeft numberRight places

end Double

namespace Exact

variable {K : Type} [Field K] [LinearOrder K]

section Raw

variable [IsStrictOrderedRing K] {x y : Exact K}

theorem nonneg_sub (ordered : below y x = false) : below (add y (neg x)) (finite 0) = false := by
  cases x <;> cases y <;> simp [below, add, neg] at ordered ⊢
  exact ordered

theorem nonneg_div (nonneg : below x (finite 0) = false) (positive : below (finite 0) y = true) :
    below (div x y) (finite 0) = false := by
  cases y with
  | finite r =>
    replace positive : 0 < r := of_decide_eq_true positive
    cases x with
    | finite q =>
      replace nonneg : 0 ≤ q := not_lt.mp (of_decide_eq_false nonneg)
      rw [div, if_neg positive.ne']
      exact decide_eq_false (not_lt.mpr (div_nonneg nonneg positive.le))
    | infinity =>
      rw [div, if_neg positive.not_gt]
      rfl
    | negInfinity => cases nonneg
    | undefined => rfl
  | infinity => cases x <;> simp [below, div] at nonneg ⊢
  | negInfinity => cases positive
  | undefined => cases positive

end Raw

variable [FloorRing K] [Elementary K]

theorem fromZero_iff {x : Exact K} : Scalar.FromZero x ↔ below x (finite 0) = false := by
  rw [Scalar.FromZero, zero_eq]
  change compare (finite 0) x ≠ .gt ↔ _
  cases x <;> simp [compare, below, compare_gt_iff_gt]

variable [IsStrictOrderedRing K]

instance : Scalar.LawfulGaps (Exact K) where
  fromZero_infinity := fromZero_iff.mpr rfl
  fromZero_add {x y} left right := by
    rw [zero_eq, lt_eq] at right
    rw [fromZero_iff] at left ⊢
    change below (add x y) (finite 0) = false
    cases x <;> cases y <;> simp [below, add] at left right ⊢
    exact add_nonneg left right
  not_gap_lt_zero ordered positive := by
    rw [zero_eq, lt_eq] at *
    exact nonneg_div (nonneg_sub ordered) positive
  totalOrder_eq {x y} _ _ same := by
    change compare x y = .eq
    rw [beq_eq] at same
    cases x <;> cases y <;> simp [Exact.same, compare] at same ⊢
    exact same

end Exact
end Metaheuristic
