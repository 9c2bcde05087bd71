import Metaheuristic.Proofs.Number.Codes
import Metaheuristic.Proofs.Number.Rounded
import Metaheuristic.Proofs.Options

/-! Whole numbers among the doubles. A cast to a machine word is the floor of the number as far as
there are words, and the greatest word beyond, so a double passes the test for whole numbers exactly
when its number is whole, and from the number of words on all of them share a word. -/
namespace Metaheuristic.Double
open Float.Model UnpackedFloat

/-- A number of at most fifty-three bits is not rounded. -/
theorem value_ofNat {n : Nat} (short : n < 2 ^ 53) : value? (ofNat n) = some (n : ℚ) := by
  have kept : nearest n = n := nearest_natCast short.le
  have small : nearest n < 2 ^ 1024 := by
    have below : (n : ℚ) < 2 ^ 53 := by exact_mod_cast short
    exact kept.trans_lt (below.trans (pow_lt_pow_right₀ one_lt_two (by decide)))
  rw [(isNearest_ofNat n).value small, kept]

theorem roundToInt_positive (m : Nat) (e : Int) :
    roundToInt .positive m e = ⌊(m : ℚ) * 2 ^ e⌋₊ := by
  rcases le_total 0 e with nonneg | negative
  · obtain ⟨k, rfl⟩ := Int.eq_ofNat_of_zero_le nonneg
    have whole : (m : ℚ) * 2 ^ (k : Int) = (m * 2 ^ k : Nat) := by
      rw [zpow_natCast]
      push_cast
      rfl
    rw [roundToInt_of_nonneg m nonneg, whole, Nat.floor_natCast]
    rfl
  · obtain ⟨k, rfl⟩ : ∃ k : Nat, e = -k := ⟨(-e).toNat, by omega⟩
    have quotient : (m : ℚ) * 2 ^ (-k : Int) = m / (2 ^ k : Nat) := by
      rw [zpow_neg, zpow_natCast, div_eq_mul_inv]
      push_cast
      rfl
    have none : (-(k : Int) - 0).toNat = 0 := by omega
    have steps : (0 - (-(k : Int) - (0 : Nat))).toNat = k := by omega
    rw [quotient, Nat.floor_div_eq_div]
    unfold roundToInt decreaseExponent shiftToExponent
    dsimp only
    rw [none, steps, Nat.shiftLeft_zero, mantissa_shiftRight, mantissa_ofMantissaAndAccuracy]
    rfl

/-- Cut off at zero, a cast to whole numbers is the floor. -/
theorem toNat_toInt {u : UnpackedFloat} (value : valueOf u = some q) :
    (UnpackedFloat.toInt 0 (UInt64.size - 1) u).toNat = ⌊q⌋₊ := by
  rcases u with s | _ | s | ⟨_ | _, m, e, positive⟩ <;> cases value
  case zero =>
    rw [Nat.floor_zero]
    rfl
  case finite.positive =>
    have magnitude : UnpackedFloat.toInt 0 (UInt64.size - 1) (.finite .positive m e positive) =
      ⌊(m : ℚ) * 2 ^ e⌋₊ := roundToInt_positive m e
    rw [magnitude, Int.toNat_natCast]
    rfl
  case finite.negative =>
    have magnitude : UnpackedFloat.toInt 0 (UInt64.size - 1) (.finite .negative m e positive) =
      -(⌊(m : ℚ) * 2 ^ e⌋₊ : Int) := by
      rw [← roundToInt_positive]
      rfl
    have below : ((Sign.negative.apply m : Int) : ℚ) * 2 ^ e ≤ 0 := by
      have above : (0 : ℚ) ≤ m * 2 ^ e := mul_nonneg (Nat.cast_nonneg m) (two_zpow_pos e).le
      simpa [Sign.apply] using above
    rw [magnitude, Nat.floor_of_nonpos below]
    omega

/-- A cast to a word is the floor, as far as there are words. -/
theorem toWord_eq (value : value? x = some q) :
    Scalar.toWord x = min ⌊q⌋₊ (wordCount - 1) := by
  rw [← toNat_toInt value, ← toNat_ofNatClamp]
  rfl

/-- From `wholeFrom` on every number is whole: its exponent is not negative. -/
theorem floor_of_large (value : value? x = some q) (large : 2 ^ 52 ≤ q) : (⌊q⌋₊ : ℚ) = q := by
  have canonical := canonical_toModel x
  rw [value?] at value
  rcases unpacked : x.toModel.unpack with s | _ | s | ⟨_ | _, m, e, positive⟩ <;>
    rw [unpacked] at value canonical <;> cases value
  case zero => norm_num at large
  case finite.negative =>
    have above : (0 : ℚ) < m * 2 ^ e := mul_pos (Nat.cast_pos.mpr positive) (two_zpow_pos e)
    simp only [Sign.apply, Int.cast_neg, Int.cast_natCast, neg_mul] at large
    linarith
  case finite.positive =>
    have nonneg : 0 ≤ e := by
      by_contra negative
      have small : (m : ℚ) * 2 ^ e < 2 ^ 52 := by
        calc (m : ℚ) * 2 ^ e ≤ m * 2 ^ (-1 : Int) :=
              mul_le_mul_of_nonneg_left (zpow_le_zpow_right₀ one_le_two (by omega))
                (Nat.cast_nonneg m)
          _ < 2 ^ 53 * 2 ^ (-1 : Int) := by
              refine mul_lt_mul_of_pos_right ?_ (two_zpow_pos _)
              exact_mod_cast canonical.1
          _ = 2 ^ 52 := by norm_num
      exact absurd large (not_le.mpr small)
    obtain ⟨k, rfl⟩ := Int.eq_ofNat_of_zero_le nonneg
    have whole : ((Sign.positive.apply m : Int) : ℚ) * 2 ^ (k : Int) = (m * 2 ^ k : Nat) := by
      rw [Sign.apply, zpow_natCast]
      push_cast
      rfl
    rw [whole, Nat.floor_natCast]

/-- The number of a word is the floor, where doubles have a part after the point at all. -/
theorem value_floor (value : value? x = some q) (nonneg : 0 ≤ q) :
    value? (floor x) = some (⌊q⌋₊ : ℚ) := by
  have origin : value? 0.0 = some 0 := value_zero
  have boundary : value? wholeFrom = some (2 ^ 52) := by decide +kernel
  have notBelow : ¬ x < 0.0 := fun below =>
    absurd ((lt_iff_value value origin).mp (decide_eq_true below)) (not_lt.mpr nonneg)
  rcases nonneg.eq_or_lt with rfl | above
  · have zero : (x == 0.0) = true := (eq_iff_value value origin).mpr rfl
    have same : floor x = x := by
      unfold floor
      rw [if_neg notBelow, if_pos zero, ite_self]
    rw [same, value, Nat.floor_zero, Nat.cast_zero]
  · have order : Scalar.lt Scalar.zero x = true := (lt_iff_value origin value).mpr above
    obtain ⟨m, e, positive, unpacked⟩ :=
      unpack_above_zero (finite_iff_value.mpr ⟨q, value⟩) order
    by_cases small : x < wholeFrom
    · have short : ⌊q⌋₊ < 2 ^ 52 := by
        rw [Nat.floor_lt nonneg]
        exact_mod_cast (lt_iff_value value boundary).mp (decide_eq_true small)
      have notZero : (x == 0.0) = false := by
        rw [Bool.eq_false_iff, Ne, eq_iff_value value origin]
        exact above.ne'
      have word : min ⌊q⌋₊ (wordCount - 1) = ⌊q⌋₊ := min_eq_left (short.le.trans (by decide))
      rw [floor_of_small unpacked small notBelow notZero, toWord_eq value, word]
      exact value_ofNat (short.trans (by decide))
    · have large : (2 : ℚ) ^ 52 ≤ q := by
        by_contra below
        exact small (of_decide_eq_true ((lt_iff_value value boundary).mpr (not_le.mp below)))
      have same : floor x = x := by
        unfold floor
        rw [abs_of_positive unpacked, if_neg small]
      rw [same, floor_of_large value large, value]

/-- The doubles that pass as counts are those of the natural numbers. -/
theorem isCount_iff : OptionKind.IsCount x ↔ ∃ n : Nat, value? x = some (n : ℚ) := by
  constructor
  · intro ⟨number, lower, whole⟩
    obtain ⟨q, value⟩ := finite_iff_value.mp number
    have nonneg : 0 ≤ q := (le_iff_value value_zero value).mp lower
    have same : (⌊q⌋₊ : ℚ) = q := (eq_iff_value (value_floor value nonneg) value).mp whole
    exact ⟨⌊q⌋₊, same ▸ value⟩
  · intro ⟨n, value⟩
    have nonneg : (0 : ℚ) ≤ n := Nat.cast_nonneg n
    refine ⟨finite_iff_value.mpr ⟨n, value⟩, (le_iff_value value_zero value).mpr nonneg, ?_⟩
    refine (eq_iff_value (value_floor value nonneg) value).mpr ?_
    rw [Nat.floor_natCast]

end Metaheuristic.Double
