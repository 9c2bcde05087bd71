import Mathlib.Data.Int.Log
import Metaheuristic.Proofs.Number.Value

/-! Rounding to the nearest double, apart from how it is calculated. A positive number is measured
in the last place that a full mantissa has for it, or in the least place of all, and goes to the
nearest whole number of these, a tie to the even one. This keeps the order and leaves the numbers of
doubles as they are. -/
namespace Metaheuristic.Double
open Float.Model UnpackedFloat

section Whole

/-- Nearest whole number, a tie going to the even one. -/
def nearestEven (x : ℚ) : Int :=
  if x - ⌊x⌋ < 1 / 2 then ⌊x⌋ else if 1 / 2 < x - ⌊x⌋ then ⌊x⌋ + 1 else ⌊x⌋ + ⌊x⌋ % 2

variable {x y : ℚ}

theorem nearestEven_bounds (x : ℚ) : ⌊x⌋ ≤ nearestEven x ∧ nearestEven x ≤ ⌊x⌋ + 1 := by
  unfold nearestEven
  split_ifs <;> omega

theorem nearestEven_intCast (n : Int) : nearestEven n = n := by
  rw [nearestEven, Int.floor_intCast, sub_self, if_pos one_half_pos]

theorem nearestEven_mono (ordered : x ≤ y) : nearestEven x ≤ nearestEven y := by
  rcases (Int.floor_le_floor ordered).lt_or_eq with lower | same
  · have upper := (nearestEven_bounds x).2
    have above := (nearestEven_bounds y).1
    omega
  · have parts : x - ⌊x⌋ ≤ y - ⌊x⌋ := sub_le_sub_right ordered _
    unfold nearestEven
    rw [← same]
    split_ifs <;> first | omega | linarith

/-- Less than a half above a whole number, or a half above an even one. -/
theorem nearestEven_eq_of_le {n : Int} (lower : (n : ℚ) ≤ x)
    (upper : x < n + 1 / 2 ∨ x = n + 1 / 2 ∧ n % 2 = 0) : nearestEven x = n := by
  have whole : ⌊x⌋ = n := by
    rw [Int.floor_eq_iff]
    refine ⟨lower, ?_⟩
    rcases upper with below | ⟨half, _⟩ <;> linarith
  unfold nearestEven
  rw [whole]
  rcases upper with below | ⟨half, even⟩
  · rw [if_pos (by linarith)]
  · rw [if_neg (by linarith), if_neg (by linarith), even, add_zero]

end Whole

section Grid

/-- The exponent of the last place of a number. -/
def lastPlace (q : ℚ) : Int := max (Int.log 2 q - 52) (-1074)

/-- The nearest number with a mantissa of a double. -/
def nearest (q : ℚ) : ℚ := nearestEven (q / 2 ^ lastPlace q) * 2 ^ lastPlace q

variable {p q : ℚ}

theorem lastPlace_mono (positive : 0 < p) (ordered : p ≤ q) : lastPlace p ≤ lastPlace q :=
  max_le_max_right _ (Int.sub_le_sub_right (Int.log_mono_right positive ordered) 52)

/-- A number has no more than a full mantissa of last places. -/
theorem lt_lastPlace (q : ℚ) : q < 2 ^ 53 * 2 ^ lastPlace q := by
  have top : q < 2 ^ (Int.log 2 q + 1) := Int.lt_zpow_succ_log_self one_lt_two q
  refine top.trans_le ?_
  have full : (2 : ℚ) ^ 53 * 2 ^ lastPlace q = 2 ^ (53 + lastPlace q) := by
    rw [zpow_add₀ two_ne_zero]
    norm_num
  rw [full, lastPlace]
  exact zpow_le_zpow_right₀ one_le_two (by omega)

/-- Above the least place it has a full mantissa. -/
theorem lastPlace_le (positive : 0 < q) (above : lastPlace q ≠ -1074) :
    2 ^ 52 * 2 ^ lastPlace q ≤ q := by
  have bottom : 2 ^ Int.log 2 q ≤ q := Int.zpow_log_le_self one_lt_two positive
  have full : (2 : ℚ) ^ 52 * 2 ^ lastPlace q = 2 ^ (52 + lastPlace q) := by
    rw [zpow_add₀ two_ne_zero]
    norm_num
  rw [full]
  unfold lastPlace at above ⊢
  refine le_trans (zpow_le_zpow_right₀ one_le_two ?_) bottom
  omega

theorem nearestEven_le_full (q : ℚ) : nearestEven (q / 2 ^ lastPlace q) ≤ (2 ^ 53 : Nat) := by
  rw [← nearestEven_intCast (2 ^ 53 : Nat)]
  refine nearestEven_mono ?_
  rw [div_le_iff₀ (two_zpow_pos _)]
  exact_mod_cast (lt_lastPlace q).le

theorem full_le_nearestEven (positive : 0 < q) (above : lastPlace q ≠ -1074) :
    (2 ^ 52 : Nat) ≤ nearestEven (q / 2 ^ lastPlace q) := by
  rw [← nearestEven_intCast (2 ^ 52 : Nat)]
  refine nearestEven_mono ?_
  rw [le_div_iff₀ (two_zpow_pos _)]
  exact_mod_cast lastPlace_le positive above

theorem nearest_zero : nearest 0 = 0 := by
  have whole : nearestEven 0 = 0 := nearestEven_intCast 0
  rw [nearest, zero_div, whole, Int.cast_zero, zero_mul]

/-- Whole numbers of last places are not rounded. -/
theorem nearest_of_multiple {m : Int} {e : Int} (number : q = m * 2 ^ e)
    (coarse : lastPlace q ≤ e) : nearest q = q := by
  obtain ⟨k, same⟩ : ∃ k : Nat, e = k + lastPlace q := ⟨(e - lastPlace q).toNat, by omega⟩
  have place := two_zpow_pos (lastPlace q)
  have whole : q / 2 ^ lastPlace q = (m * 2 ^ k : Int) := by
    rw [div_eq_iff place.ne', Int.cast_mul, Int.cast_pow, Int.cast_ofNat, mul_assoc,
      ← zpow_natCast, ← zpow_add₀ two_ne_zero, ← same]
    exact number
  rw [nearest, whole, nearestEven_intCast, ← whole, div_mul_cancel₀ _ place.ne']

/-- The numbers of doubles are not rounded, nor are those that would follow the greatest. -/
theorem nearest_eq_self {m : Nat} {e : Int} (short : m < 2 ^ 53) (least : -1074 ≤ e) :
    nearest (m * 2 ^ e) = m * 2 ^ e := by
  rcases Nat.eq_zero_or_pos m with rfl | positive
  · rw [Nat.cast_zero, zero_mul, nearest_zero]
  · refine nearest_of_multiple (m := m) (e := e) (by push_cast; rfl) ?_
    have number : (0 : ℚ) < m * 2 ^ e := mul_pos (Nat.cast_pos.mpr positive) (two_zpow_pos e)
    have below : (m : ℚ) * 2 ^ e < 2 ^ (53 + e) := by
      rw [zpow_add₀ two_ne_zero]
      refine mul_lt_mul_of_pos_right ?_ (two_zpow_pos e)
      exact_mod_cast short
    have log : Int.log 2 ((m : ℚ) * 2 ^ e) < 53 + e :=
      (Int.lt_zpow_iff_log_lt one_lt_two number).mp below
    unfold lastPlace
    omega

/-- Small whole numbers are not rounded. -/
theorem nearest_natCast {n : Nat} (short : n ≤ 2 ^ 53) : nearest n = n := by
  rcases short.lt_or_eq with below | rfl
  · have same := nearest_eq_self (e := 0) below (by decide)
    rwa [zpow_zero, mul_one] at same
  · have same := nearest_eq_self (m := 2 ^ 52) (e := 1) (by decide) (by decide)
    have number : ((2 ^ 52 : Nat) : ℚ) * 2 ^ (1 : Int) = (2 ^ 53 : Nat) := by norm_num
    rwa [number] at same

theorem nearest_nonneg (nonneg : 0 ≤ q) : 0 ≤ nearest q := by
  have place := two_zpow_pos (lastPlace q)
  have whole : 0 ≤ nearestEven (q / 2 ^ lastPlace q) := by
    have lower := nearestEven_mono (div_nonneg nonneg place.le)
    rwa [← Int.cast_zero, nearestEven_intCast] at lower
  exact mul_nonneg (Int.cast_nonneg whole) place.le

/-- Rounding keeps the order. -/
theorem nearest_mono (nonneg : 0 ≤ p) (ordered : p ≤ q) : nearest p ≤ nearest q := by
  rcases nonneg.eq_or_lt with rfl | positive
  · rw [nearest_zero]
    exact nearest_nonneg ordered
  · have place := two_zpow_pos (lastPlace p)
    rcases (lastPlace_mono positive ordered).eq_or_lt with same | coarser
    · unfold nearest
      rw [← same]
      refine mul_le_mul_of_nonneg_right (Int.cast_le.mpr (nearestEven_mono ?_)) place.le
      exact div_le_div_of_nonneg_right ordered place.le
    · -- a power of two lies between the two numbers
      have place' := two_zpow_pos (lastPlace q)
      have least : -1074 ≤ lastPlace p := le_max_right _ _
      have under := nearestEven_le_full p
      have beyond := full_le_nearestEven (positive.trans_le ordered) (by omega)
      calc nearest p ≤ 2 ^ 53 * 2 ^ lastPlace p := by
            refine mul_le_mul_of_nonneg_right ?_ place.le
            exact_mod_cast under
        _ = 2 ^ 52 * 2 ^ (lastPlace p + 1) := by rw [zpow_add_one₀ two_ne_zero]; ring
        _ ≤ 2 ^ 52 * 2 ^ lastPlace q :=
            mul_le_mul_of_nonneg_left (zpow_le_zpow_right₀ one_le_two coarser) (by positivity)
        _ ≤ nearest q := by
            refine mul_le_mul_of_nonneg_right ?_ place'.le
            exact_mod_cast beyond

end Grid

end Metaheuristic.Double
