import Metaheuristic.Proofs.Number.Nearest

/-! Results of arithmetic, rounded. Sums, differences and quotients are worked out to a mantissa and
to what is known of the bits behind it, and those two are all that rounding needs. So a result that
is not negative is the nearest double to the exact one, or the upper infinity where that is too
large for a double. -/
namespace Metaheuristic.Double
open Float.Model UnpackedFloat

section Accuracy

/-- A number of which the whole part is known, and its place between that and the next one. -/
def Located (m : Nat) : Accuracy → ℚ → Prop
  | .exact, x => x = m
  | .inexact .lt, x => m < x ∧ x < m + 1 / 2
  | .inexact .eq, x => x = m + 1 / 2
  | .inexact .gt, x => m + 1 / 2 < x ∧ x < m + 1

variable {m : Nat} {a : Accuracy} {x : ℚ}

theorem Located.bounds (located : Located m a x) : m ≤ x ∧ x < m + 1 := by
  rcases a with _ | (_ | _ | _) <;> simp only [Located] at located <;> constructor <;> linarith

/-- Rounding needs to know no more of a number. -/
theorem Located.rounded (located : Located m a x) :
    nearestEven x = a.roundToNearestEven m := by
  have whole : ⌊x⌋ = m := Int.floor_eq_iff.mpr (by exact_mod_cast located.bounds)
  have parts : x - ⌊x⌋ = x - m := by
    rw [whole]
    rfl
  unfold nearestEven
  rw [parts, whole]
  rcases a with _ | (_ | _ | _) <;> simp only [Located] at located <;>
    simp only [Accuracy.roundToNearestEven]
  · rw [if_pos (by linarith)]
  · rw [if_pos (by linarith)]
  · rw [if_neg (by linarith), if_neg (by linarith)]
    push_cast
    rfl
  · rw [if_neg (by linarith), if_pos (by linarith)]
    push_cast
    rfl

/-- The bit that is dropped and whether anything stood behind it place the half of the number. -/
theorem located_shiftRightOne {em : ExtendedMantissa} (located : Located em.mantissa em.accuracy x) :
    Located em.shiftRightOne.mantissa em.shiftRightOne.accuracy (x / 2) := by
  obtain ⟨m, round, sticky⟩ := em
  have halves : (m : ℚ) = 2 * (m / 2 : Nat) + (m % 2 : Nat) := by
    exact_mod_cast (Nat.div_add_mod m 2).symm
  rcases Nat.mod_two_eq_zero_or_one m with dropped | dropped <;> rw [dropped] at halves <;>
    cases round <;> cases sticky <;>
    simp [Located, ExtendedMantissa.shiftRightOne, ExtendedMantissa.accuracy, dropped]
      at located halves ⊢ <;>
    first | linarith | (constructor <;> linarith)

theorem located_shiftRight (located : Located m a x) (k : Nat) :
    Located (ExtendedMantissa.ofMantissaAndAccuracy m a >>> k).mantissa
      (ExtendedMantissa.ofMantissaAndAccuracy m a >>> k).accuracy (x / 2 ^ k) := by
  change Located (k.repeat ExtendedMantissa.shiftRightOne _).mantissa
    (k.repeat ExtendedMantissa.shiftRightOne _).accuracy _
  induction k with
  | zero =>
    rw [pow_zero, div_one]
    rcases a with _ | (_ | _ | _) <;> exact located
  | succ k ih =>
    rw [pow_succ, ← div_div]
    exact located_shiftRightOne ih

/-- What is left of a quotient places it. -/
theorem located_quotient (n : Nat) {d : Nat} (positive : 0 < d) :
    Located (n / d) (accuracyOfFraction (n % d) d) (n / d : ℚ) := by
  have above : (0 : ℚ) < d := Nat.cast_pos.mpr positive
  have parts : (n : ℚ) / d = (n / d : Nat) + (n % d : Nat) / (d : ℚ) := by
    have whole : (n : ℚ) = (n / d : Nat) * d + (n % d : Nat) := by
      exact_mod_cast (Nat.div_add_mod' n d).symm
    conv_lhs => rw [whole]
    rw [add_div, mul_div_cancel_right₀ _ above.ne']
  have below : ((n % d : Nat) : ℚ) < d := Nat.cast_lt.mpr (Nat.mod_lt n positive)
  rw [parts]
  unfold accuracyOfFraction
  split_ifs with none
  · rw [none, Nat.cast_zero, zero_div, add_zero]
    rfl
  · have some : (0 : ℚ) < (n % d : Nat) / (d : ℚ) :=
      div_pos (Nat.cast_pos.mpr (Nat.pos_of_ne_zero none)) above
    have part : ((n % d : Nat) : ℚ) / d < 1 := (div_lt_one above).mpr below
    rcases lt_trichotomy (2 * (n % d)) d with lower | half | upper
    · rw [compare_lt_iff_lt.mpr lower]
      have half : ((n % d : Nat) : ℚ) / d < 1 / 2 := by
        rw [div_lt_div_iff₀ above two_pos, one_mul, mul_comm]
        exact_mod_cast lower
      exact ⟨by linarith, by linarith⟩
    · rw [compare_eq_iff_eq.mpr half]
      have half : ((n % d : Nat) : ℚ) / d = 1 / 2 := by
        rw [div_eq_div_iff above.ne' two_ne_zero, one_mul, mul_comm]
        exact_mod_cast half
      rw [half]
      rfl
    · rw [compare_gt_iff_gt.mpr upper]
      have half : 1 / 2 < ((n % d : Nat) : ℚ) / d := by
        rw [div_lt_div_iff₀ two_pos above, one_mul, mul_comm]
        exact_mod_cast upper
      exact ⟨by linarith, by linarith⟩

end Accuracy

section Rounding

/-- The nearest double to a number that is not negative, however large its exponent. -/
def Rounds (u : UnpackedFloat) (q : ℚ) : Prop :=
  ((∃ s, u = .zero s) ∧ nearest q = 0) ∨
    ∃ m e positive, u = .finite .positive m e positive ∧ Fitting m e ∧ nearest q = m * 2 ^ e

variable {m : Nat} {e : Int} {a : Accuracy} {x : ℚ}

/-- Rounding aims at the last place of the number, whatever stands behind the mantissa, as long as
the mantissa is full or the exponent is below the least one. -/
theorem targetExponent_eq_lastPlace (above : 0 < x) (lower : (m : ℚ) ≤ x) (upper : x < m + 1)
    (full : 52 ≤ m.log2 ∨ e ≤ -1074) :
    Format.binary64.targetExponent (totalExponent m e) = lastPlace (x * 2 ^ e) ∧
      e ≤ lastPlace (x * 2 ^ e) := by
  have number : 0 < x * 2 ^ e := mul_pos above (two_zpow_pos e)
  rw [targetExponent_eq, totalExponent, lastPlace]
  rcases Nat.eq_zero_or_pos m with rfl | positive
  · have small : x * 2 ^ e < 2 ^ e := by
      refine mul_lt_of_lt_one_left (two_zpow_pos e) ?_
      simpa using upper
    have log : Int.log 2 (x * 2 ^ e) < e := (Int.lt_zpow_iff_log_lt one_lt_two number).mp small
    have low : e ≤ -1074 := full.resolve_left (by decide)
    rw [Nat.log2_zero]
    omega
  · have bottom : ((2 ^ m.log2 : Nat) : ℚ) ≤ x :=
      (Nat.cast_le.mpr (Nat.log2_self_le positive.ne')).trans lower
    have top : x < ((2 ^ (m.log2 + 1) : Nat) : ℚ) := by
      refine upper.trans_le ?_
      exact_mod_cast Nat.lt_log2_self
    have shifted (k : Nat) : ((2 ^ k : Nat) : ℚ) * 2 ^ e = 2 ^ (k + e) := by
      rw [zpow_add₀ two_ne_zero, zpow_natCast]
      push_cast
      rfl
    have least : m.log2 + e ≤ Int.log 2 (x * 2 ^ e) := by
      rw [← Int.zpow_le_iff_le_log one_lt_two number]
      exact (shifted _).symm.trans_le (mul_le_mul_of_nonneg_right bottom (two_zpow_pos e).le)
    have greatest : Int.log 2 (x * 2 ^ e) < m.log2 + 1 + e := by
      rw [← Int.lt_zpow_iff_log_lt one_lt_two number]
      exact (mul_lt_mul_of_pos_right top (two_zpow_pos e)).trans_eq (shifted _)
    omega

/-- A rounded mantissa is at most one bit too long, and then it is a power of two. -/
theorem shiftToTargetExponent_rounded {r : Nat} {t : Int} (positive : 0 < r) (short : r ≤ 2 ^ 53)
    (least : -1074 ≤ t) (long : 2 ^ 52 ≤ r ∨ t = -1074) :
    ∃ m e, 0 < m ∧ Fitting m e ∧ (r : ℚ) * 2 ^ t = m * 2 ^ e ∧
      shiftToTargetExponent Format.binary64 r t .exact = (⟨m, false, false⟩, e) := by
  rcases short.lt_or_eq with fits | rfl
  · have fitting : Fitting r t := ⟨fits, least, long⟩
    have kept := shiftToTargetExponent_fitting positive fitting 0
    rw [Nat.pow_zero, Nat.one_mul, Nat.cast_zero, sub_zero] at kept
    exact ⟨r, t, positive, fitting, rfl, kept⟩
  · have fitting : Fitting (2 ^ 52) (t + 1) := ⟨by decide, by omega, .inl le_rfl⟩
    have halved := shiftToTargetExponent_fitting (Nat.two_pow_pos 52) fitting 1
    rw [Nat.cast_one, add_sub_cancel_right] at halved
    refine ⟨2 ^ 52, t + 1, Nat.two_pow_pos 52, fitting, ?_, halved⟩
    rw [zpow_add_one₀ two_ne_zero]
    push_cast
    ring

/-- The number is settled by the first shift: shifting the rounded mantissa once more keeps it. -/
theorem roundWithAccuracy_of_shifted {em : ExtendedMantissa} {t : Int} {q : ℚ}
    (shifted : shiftToTargetExponent Format.binary64 m e a = (em, t))
    (number : nearest q = em.roundedMantissa * 2 ^ t) (short : em.roundedMantissa ≤ 2 ^ 53)
    (least : -1074 ≤ t) (long : 2 ^ 52 ≤ em.roundedMantissa ∨ t = -1074) :
    Rounds (roundWithAccuracy Format.binary64 .positive m e a) q := by
  rw [Rounds, roundWithAccuracy, shifted, number]
  dsimp only
  generalize em.roundedMantissa = r at short long
  rcases Nat.eq_zero_or_pos r with rfl | positive
  · left
    have empty : (shiftToTargetExponent Format.binary64 0 t .exact).1.mantissa = 0 := by
      rw [shiftToTargetExponent, shiftToExponent, mantissa_shiftRight,
        mantissa_ofMantissaAndAccuracy, Nat.zero_div]
    refine ⟨⟨.positive, dif_pos empty⟩, ?_⟩
    rw [Nat.cast_zero, zero_mul]
  · right
    obtain ⟨m', e', positive', fitting, same, settled⟩ :=
      shiftToTargetExponent_rounded positive short least long
    refine ⟨m', e', positive', ?_, fitting, same⟩
    rw [settled]
    dsimp only
    rw [dif_neg positive'.ne']

/-- What is known of a number is enough to round it. -/
theorem roundWithAccuracy_rounds (located : Located m a x) (above : 0 < x)
    (full : 52 ≤ m.log2 ∨ e ≤ -1074) :
    Rounds (roundWithAccuracy Format.binary64 .positive m e a) (x * 2 ^ e) := by
  obtain ⟨aim, low⟩ :=
    targetExponent_eq_lastPlace above located.bounds.1 located.bounds.2 full
  have number : 0 < x * 2 ^ e := mul_pos above (two_zpow_pos e)
  obtain ⟨k, place⟩ : ∃ k : Nat, lastPlace (x * 2 ^ e) = e + k :=
    ⟨(lastPlace (x * 2 ^ e) - e).toNat, by omega⟩
  have steps : (e + k - e).toNat = k := by omega
  have shifted : shiftToTargetExponent Format.binary64 m e a =
      (ExtendedMantissa.ofMantissaAndAccuracy m a >>> k, e + k) := by
    rw [shiftToTargetExponent, aim, place]
    simp only [shiftToExponent, steps]
  have scaled : x * 2 ^ e / 2 ^ lastPlace (x * 2 ^ e) = x / 2 ^ k := by
    rw [place, zpow_add₀ two_ne_zero, zpow_natCast, mul_comm x,
      mul_div_mul_left _ _ (two_zpow_pos e).ne']
  have rounded : nearestEven (x * 2 ^ e / 2 ^ lastPlace (x * 2 ^ e)) =
      (ExtendedMantissa.ofMantissaAndAccuracy m a >>> k).roundedMantissa := by
    rw [scaled, ExtendedMantissa.roundedMantissa]
    exact (located_shiftRight located k).rounded
  have short := nearestEven_le_full (x * 2 ^ e)
  rw [rounded] at short
  refine roundWithAccuracy_of_shifted shifted ?_ (by exact_mod_cast short) ?_ ?_
  · rw [nearest, rounded, place, Int.cast_natCast]
  · exact (le_max_right _ _).trans_eq place
  · by_cases last : e + k = -1074
    · exact .inr last
    · have long := full_le_nearestEven number (place ▸ last)
      rw [rounded] at long
      exact .inl (by exact_mod_cast long)

/-- Mantissas that are too short are filled up before they are rounded. -/
theorem round_rounds (positive : 0 < m) (e : Int) :
    Rounds (UnpackedFloat.round Format.binary64 .positive m e) (m * 2 ^ e) := by
  unfold UnpackedFloat.round decreaseExponent
  dsimp only
  rw [targetExponent_eq, totalExponent, Nat.shiftLeft_eq, Nat.mul_comm]
  obtain ⟨k, steps⟩ : ∃ k, (e - max (m.log2 + 1 + e - 53 : Int) (-1074)).toNat = k := ⟨_, rfl⟩
  rw [steps]
  have filled : 0 < 2 ^ k * m := Nat.mul_pos (Nat.two_pow_pos k) positive
  have number : ((2 ^ k * m : Nat) : ℚ) * 2 ^ (e - k) = m * 2 ^ e := by
    rw [zpow_sub₀ two_ne_zero, zpow_natCast]
    push_cast
    field_simp
  rw [← number]
  refine roundWithAccuracy_rounds rfl (Nat.cast_pos.mpr filled) ?_
  rw [log2_two_pow_mul positive]
  omega

theorem normalize_rounds {n : Int} (nonneg : 0 ≤ n) (e : Int) (s : Sign) :
    Rounds (UnpackedFloat.normalize Format.binary64 n e s) (n * 2 ^ e) := by
  unfold UnpackedFloat.normalize
  rcases nonneg.eq_or_lt with rfl | positive
  · left
    exact ⟨⟨s, rfl⟩, by rw [Int.cast_zero, zero_mul, nearest_zero]⟩
  · obtain ⟨m, rfl⟩ := Int.eq_ofNat_of_zero_le nonneg
    rw [compare_gt_iff_gt.mpr positive]
    exact round_rounds (Int.natCast_pos.mp positive) e

/-- The nearest double, or the upper infinity if the nearest one would be too large. -/
def IsNearest (x : Float) (q : ℚ) : Prop :=
  (nearest q < 2 ^ 1024 ∧ value? x = some (nearest q)) ∨
    (2 ^ 1024 ≤ nearest q ∧ x.toModel.unpack = .infinity .positive)

/-- Nearest doubles of numbers that are not too large are finite. -/
theorem IsNearest.value {y : Float} {q : ℚ} (isNearest : IsNearest y q)
    (small : nearest q < 2 ^ 1024) : value? y = some (nearest q) :=
  isNearest.elim And.right fun large => absurd small (not_lt.mpr large.1)

/-- Packing turns exponents that are too large into the infinity. -/
theorem unpack_pack_large {positive : 0 < m} (large : 971 < e) :
    (Float.Model.pack (.finite .positive m e positive)).unpack = .infinity .positive := by
  have bias : (Format.binary64.exponentBias : Int) = 1023 := by decide
  have width : (Format.binary64.mantissaBitsWithoutImplicit : Int) = 52 := by decide
  rw [unpack_pack, UnpackedFloat.pack]
  dsimp only
  rw [bias, width, if_pos (by change 2048 ≤ _; omega)]
  rfl

theorem Rounds.isNearest {y : Float} {u : UnpackedFloat} {q : ℚ}
    (unpacked : y.toModel.unpack = (Float.Model.pack u).unpack) (rounds : Rounds u q) :
    IsNearest y q := by
  have limit {k : Nat} {t : Int} (sum : k + t = 1024) : (2 : ℚ) ^ 1024 = 2 ^ k * 2 ^ t := by
    rw [← zpow_natCast 2 k, ← zpow_add₀ two_ne_zero, sum]
    rfl
  rcases rounds with ⟨⟨s, rfl⟩, zero⟩ | ⟨m, e, positive, rfl, fitting, number⟩
  · left
    rw [zero, value?, unpacked, unpack_pack, UnpackedFloat.pack, unpack_packedZero]
    exact ⟨by positivity, rfl⟩
  · rcases le_or_gt e 971 with small | large
    · left
      have canonical : Canonical (.finite .positive m e positive) :=
        ⟨fitting.1, fitting.2.1, small, fitting.2.2⟩
      rw [value?, unpacked, unpack_pack_canonical .positive canonical, number]
      refine ⟨?_, by rw [valueOf, Sign.apply, Int.cast_natCast]⟩
      calc (m : ℚ) * 2 ^ e < 2 ^ 53 * 2 ^ e := by
            refine mul_lt_mul_of_pos_right ?_ (two_zpow_pos e)
            exact_mod_cast fitting.1
        _ ≤ 2 ^ 53 * 2 ^ (971 : Int) :=
            mul_le_mul_of_nonneg_left (zpow_le_zpow_right₀ one_le_two small) (by positivity)
        _ = 2 ^ 1024 := (limit (by decide)).symm
    · right
      have full : 2 ^ 52 ≤ m := fitting.2.2.resolve_right (by omega)
      rw [unpacked, unpack_pack_large large, number, limit (k := 52) (t := 972) (by decide)]
      refine ⟨mul_le_mul (by exact_mod_cast full) ?_ (two_zpow_pos _).le (Nat.cast_nonneg m), rfl⟩
      exact zpow_le_zpow_right₀ one_le_two (by omega)

end Rounding

section Arithmetic

variable {u v : UnpackedFloat} {p q : ℚ}

theorem positive_of_nonneg {s : Sign} {m : Nat} {e : Int} (positive : 0 < m)
    (nonneg : 0 ≤ ((s.apply m : Int) : ℚ) * 2 ^ e) : s = .positive := by
  cases s with
  | positive => rfl
  | negative =>
    have above : (0 : ℚ) < m * 2 ^ e := mul_pos (Nat.cast_pos.mpr positive) (two_zpow_pos e)
    simp only [Sign.apply, Int.cast_neg, Int.cast_natCast, neg_mul] at nonneg
    linarith

/-- The number of a double is not rounded. -/
theorem rounds_valueOf (canonical : Canonical u) (value : valueOf u = some p) (nonneg : 0 ≤ p) :
    Rounds u p := by
  rcases u with s | _ | s | ⟨s, m, e, positive⟩ <;> cases value
  case zero => exact .inl ⟨⟨s, rfl⟩, nearest_zero⟩
  case finite =>
    obtain rfl := positive_of_nonneg positive nonneg
    refine .inr ⟨m, e, positive, rfl, canonical.fitting, ?_⟩
    rw [Sign.apply, Int.cast_natCast]
    exact nearest_eq_self canonical.1 canonical.2.1

/-- Bringing a mantissa to a lower exponent does not change the number. -/
theorem aligned_value (s : Sign) (m : Nat) {e e' : Int} (low : e' ≤ e) :
    ((s.apply (decreaseExponent m e e').1 : Int) : ℚ) * 2 ^ e' = (s.apply m : Int) * 2 ^ e := by
  obtain ⟨k, rfl⟩ : ∃ k : Nat, e = e' + k := ⟨(e - e').toNat, by omega⟩
  have steps : (e' + k - e').toNat = k := by omega
  rw [decreaseExponent]
  dsimp only
  rw [steps, Nat.shiftLeft_eq, zpow_add₀ two_ne_zero, zpow_natCast]
  cases s <;> simp only [Sign.apply] <;> push_cast <;> ring

theorem rounds_zero (s : Sign) : Rounds (.zero s) 0 := .inl ⟨⟨s, rfl⟩, nearest_zero⟩

/-- Sums that are not negative are rounded to the nearest double. -/
theorem add_rounds (left : Canonical u) (right : Canonical v) (first : valueOf u = some p)
    (second : valueOf v = some q) (nonneg : 0 ≤ p + q) :
    Rounds (UnpackedFloat.add Format.binary64 u v) (p + q) := by
  rcases u with s | _ | s | ⟨s, m₁, e₁, _⟩ <;> rcases v with t | _ | t | ⟨t, m₂, e₂, _⟩ <;>
    simp only [valueOf, Option.some.injEq, reduceCtorEq] at first second
  case zero.zero =>
    rw [← first, ← second, add_zero]
    cases s <;> cases t <;> exact rounds_zero _
  case zero.finite =>
    subst first
    rw [zero_add] at nonneg ⊢
    exact rounds_valueOf right (congrArg some second) nonneg
  case finite.zero =>
    subst second
    rw [add_zero] at nonneg ⊢
    exact rounds_valueOf left (congrArg some first) nonneg
  case finite.finite =>
    rw [← first, ← second, ← aligned_value s m₁ (min_le_left e₁ e₂),
      ← aligned_value t m₂ (min_le_right e₁ e₂), ← add_mul, ← Int.cast_add] at nonneg ⊢
    exact normalize_rounds (Int.cast_nonneg_iff.mp (nonneg_of_mul_nonneg_left nonneg
      (two_zpow_pos _))) _ _

/-- Differences that are not negative are rounded to the nearest double. -/
theorem sub_rounds (left : Canonical u) (right : Canonical v) (first : valueOf u = some p)
    (second : valueOf v = some q) (nonneg : 0 ≤ p - q) :
    Rounds (UnpackedFloat.sub Format.binary64 u v) (p - q) := by
  rcases u with s | _ | s | ⟨s, m₁, e₁, _⟩ <;> rcases v with t | _ | t | ⟨t, m₂, e₂, positive⟩ <;>
    simp only [valueOf, Option.some.injEq, reduceCtorEq] at first second
  case zero.zero =>
    rw [← first, ← second, sub_zero]
    cases s <;> cases t <;> exact rounds_zero _
  case zero.finite =>
    subst first
    rw [zero_sub] at nonneg ⊢
    have turned : Canonical (.finite (-t) m₂ e₂ positive) := right
    have number : valueOf (.finite (-t) m₂ e₂ positive) = some (-q) := by
      rw [valueOf, ← second]
      cases t <;> simp [Sign.apply]
    exact rounds_valueOf turned number nonneg
  case finite.zero =>
    subst second
    rw [sub_zero] at nonneg ⊢
    exact rounds_valueOf left (congrArg some first) nonneg
  case finite.finite =>
    rw [← first, ← second, ← aligned_value s m₁ (min_le_left e₁ e₂),
      ← aligned_value t m₂ (min_le_right e₁ e₂), ← sub_mul, ← Int.cast_sub] at nonneg ⊢
    exact normalize_rounds (Int.cast_nonneg_iff.mp (nonneg_of_mul_nonneg_left nonneg
      (two_zpow_pos _))) _ _

/-- The dividend is filled up until the quotient has a full mantissa. -/
theorem full_quotient {m₁ m₂ k : Nat} (positive₁ : 0 < m₁) (positive₂ : 0 < m₂)
    (filled : 53 + m₂.log2 ≤ m₁.log2 + k) : 52 ≤ (m₁ <<< k / m₂).log2 := by
  have enough : 2 ^ 52 ≤ m₁ <<< k / m₂ := by
    rw [Nat.le_div_iff_mul_le positive₂, Nat.shiftLeft_eq]
    calc 2 ^ 52 * m₂ ≤ 2 ^ 52 * 2 ^ (m₂.log2 + 1) := Nat.mul_le_mul_left _ Nat.lt_log2_self.le
      _ = 2 ^ (53 + m₂.log2) := by rw [← Nat.pow_add]; congr 1; omega
      _ ≤ 2 ^ (m₁.log2 + k) := Nat.pow_le_pow_right Nat.two_pos filled
      _ = 2 ^ m₁.log2 * 2 ^ k := Nat.pow_add ..
      _ ≤ m₁ * 2 ^ k := Nat.mul_le_mul_right _ (Nat.log2_self_le positive₁.ne')
  exact (Nat.le_log2 (Nat.ne_of_gt (Nat.lt_of_lt_of_le (by decide) enough))).mpr enough

/-- Quotients that are not negative are rounded to the nearest double. -/
theorem div_rounds (first : valueOf u = some p) (second : valueOf v = some q) (nonneg : 0 ≤ p)
    (positive : 0 < q) : Rounds (UnpackedFloat.div Format.binary64 u v) (p / q) := by
  rcases u with s | _ | s | ⟨s, m₁, e₁, positive₁⟩ <;>
    rcases v with t | _ | t | ⟨t, m₂, e₂, positive₂⟩ <;>
    simp only [valueOf, Option.some.injEq, reduceCtorEq] at first second
  case zero.zero => exact absurd second positive.ne
  case finite.zero => exact absurd second positive.ne
  case zero.finite =>
    rw [← first, zero_div]
    exact rounds_zero _
  case finite.finite =>
    obtain rfl := positive_of_nonneg positive₁ (first ▸ nonneg)
    obtain rfl := positive_of_nonneg positive₂ (second ▸ positive.le)
    obtain ⟨low, aim⟩ : ∃ low, min (e₁ - e₂) (Format.binary64.targetExponent
      (totalExponent m₁ e₁ - totalExponent m₂ e₂)) = low := ⟨_, rfl⟩
    have divided : UnpackedFloat.div Format.binary64 (.finite .positive m₁ e₁ positive₁)
        (.finite .positive m₂ e₂ positive₂) =
      roundWithAccuracy Format.binary64 .positive (m₁ <<< (e₁ - e₂ - low).toNat / m₂) low
        (accuracyOfFraction (m₁ <<< (e₁ - e₂ - low).toNat % m₂) m₂) := by
      rw [← aim]
      rfl
    rw [targetExponent_eq, totalExponent, totalExponent] at aim
    obtain ⟨k, steps⟩ : ∃ k : Nat, e₁ - e₂ = low + k := ⟨(e₁ - e₂ - low).toNat, by omega⟩
    have shift : (e₁ - e₂ - low).toNat = k := by omega
    have quotient : ((m₁ <<< k : Nat) : ℚ) / m₂ * 2 ^ low = p / q := by
      have exponents : (2 : ℚ) ^ e₁ = 2 ^ k * 2 ^ low * 2 ^ e₂ := by
        rw [← zpow_natCast, ← zpow_add₀ two_ne_zero, ← zpow_add₀ two_ne_zero]
        congr 1
        omega
      rw [← first, ← second, Nat.shiftLeft_eq, exponents, Sign.apply, Sign.apply]
      have place₂ := (two_zpow_pos e₂).ne'
      have mantissa₂ : (m₂ : ℚ) ≠ 0 := Nat.cast_ne_zero.mpr positive₂.ne'
      push_cast
      field_simp
    rw [divided, shift, ← quotient]
    refine roundWithAccuracy_rounds (located_quotient _ positive₂) ?_ ?_
    · rw [Nat.shiftLeft_eq]
      exact div_pos (Nat.cast_pos.mpr (Nat.mul_pos positive₁ (Nat.two_pow_pos k)))
        (Nat.cast_pos.mpr positive₂)
    · by_cases least : low ≤ -1074
      · exact .inr least
      · exact .inl (full_quotient positive₁ positive₂ (by omega))

theorem isNearest_add {x y : Float} (first : value? x = some p) (second : value? y = some q)
    (nonneg : 0 ≤ p + q) : IsNearest (x + y) (p + q) :=
  (add_rounds (canonical_toModel x) (canonical_toModel y) first second nonneg).isNearest rfl

theorem isNearest_sub {x y : Float} (first : value? x = some p) (second : value? y = some q)
    (nonneg : 0 ≤ p - q) : IsNearest (x - y) (p - q) :=
  (sub_rounds (canonical_toModel x) (canonical_toModel y) first second nonneg).isNearest rfl

theorem isNearest_div {x y : Float} (first : value? x = some p) (second : value? y = some q)
    (nonneg : 0 ≤ p) (positive : 0 < q) : IsNearest (x / y) (p / q) :=
  (div_rounds first second nonneg positive).isNearest rfl

/-- Decimal numbers without an exponent are rounded as they are. -/
theorem ofScientific_rounds {n : Nat} (positive : 0 < n) :
    Rounds (UnpackedFloat.ofScientific Format.binary64 n 0) n := by
  have widened : n <<< 53 * 1 = 2 ^ 53 * n := by rw [Nat.mul_one, Nat.shiftLeft_eq, Nat.mul_comm]
  have product : UnpackedFloat.ofScientific Format.binary64 n 0 =
      roundWithAccuracy Format.binary64 .positive (2 ^ 53 * n) (-53) .exact := by
    have notLow : ¬ (0 : Int) < -((2 ^ 11 : Int) + n.log2) := by omega
    rw [← widened]
    unfold UnpackedFloat.ofScientific
    rw [dif_neg positive.ne', if_neg (by decide), if_neg notLow, if_pos le_rfl]
    rfl
  have filled : 0 < 2 ^ 53 * n := Nat.mul_pos (Nat.two_pow_pos 53) positive
  have number : ((2 ^ 53 * n : Nat) : ℚ) * 2 ^ (-53 : Int) = n := by
    rw [zpow_neg, mul_comm]
    push_cast
    exact inv_mul_cancel_left₀ (by norm_num) _
  rw [product, ← number]
  refine roundWithAccuracy_rounds rfl (Nat.cast_pos.mpr filled) (.inl ?_)
  rw [log2_two_pow_mul positive]
  omega

/-- Natural numbers are rounded to the nearest double, however large they are. -/
theorem isNearest_ofNat (n : Nat) : IsNearest (ofNat n) n := by
  rw [ofNat]
  split_ifs with word
  · have rounds := normalize_rounds (Int.natCast_nonneg n) 0 .positive
    rw [zpow_zero, mul_one, Int.cast_natCast] at rounds
    refine rounds.isNearest ?_
    have same : n.toUInt64.toNat = n := UInt64.toNat_ofNat_of_lt' word
    conv_rhs => rw [← same]
    rfl
  · have large : 2 ^ 64 ≤ n := not_lt.mp word
    have slow : Float.ofNat n = Float.ofModel (Float.Model.ofScientific n 0) :=
      dif_neg fun fast => absurd fast.1 (by omega)
    rw [slow]
    exact (ofScientific_rounds (by omega)).isNearest rfl

end Arithmetic

end Metaheuristic.Double
