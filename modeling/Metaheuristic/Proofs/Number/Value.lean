import Metaheuristic.Proofs.Number.Bits

/-! The exact numbers that doubles stand for. A finite double is a mantissa times a power of two.
Packing loses nothing of such a product in canonical form, where sign, exponent and mantissa are
ordered as the products are. So comparing two doubles compares their numbers, and only the two zeros
share one. -/
namespace Metaheuristic.Double
open Float.Model UnpackedFloat

section Packing

variable (s : Sign) {exponent : BitVec 11} {mantissa : BitVec 52}

/-- Exponents between the first and the last add a bit to the mantissa. -/
theorem unpack_normal {m : Nat} {e : Int} (positive : 0 < m) (notFirst : exponent ≠ 0#11)
    (notLast : exponent ≠ -1#11) (number : m = 2 ^ 52 + mantissa.toNat)
    (place : e = exponent.toNat - 1075) :
    UnpackedFloat.unpack Format.binary64 (packComponents Format.binary64 s exponent mantissa) =
      .finite s m e positive := by
  have bias : (Format.binary64.exponentBias : Int) = 1023 := by decide
  subst number place
  unfold UnpackedFloat.unpack
  simp only [unpackSign_packComponents, unpackExponent_packComponents,
    unpackMantissa_packComponents, Sign.ofBitVec_toBitVec, notFirst, notLast, if_false, bias,
    implicitBit]
  congr 1

/-- With the first exponent the mantissa is as it is. -/
theorem unpack_subnormal {m : Nat} (positive : 0 < m) (number : m = mantissa.toNat) :
    UnpackedFloat.unpack Format.binary64 (packComponents Format.binary64 s 0#11 mantissa) =
      .finite s m (-1074) positive := by
  have notZero : mantissa ≠ 0#52 := by
    rintro rfl
    exact absurd number positive.ne'
  subst number
  unfold UnpackedFloat.unpack
  simp only [unpackSign_packComponents, unpackExponent_packComponents,
    unpackMantissa_packComponents, Sign.ofBitVec_toBitVec, notZero, dite_false, if_false]
  rfl

/-- Packing keeps a number in canonical form. -/
theorem unpack_pack_canonical {m : Nat} {e : Int} {positive : 0 < m}
    (canonical : Canonical (.finite s m e positive)) :
    (Float.Model.pack (.finite s m e positive)).unpack = .finite s m e positive := by
  obtain ⟨short, least, greatest, long⟩ := canonical
  have bias : (Format.binary64.exponentBias : Int) = 1023 := by decide
  have width : (Format.binary64.mantissaBitsWithoutImplicit : Int) = 52 := by decide
  rw [unpack_pack, UnpackedFloat.pack]
  dsimp only
  rw [bias, width]
  obtain ⟨b, biased⟩ : ∃ b : Nat, (e + 1023 + 52).toNat = b := ⟨_, rfl⟩
  have room : ¬ 2 ^ Format.binary64.exponentBits ≤ b + 1 := by
    change ¬ 2048 ≤ b + 1
    omega
  rw [biased, if_neg room]
  split_ifs with full
  · have large : 2 ^ 52 ≤ m := (Nat.le_log2 positive.ne').mp (Nat.le_of_succ_le_succ full.ge)
    have bits : (BitVec.ofNat 11 b).toNat = b := Nat.mod_eq_of_lt (by omega)
    refine unpack_normal s positive ?_ ?_ ?_ (by omega)
    · rw [Ne, ← BitVec.toNat_inj, bits]
      change b ≠ 0
      omega
    · rw [Ne, ← BitVec.toNat_inj, bits]
      change b ≠ 2047
      omega
    · rw [BitVec.toNat_ofNat]
      omega
  · have small : m < 2 ^ 52 := by
      by_contra large
      have low : 52 ≤ m.log2 := (Nat.le_log2 positive.ne').mpr (not_lt.mp large)
      have high : m.log2 < 53 := (Nat.log2_lt positive.ne').mpr short
      refine full ?_
      change m.log2 + 1 = 53
      omega
    obtain rfl : e = -1074 := long.resolve_left (not_le.mpr small)
    exact unpack_subnormal s positive (Nat.mod_eq_of_lt small).symm

end Packing

/-- The number that unpacked bits stand for. -/
def valueOf : UnpackedFloat → Option ℚ
  | .zero _ => some 0
  | .finite s m e _ => some ((s.apply m : Int) * 2 ^ e)
  | .infinity _ | .notANumber => none

/-- The number that a double stands for. -/
def value? (x : Float) : Option ℚ := valueOf x.toModel.unpack

theorem value_zero : value? (Scalar.zero : Float) = some 0 := by decide +kernel

theorem value_one : value? (Scalar.one : Float) = some 1 := by decide +kernel

theorem two_zpow_pos (e : Int) : (0 : ℚ) < 2 ^ e := zpow_pos two_pos e

theorem finite_iff_value {x : Float} : Scalar.isFinite x = true ↔ ∃ q, value? x = some q := by
  change x.toModel.unpack.isFinite = true ↔ _
  rw [value?]
  cases x.toModel.unpack <;> simp [UnpackedFloat.isFinite, valueOf]

theorem isNaN_of_value {u : UnpackedFloat} {q : ℚ} (value : valueOf u = some q) :
    u.isNaN = false := by
  cases u with
  | notANumber => cases value
  | infinity s => cases value
  | zero s => rfl
  | finite s m e positive => rfl

/-- A longer exponent outweighs the mantissa, because it comes with a full one. -/
theorem magnitude_lt {s t : Sign} {m₁ m₂ : Nat} {e₁ e₂ : Int} {positive₁ : 0 < m₁}
    {positive₂ : 0 < m₂} (left : Canonical (.finite s m₁ e₁ positive₁))
    (right : Canonical (.finite t m₂ e₂ positive₂)) (ordered : e₁ < e₂ ∨ e₁ = e₂ ∧ m₁ < m₂) :
    (m₁ : ℚ) * 2 ^ e₁ < m₂ * 2 ^ e₂ := by
  obtain ⟨short, least, _, _⟩ := left
  obtain ⟨_, _, _, long⟩ := right
  rcases ordered with longer | ⟨rfl, lower⟩
  · have full : (2 : ℚ) ^ 52 ≤ m₂ := by exact_mod_cast long.resolve_right (by omega)
    calc (m₁ : ℚ) * 2 ^ e₁ < 2 ^ 53 * 2 ^ e₁ := by
          refine mul_lt_mul_of_pos_right ?_ (two_zpow_pos e₁)
          exact_mod_cast short
      _ = 2 ^ 52 * 2 ^ (e₁ + 1) := by rw [zpow_add_one₀ two_ne_zero]; ring
      _ ≤ 2 ^ 52 * 2 ^ e₂ :=
          mul_le_mul_of_nonneg_left (zpow_le_zpow_right₀ one_le_two longer) (by positivity)
      _ ≤ m₂ * 2 ^ e₂ := mul_le_mul_of_nonneg_right full (two_zpow_pos e₂).le
  · exact mul_lt_mul_of_pos_right (Nat.cast_lt.mpr lower) (two_zpow_pos e₁)

/-- Places are ordered as the numbers are. -/
theorem valueOf_lt {u v : UnpackedFloat} (left : Canonical u) (right : Canonical v) {p q : ℚ}
    (first : valueOf u = some p) (second : valueOf v = some q) (below : place u < place v) :
    p < q := by
  have above (m : Nat) (e : Int) (positive : 0 < m) : (0 : ℚ) < m * 2 ^ e :=
    mul_pos (Nat.cast_pos.mpr positive) (two_zpow_pos e)
  rcases u with (_ | _) | _ | s | ⟨_ | _, m₁, e₁, positive₁⟩ <;>
    rcases v with (_ | _) | _ | t | ⟨_ | _, m₂, e₂, positive₂⟩ <;>
    simp only [valueOf, Option.some.injEq, reduceCtorEq] at first second <;> subst first second <;>
    simp only [place, Prod.Lex.lt_iff, Sign.apply, Int.cast_neg, Int.cast_natCast,
      neg_mul] at below ⊢
  case zero.finite.positive => exact above m₂ e₂ positive₂
  case finite.negative.zero => exact neg_lt_zero.mpr (above m₁ e₁ positive₁)
  case finite.negative.finite.negative =>
    exact neg_lt_neg (magnitude_lt right left (by simp at below; omega))
  case finite.negative.finite.positive =>
    exact (neg_lt_zero.mpr (above m₁ e₁ positive₁)).trans (above m₂ e₂ positive₂)
  case finite.positive.finite.positive =>
    exact magnitude_lt left right (by simp at below; omega)
  all_goals simp at below

/-- Numbers with one place stand for one number. -/
theorem valueOf_congr {u v : UnpackedFloat} {p q : ℚ} (first : valueOf u = some p)
    (second : valueOf v = some q) (same : place u = place v) : p = q := by
  rcases u with (_ | _) | _ | s | ⟨_ | _, m₁, e₁, _⟩ <;>
    rcases v with (_ | _) | _ | t | ⟨_ | _, m₂, e₂, _⟩ <;>
    simp only [valueOf, Option.some.injEq, reduceCtorEq] at first second <;> subst first second <;>
    simp [place] at same ⊢ <;> simp [same]

section Comparing

variable {x y : Float} {p q : ℚ} (first : value? x = some p) (second : value? y = some q)
include first second

theorem lt_iff_value : Scalar.lt x y = true ↔ p < q := by
  have below {u v : Float} {a b : ℚ} (left : value? u = some a) (right : value? v = some b)
      (before : placeOf u < placeOf v) : a < b :=
    valueOf_lt (canonical_toModel u) (canonical_toModel v) left right before
  have number : x.isNaN = false ∧ y.isNaN = false := ⟨isNaN_of_value first, isNaN_of_value second⟩
  rw [lt_iff_place]
  constructor
  · intro ⟨_, _, before⟩
    exact below first second before
  · intro order
    refine ⟨number.1, number.2, ?_⟩
    rcases lt_trichotomy (placeOf x) (placeOf y) with before | same | behind
    · exact before
    · exact absurd (valueOf_congr first second same) order.ne
    · exact absurd (below second first behind) order.not_gt

theorem eq_iff_value : (x == y) = true ↔ p = q := by
  have defined (u : Float) (a : ℚ) (held : value? u = some a) : Scalar.isNaN u = false := by
    rw [isNaN_eq]
    exact isNaN_of_value held
  have below := lt_iff_value first second
  have above := lt_iff_value second first
  rw [Scalar.LawfulOrder.eq_iff, Bool.eq_false_iff (b := Scalar.lt x y),
    Bool.eq_false_iff (b := Scalar.lt y x), Ne, Ne, below, above, not_lt, not_lt]
  constructor
  · intro ⟨_, _, upper, lower⟩
    exact le_antisymm lower upper
  · intro same
    exact ⟨defined x p first, defined y q second, same.ge, same.le⟩

theorem le_iff_value : Scalar.le x y = true ↔ p ≤ q := by
  rw [le_iff_lt_or_eq, lt_iff_value first second, eq_iff_value first second]
  exact ⟨fun ordered => ordered.elim le_of_lt le_of_eq, lt_or_eq_of_le⟩

end Comparing

end Metaheuristic.Double
