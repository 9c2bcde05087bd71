import Metaheuristic.Proofs.Number.Double
import Metaheuristic.Proofs.Number.Rounding

/-! The unit interval. Rates, chances and surviving fractions lie in it, and a draw
between two of its numbers needs that they are a finite distance apart. Exact numbers
always are. Double precision numbers are because the distance of two numbers of that size
has, once rounded, still an exponent far below the largest one. -/
namespace Metaheuristic

/-- What draws need to know of the unit interval. -/
class Scalar.LawfulUnit (α : Type) [Scalar α] : Prop where
  /-- A half is a probability. -/
  half : Scalar.le Scalar.zero (Scalar.ratio 1 2 : α) = true ∧
    Scalar.le (Scalar.ratio 1 2 : α) Scalar.one = true
  /-- Numbers above zero and up to one are a finite distance apart. -/
  apart {x y : α} : Scalar.lt Scalar.zero x = true → Scalar.lt x y = true →
    Scalar.le y Scalar.one = true → Scalar.isFinite (y - x) = true

namespace Double
open Float.Model UnpackedFloat

theorem mantissa_shiftRight (em : ExtendedMantissa) (n : Nat) :
    (em >>> n).mantissa = em.mantissa / 2 ^ n := by
  change (n.repeat ExtendedMantissa.shiftRightOne em).mantissa = _
  induction n with
  | zero => simp [Nat.repeat]
  | succ n ih =>
    rw [Nat.repeat, ExtendedMantissa.shiftRightOne, ih, Nat.div_div_eq_div_mul, Nat.pow_succ]

theorem mantissa_ofMantissaAndAccuracy (m : Nat) (a : Accuracy) :
    (ExtendedMantissa.ofMantissaAndAccuracy m a).mantissa = m := by
  rcases a with _ | (_ | _ | _) <;> rfl

theorem roundedMantissa_le (em : ExtendedMantissa) : em.roundedMantissa ≤ em.mantissa + 1 := by
  obtain ⟨m, round, sticky⟩ := em
  cases round <;> cases sticky <;>
    simp only [ExtendedMantissa.roundedMantissa, ExtendedMantissa.accuracy,
      Accuracy.roundToNearestEven] <;> omega

/-- Rounding aims at a full mantissa, unless the exponent would get too small. -/
theorem targetExponent_eq (top : Int) :
    Format.binary64.targetExponent top = max (top - 53) (-1074) := by
  have least : Format.binary64.minExponent = -1074 := by decide
  have width : (Format.binary64.mantissaBits : Int) = 53 := by decide
  rw [Format.targetExponent, least, width]

/-- Shifting a mantissa below a power of two keeps it below the power that the new
exponent leaves, and the new exponent is not far above the old one. -/
theorem shiftToTargetExponent_bounds {m b : Nat} (e : Int) (a : Accuracy) (small : m < 2 ^ b) :
    ∃ c : Nat, (shiftToTargetExponent Format.binary64 m e a).1.mantissa < 2 ^ c ∧
      (shiftToTargetExponent Format.binary64 m e a).2 + c ≤
        max (e + b) (shiftToTargetExponent Format.binary64 m e a).2 ∧
      (shiftToTargetExponent Format.binary64 m e a).2 ≤ max e (max (e + b - 52) (-1074)) := by
  have top : m.log2 ≤ b := by
    rcases Nat.eq_zero_or_pos m with rfl | positive
    · exact Nat.zero_le b
    · exact ((Nat.log2_lt (Nat.ne_of_gt positive)).mpr small).le
  have target : Format.binary64.targetExponent (totalExponent m e) ≤
      max (e + b - 52) (-1074) := by
    rw [targetExponent_eq, totalExponent]
    omega
  generalize aim : Format.binary64.targetExponent (totalExponent m e) = t at target
  have shifted : shiftToTargetExponent Format.binary64 m e a =
      (ExtendedMantissa.ofMantissaAndAccuracy m a >>> (t - e).toNat, e + (t - e).toNat) := by
    rw [shiftToTargetExponent, aim]
    rfl
  rw [shifted]
  refine ⟨b - (t - e).toNat, ?_, ?_, ?_⟩
  · rw [mantissa_shiftRight, mantissa_ofMantissaAndAccuracy]
    refine Nat.div_lt_of_lt_mul (small.trans_le ?_)
    rw [← Nat.pow_add]
    exact Nat.pow_le_pow_right Nat.two_pos (by omega)
  · dsimp only
    omega
  · dsimp only
    omega

/-- A value that can be packed: its exponent is far below the largest one. -/
def Moderate : UnpackedFloat → Prop
  | .zero _ => True
  | .finite _ _ e _ => e ≤ 53
  | .infinity _ | .notANumber => False

theorem round_moderate {m b : Nat} {e : Int} (sign : Sign) (small : m < 2 ^ b) (low : e ≤ 0)
    (bound : e + b ≤ 53) : Moderate (UnpackedFloat.round Format.binary64 sign m e) := by
  unfold UnpackedFloat.round
  generalize Format.binary64.targetExponent (totalExponent m e) = t
  have widened : m <<< (e - t).toNat < 2 ^ (b + (e - t).toNat) := by
    rw [Nat.shiftLeft_eq, Nat.pow_add]
    exact Nat.mul_lt_mul_of_pos_right small (Nat.two_pow_pos _)
  obtain ⟨c, kept, room, first⟩ :=
    shiftToTargetExponent_bounds (e - (e - t).toNat) .exact widened
  dsimp only [decreaseExponent, roundWithAccuracy]
  generalize shiftToTargetExponent Format.binary64 (m <<< (e - t).toNat) (e - (e - t).toNat)
    .exact = shifted at kept room first
  obtain ⟨em, e'⟩ := shifted
  have rounded : em.roundedMantissa < 2 ^ (c + 1) :=
    ((roundedMantissa_le em).trans kept).trans_lt (Nat.pow_lt_pow_succ Nat.one_lt_two)
  obtain ⟨_, _, _, second⟩ := shiftToTargetExponent_bounds e' .exact rounded
  dsimp only at room first second ⊢
  split
  · trivial
  · change _ ≤ _
    omega

/-- What is packed with a moderate exponent does not overflow. -/
theorem finite_of_moderate {u : UnpackedFloat} (moderate : Moderate u) :
    (Float.Model.pack u).unpack.isFinite = true := by
  have whole {b : BitVec Format.binary64.numBits} (exponent : unpackExponent b ≠ -1#_) :
      (UnpackedFloat.unpack Format.binary64 b).isFinite = true := by
    unfold UnpackedFloat.unpack
    dsimp only
    rw [if_neg exponent]
    split
    · split <;> rfl
    · rfl
  have bits : (Float.Model.pack u).unpack =
      UnpackedFloat.unpack Format.binary64 (UnpackedFloat.pack Format.binary64 u) := rfl
  rw [bits]
  refine whole ?_
  cases u with
  | infinity sign => exact moderate.elim
  | notANumber => exact moderate.elim
  | zero sign =>
    rw [UnpackedFloat.pack, packedZero, unpackExponent_packComponents]
    decide
  | finite sign m e positive =>
    replace moderate : e ≤ 53 := moderate
    have biased : (e + Format.binary64.exponentBias +
        Format.binary64.mantissaBitsWithoutImplicit).toNat + 1 <
          2 ^ Format.binary64.exponentBits := by
      have bias : (Format.binary64.exponentBias : Int) = 1023 := by decide
      rw [bias]
      change (e + 1023 + 52).toNat + 1 < 2048
      omega
    have ones : (-1#11).toNat + 1 = 2 ^ Format.binary64.exponentBits := by decide
    rw [UnpackedFloat.pack]
    dsimp only
    rw [if_neg (Nat.not_le.mpr biased)]
    split
    · rw [unpackExponent_packComponents, Ne, ← BitVec.toNat_inj, BitVec.toNat_ofNat,
        Nat.mod_eq_of_lt (Nat.lt_of_succ_lt biased)]
      exact fun same => biased.ne ((congrArg Nat.succ same).trans ones)
    · rw [unpackExponent_packComponents]
      decide

theorem unpack_mantissa_lt {b : BitVec Format.binary64.numBits} {sign : Sign} {m : Nat} {e : Int}
    {positive : 0 < m}
    (unpacked : UnpackedFloat.unpack Format.binary64 b = .finite sign m e positive) :
    m < 2 ^ 53 := by
  unfold UnpackedFloat.unpack at unpacked
  dsimp only at unpacked
  split at unpacked
  · split at unpacked <;> cases unpacked
  · split at unpacked
    · split at unpacked
      · cases unpacked
      · cases unpacked
        exact (BitVec.isLt _).trans (by decide)
    · cases unpacked
      exact BitVec.isLt _

/-- The numbers above zero and up to one, unpacked. -/
theorem unpack_unit {x : Float} (lower : Scalar.lt Scalar.zero x = true)
    (upper : Scalar.le x Scalar.one = true) :
    ∃ m e positive, x.toModel.unpack = .finite .positive m e positive ∧ m < 2 ^ 53 ∧ e ≤ 0 := by
  have above : placeOf (Scalar.zero : Float) < placeOf x := (lt_iff_place.mp lower).2.2
  have below : placeOf x ≤ placeOf (Scalar.one : Float) := by
    rcases le_iff_lt_or_eq.mp upper with strict | same
    · exact (lt_iff_place.mp strict).2.2.le
    · exact (eq_iff_place.mp same).2.2.le
  have bottom : placeOf (Scalar.zero : Float) = toLex (0, toLex (0, 0)) := by decide +kernel
  have top : placeOf (Scalar.one : Float) = toLex (1, toLex (-52, 4503599627370496)) := by
    decide +kernel
  rw [bottom] at above
  rw [top] at below
  rw [placeOf] at above below
  cases unpacked : x.toModel.unpack with
  | infinity sign =>
    rw [unpacked] at above below
    cases sign <;> simp [place, Prod.Lex.lt_iff, Prod.Lex.le_iff] at above below
  | notANumber =>
    rw [unpacked] at above
    exact absurd above (lt_irrefl _)
  | zero sign =>
    rw [unpacked] at above
    exact absurd above (lt_irrefl _)
  | finite sign m e positive =>
    rw [unpacked] at above below
    cases sign with
    | negative => simp [place, Prod.Lex.lt_iff] at above
    | positive =>
      refine ⟨m, e, positive, rfl, unpack_mantissa_lt unpacked, ?_⟩
      simp [place, Prod.Lex.le_iff] at below
      omega

theorem decreaseExponent_lt {m : Nat} {e : Int} (e' : Int) (small : m < 2 ^ 53) (low : e ≤ 0) :
    (decreaseExponent m e e').1 < 2 ^ (53 + (-e').toNat) := by
  dsimp only [decreaseExponent]
  rw [Nat.shiftLeft_eq, Nat.pow_add]
  exact Nat.mul_lt_mul_of_lt_of_le small (Nat.pow_le_pow_right Nat.two_pos (by omega))
    (Nat.two_pow_pos _)

theorem normalize_moderate {m n b : Nat} {e : Int} (left : m < 2 ^ b) (right : n < 2 ^ b)
    (low : e ≤ 0) (bound : e + b ≤ 53) :
    Moderate (UnpackedFloat.normalize Format.binary64 (m - n) e .positive) := by
  unfold UnpackedFloat.normalize
  split
  · exact round_moderate _ (by omega) low bound
  · trivial
  · exact round_moderate _ (by omega) low bound

instance : Scalar.LawfulUnit Float where
  half := by decide +kernel
  apart {x y} lower between upper := by
    have below : Scalar.le x Scalar.one = true := by
      refine le_iff_lt_or_eq.mpr (.inl ?_)
      rcases le_iff_lt_or_eq.mp upper with strict | same
      · exact Scalar.LawfulOrder.lt_trans between strict
      · exact Scalar.lt_of_lt_of_eq between same
    obtain ⟨m₁, e₁, positive₁, unpacked₁, small₁, low₁⟩ :=
      unpack_unit (Scalar.LawfulOrder.lt_trans lower between) upper
    obtain ⟨m₂, e₂, positive₂, unpacked₂, small₂, low₂⟩ := unpack_unit lower below
    change (Float.Model.pack (UnpackedFloat.sub Format.binary64 y.toModel.unpack
      x.toModel.unpack)).unpack.isFinite = true
    rw [unpacked₁, unpacked₂]
    refine finite_of_moderate (normalize_moderate
      (decreaseExponent_lt (min e₁ e₂) small₁ low₁) (decreaseExponent_lt _ small₂ low₂)
      (by omega) (by omega))

end Double

namespace Exact

variable {K : Type} [Field K] [LinearOrder K] [FloorRing K] [IsStrictOrderedRing K] [Elementary K]

instance : Scalar.LawfulUnit (Exact K) where
  half := by
    rw [unit_iff]
    refine ⟨1 / 2, ?_, by norm_num, by norm_num⟩
    change div (finite ((1 : Nat) : K)) (finite ((2 : Nat) : K)) = _
    simp [div]
  apart {x y} lower between upper := by
    rw [zero_eq] at lower
    rw [one_eq] at upper
    cases x <;> cases y <;> first
      | rfl
      | exact absurd lower Bool.false_ne_true
      | exact absurd between Bool.false_ne_true
      | exact absurd upper Bool.false_ne_true

end Exact
end Metaheuristic
