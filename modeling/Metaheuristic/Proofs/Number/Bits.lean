import Metaheuristic.Proofs.Number.Ends
import Metaheuristic.Proofs.Number.UnitInterval

/-! Doubles from their bits. A double is a sign, eleven bits of exponent and fifty-two bits of
mantissa. What these unpack to is in canonical form: the mantissa has its full length unless the
exponent is the least one. So the bits without the sign, read as one whole number, grow with the
magnitude, and a product with one or its negation is not rounded. -/
namespace Metaheuristic.Double
open Float.Model UnpackedFloat

/-- What bits unpack to. -/
def Canonical : UnpackedFloat → Prop
  | .finite _ m e _ => m < 2 ^ 53 ∧ -1074 ≤ e ∧ e ≤ 971 ∧ (2 ^ 52 ≤ m ∨ e = -1074)
  | .infinity _ | .zero _ | .notANumber => True

/-- The bits without the sign, as a whole number. -/
def magnitude : UnpackedFloat → Int
  | .zero _ => 0
  | .finite _ m e _ => (e + 1074) * 2 ^ 52 + m
  | .infinity _ => 2047 * 2 ^ 52
  | .notANumber => 2047 * 2 ^ 52 + 2 ^ 51

/-- The sign, or the one that stands before no number. -/
def signOf : UnpackedFloat → Sign
  | .zero s | .finite s _ _ _ | .infinity s => s
  | .notANumber => .positive

theorem implicitBit {w : Nat} (v : BitVec w) : (1#1 ++ v).toNat = 2 ^ w + v.toNat := by
  rw [BitVec.toNat_append, ← Nat.shiftLeft_add_eq_or_of_lt v.isLt, Nat.shiftLeft_eq]
  simp

theorem toNat_packComponents (s : Sign) (exponent : BitVec 11) (mantissa : BitVec 52) :
    (packComponents Format.binary64 s exponent mantissa).toNat =
      s.toBitVec.toNat * 2 ^ 63 + exponent.toNat * 2 ^ 52 + mantissa.toNat := by
  change ((s.toBitVec ++ exponent : BitVec 12) ++ mantissa : BitVec 64).toNat = _
  rw [BitVec.toNat_append, ← Nat.shiftLeft_add_eq_or_of_lt mantissa.isLt, Nat.shiftLeft_eq,
    BitVec.toNat_append, ← Nat.shiftLeft_add_eq_or_of_lt exponent.isLt, Nat.shiftLeft_eq]
  omega

/-- Bits as what they unpack to. -/
theorem canonical_unpack (b : BitVec Format.binary64.numBits) :
    Canonical (UnpackedFloat.unpack Format.binary64 b) := by
  have bias : (Format.binary64.exponentBias : Int) = 1023 := by decide
  have width : (Format.binary64.mantissaBitsWithoutImplicit : Int) = 52 := by decide
  have short : (unpackMantissa b).toNat < 2 ^ 52 := (unpackMantissa b).isLt
  have bound : (unpackExponent b).toNat < 2 ^ 11 := (unpackExponent b).isLt
  unfold UnpackedFloat.unpack
  dsimp only
  rw [bias, width]
  split
  · split <;> trivial
  · rename_i notLast
    split
    · rename_i first
      split
      · trivial
      · rw [first]
        exact ⟨short.trans (by decide), by decide, by decide, .inr (by decide)⟩
    · rename_i notFirst
      have last : (unpackExponent b).toNat ≠ 2047 := fun same => notLast (BitVec.toNat_inj.mp same)
      have positive : (unpackExponent b).toNat ≠ 0 := fun same =>
        notFirst (BitVec.toNat_inj.mp same)
      have long : (1#1 ++ unpackMantissa b).toNat = 2 ^ 52 + (unpackMantissa b).toNat :=
        implicitBit _
      refine ⟨?_, ?_, ?_, .inl ?_⟩ <;> omega

theorem canonical_toModel (x : Float) : Canonical x.toModel.unpack := canonical_unpack _

/-- The bits of a double are its sign and then its magnitude. -/
theorem toNat_of_valid {b : BitVec Format.binary64.numBits} (valid : Format.binary64.Valid b) :
    (b.toNat : Int) = (signOf (UnpackedFloat.unpack Format.binary64 b)).toBitVec.toNat * 2 ^ 63 +
      magnitude (UnpackedFloat.unpack Format.binary64 b) := by
  have fields := congrArg BitVec.toNat (packComponents_unpackSign_unpackExponent_unpackMantissa b)
  rw [toNat_packComponents] at fields
  have bias : (Format.binary64.exponentBias : Int) = 1023 := by decide
  have width : (Format.binary64.mantissaBitsWithoutImplicit : Int) = 52 := by decide
  unfold UnpackedFloat.unpack
  dsimp only
  rw [bias, width]
  split
  · rename_i last
    split
    · rename_i empty
      have ones : (-1#11).toNat = 2047 := by decide
      have zeros : (0#52).toNat = 0 := by decide
      rw [last, empty] at fields
      simp only [signOf, magnitude]
      omega
    · rename_i payload
      rw [valid.eq_packedNaN last payload]
      decide
  · split
    · rename_i first
      have none : (0#11).toNat = 0 := by decide
      rw [first] at fields ⊢
      split
      · rename_i empty
        have zeros : (0#52).toNat = 0 := by decide
        rw [empty] at fields
        simp only [signOf, magnitude]
        omega
      · simp only [signOf, magnitude]
        omega
    · have long : (1#1 ++ unpackMantissa b).toNat = 2 ^ 52 + (unpackMantissa b).toNat :=
        implicitBit _
      simp only [signOf, magnitude]
      omega

theorem magnitude_bounds {u : UnpackedFloat} (canonical : Canonical u) :
    0 ≤ magnitude u ∧ magnitude u < 2 ^ 63 := by
  cases u with
  | infinity s => simp [magnitude]
  | zero s => simp [magnitude]
  | notANumber => simp [magnitude]
  | finite s m e positive =>
    obtain ⟨short, least, greatest, _⟩ := canonical
    simp only [magnitude]
    omega

/-- The place of unpacked bits in the total order. -/
def rankOf (u : UnpackedFloat) : Int :=
  match signOf u with
  | .positive => magnitude u
  | .negative => -magnitude u - 1

theorem rank_eq (x : Float) : rank x = rankOf x.toModel.unpack := by
  have bits := toNat_of_valid x.toModel.valid
  have unfolded : UnpackedFloat.unpack Format.binary64 x.toModel.toBits.toBitVec =
      x.toModel.unpack := rfl
  rw [unfolded] at bits
  obtain ⟨lower, upper⟩ : 0 ≤ magnitude x.toModel.unpack ∧ magnitude x.toModel.unpack < 2 ^ 63 :=
    magnitude_bounds (canonical_toModel x)
  have word : (x.toBits.toNat : Int) = x.toModel.toBits.toBitVec.toNat := rfl
  have boundary : half = 2 ^ 63 := rfl
  unfold rank rankOf
  dsimp only
  rw [boundary]
  cases sign : signOf x.toModel.unpack with
  | positive =>
    rw [sign] at bits
    have plus : (Sign.positive.toBitVec).toNat = 0 := rfl
    rw [plus] at bits
    rw [if_pos (by omega)]
    dsimp only
    omega
  | negative =>
    rw [sign] at bits
    have minus : (Sign.negative.toBitVec).toNat = 1 := rfl
    rw [minus] at bits
    rw [if_neg (by omega)]
    dsimp only
    omega

/-- The total order refines the order of the numbers. -/
theorem rankOf_lt {u v : UnpackedFloat} (left : Canonical u) (right : Canonical v)
    (numberLeft : u.isNaN = false) (numberRight : v.isNaN = false) (below : place u < place v) :
    rankOf u < rankOf v := by
  rcases u with (_ | _) | _ | (_ | _) | ⟨_ | _, m₁, e₁, positive₁⟩ <;>
    rcases v with (_ | _) | _ | (_ | _) | ⟨_ | _, m₂, e₂, positive₂⟩ <;>
    simp only [UnpackedFloat.isNaN, Canonical, place, Prod.Lex.lt_iff, rankOf, signOf,
      magnitude] at left right numberLeft numberRight below ⊢ <;>
    first | contradiction | (simp at below ⊢ <;> omega)

/-- Shifting a multiple of a power of two drops nothing. -/
theorem shiftRight_exact (m k : Nat) :
    ExtendedMantissa.mk (2 ^ k * m) false false >>> k = ExtendedMantissa.mk m false false := by
  change k.repeat ExtendedMantissa.shiftRightOne ⟨2 ^ k * m, false, false⟩ = _
  induction k generalizing m with
  | zero => simp [Nat.repeat]
  | succ k ih =>
    have halved := ih (2 * m)
    rw [← Nat.mul_assoc, ← Nat.pow_succ] at halved
    rw [Nat.repeat, halved, ExtendedMantissa.shiftRightOne]
    simp

theorem log2_two_pow_mul {m : Nat} (positive : 0 < m) (k : Nat) :
    (2 ^ k * m).log2 = k + m.log2 := by
  induction k with
  | zero => simp
  | succ k ih =>
    have nonzero : 2 ^ k * m ≠ 0 := (Nat.mul_pos (Nat.two_pow_pos k) positive).ne'
    rw [Nat.pow_succ', Nat.mul_assoc, Nat.log2_two_mul nonzero, ih]
    omega

/-- A mantissa and an exponent as in canonical form, the exponent as large as it may be. -/
def Fitting (m : Nat) (e : Int) : Prop := m < 2 ^ 53 ∧ -1074 ≤ e ∧ (2 ^ 52 ≤ m ∨ e = -1074)

theorem Canonical.fitting {s : Sign} {m : Nat} {e : Int} {positive : 0 < m}
    (canonical : Canonical (.finite s m e positive)) : Fitting m e :=
  ⟨canonical.1, canonical.2.1, canonical.2.2.2⟩

/-- Such a mantissa and exponent are those that rounding aims at, also from a lower exponent. -/
theorem shiftToTargetExponent_fitting {m : Nat} {e : Int} (positive : 0 < m)
    (fitting : Fitting m e) (k : Nat) :
    shiftToTargetExponent Format.binary64 (2 ^ k * m) (e - k) .exact =
      (⟨m, false, false⟩, e) := by
  obtain ⟨short, least, long⟩ := fitting
  have below : m.log2 < 53 := (Nat.log2_lt positive.ne').mpr short
  have full : 2 ^ 52 ≤ m → 52 ≤ m.log2 := (Nat.le_log2 positive.ne').mpr
  have aim : Format.binary64.targetExponent (totalExponent (2 ^ k * m) (e - k)) = e := by
    rw [targetExponent_eq, totalExponent, log2_two_pow_mul positive]
    omega
  have steps : (e - (e - k)).toNat = k := by omega
  rw [shiftToTargetExponent, aim]
  simp only [shiftToExponent, steps]
  rw [ExtendedMantissa.ofMantissaAndAccuracy, shiftRight_exact]
  congr 1
  omega

/-- A canonical number is not rounded. -/
theorem roundWithAccuracy_canonical {s : Sign} {m : Nat} {e : Int} {positive : 0 < m}
    (canonical : Canonical (.finite s m e positive)) (k : Nat) :
    roundWithAccuracy Format.binary64 s (2 ^ k * m) (e - k) .exact = .finite s m e positive := by
  have rounded : (ExtendedMantissa.mk m false false).roundedMantissa = m := rfl
  have again := shiftToTargetExponent_fitting positive canonical.fitting 0
  rw [Nat.pow_zero, Nat.one_mul, Nat.cast_zero, sub_zero] at again
  unfold roundWithAccuracy
  rw [shiftToTargetExponent_fitting positive canonical.fitting k]
  dsimp only
  rw [rounded, again]
  dsimp only
  rw [dif_neg positive.ne']

/-- The unit with a sign. -/
def unit (s : Sign) : UnpackedFloat := .finite s (2 ^ 52) (-52) (by decide)

/-- A number with its sign kept or turned round. -/
def signed (s : Sign) (u : UnpackedFloat) : UnpackedFloat :=
  match s with
  | .positive => u
  | .negative => u.neg

/-- Nothing is rounded in a product with a unit. -/
theorem mul_unit (s : Sign) {u : UnpackedFloat} (canonical : Canonical u) :
    UnpackedFloat.mul Format.binary64 (unit s) u = signed s u := by
  cases u with
  | notANumber => cases s <;> rfl
  | infinity t => cases s <;> cases t <;> rfl
  | zero t => cases s <;> cases t <;> rfl
  | finite t m e positive =>
    have product : UnpackedFloat.mul Format.binary64 (unit s) (.finite t m e positive) =
        .finite (s * t) m e positive := by
      have turned : Canonical (.finite (s * t) m e positive) := canonical
      have exact := roundWithAccuracy_canonical turned 52
      rw [← exact, sub_eq_add_neg, add_comm]
      rfl
    rw [product]
    cases s <;> cases t <;> rfl

theorem unpack_negated (s : Sign) (exponent : BitVec 11) (mantissa : BitVec 52) :
    UnpackedFloat.unpack Format.binary64 (packComponents Format.binary64 (-s) exponent mantissa) =
      (UnpackedFloat.unpack Format.binary64
        (packComponents Format.binary64 s exponent mantissa)).neg := by
  unfold UnpackedFloat.unpack
  simp only [unpackSign_packComponents, unpackExponent_packComponents,
    unpackMantissa_packComponents, Sign.ofBitVec_toBitVec]
  split
  · split <;> rfl
  · split
    · split <;> rfl
    · rfl

/-- Packing keeps a number whose sign was turned round. -/
theorem unpack_pack_signed (s : Sign) {b : BitVec Format.binary64.numBits}
    (valid : Format.binary64.Valid b) :
    UnpackedFloat.unpack Format.binary64 (UnpackedFloat.pack Format.binary64
      (signed s (UnpackedFloat.unpack Format.binary64 b))) =
        signed s (UnpackedFloat.unpack Format.binary64 b) := by
  cases s with
  | positive => rw [signed, pack_unpack_of_valid valid]
  | negative =>
    rw [signed]
    by_cases undefined : UnpackedFloat.unpack Format.binary64 b = .notANumber
    · rw [undefined]
      exact unpack_packedNaN
    · have turned := unpack_negated (Sign.ofBitVec (unpackSign b)) (unpackExponent b)
        (unpackMantissa b)
      rw [packComponents_unpackSign_unpackExponent_unpackMantissa] at turned
      rw [← turned, pack_unpack_of_valid]
      constructor
      intro last payload
      rw [unpackExponent_packComponents] at last
      rw [unpackMantissa_packComponents] at payload
      refine absurd ?_ undefined
      rw [UnpackedFloat.unpack]
      simp only [if_pos last, if_neg payload]

/-- A product with a unit is the other factor, or its negation. -/
theorem unpack_unit_mul {s : Sign} {x : Float} (one : x.toModel.unpack = unit s) (y : Float) :
    (x * y).toModel.unpack = signed s y.toModel.unpack := by
  have product : (x * y).toModel.unpack = (Float.Model.pack
      (UnpackedFloat.mul Format.binary64 x.toModel.unpack y.toModel.unpack)).unpack := rfl
  rw [product, one, mul_unit s (canonical_toModel y)]
  exact unpack_pack_signed s y.toModel.valid

theorem place_neg (u : UnpackedFloat) {v : UnpackedFloat} :
    place u.neg < place v.neg ↔ place v < place u := by
  rcases u with (_ | _) | _ | (_ | _) | ⟨_ | _, m₁, e₁, _⟩ <;>
    rcases v with (_ | _) | _ | (_ | _) | ⟨_ | _, m₂, e₂, _⟩ <;>
    simp [UnpackedFloat.neg, place, Prod.Lex.lt_iff] <;> omega

theorem isNaN_signed (s : Sign) (u : UnpackedFloat) : (signed s u).isNaN = u.isNaN := by
  cases s <;> cases u <;> rfl

end Metaheuristic.Double
