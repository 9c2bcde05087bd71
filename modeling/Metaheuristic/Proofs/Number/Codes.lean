import Metaheuristic.Proofs.Number.Bits
import Metaheuristic.Quality.Direction

/-! Numbers that stand for a choice. A cast to a machine word drops the part after the point and
stops at the greatest word, so that many numbers share a word; but a whole number that is cast to
zero or to one is zero or one. -/
namespace Metaheuristic

/-- The law of the first two words. -/
class Scalar.LawfulCodes (α : Type) [Scalar α] : Prop where
  /-- Among the whole numbers, only the number itself is cast to one of the first two words. -/
  toWord_eq_iff {x : α} {n : Nat} : Scalar.isFinite x = true → Scalar.le Scalar.zero x = true →
    Scalar.isWhole x = true → n ≤ 1 → (Scalar.toWord x = n ↔ (x == Scalar.ofNat n) = true)

/-- Feasibilities are read back from their numbers. -/
class Scalar.LawfulStatus (α : Type) [Scalar α] : Prop where
  fromCode_code (s : Feasibility) : Feasibility.fromCode (s.code : α) = s

namespace Double
open Float.Model UnpackedFloat

theorem toWord_of_null {x : Float} (null : Null x.toModel.unpack) : Scalar.toWord x = 0 := by
  change (UnpackedFloat.toUInt64 x.toModel.unpack).toNat = 0
  cases unpacked : x.toModel.unpack with
  | zero s => rfl
  | notANumber => rfl
  | infinity s =>
    rw [unpacked] at null
    exact null.elim
  | finite s m e positive =>
    rw [unpacked] at null
    exact null.elim

/-- A number above zero, unpacked. -/
theorem unpack_above_zero {x : Float} (finite : Scalar.isFinite x = true)
    (above : Scalar.lt Scalar.zero x = true) :
    ∃ m e positive, x.toModel.unpack = .finite .positive m e positive := by
  have order := (lt_iff_place.mp above).2.2
  replace finite : x.toModel.unpack.isFinite = true := finite
  rw [placeOf_zero, placeOf] at order
  cases unpacked : x.toModel.unpack with
  | zero s =>
    rw [unpacked] at order
    exact absurd order (lt_irrefl _)
  | notANumber =>
    rw [unpacked] at finite
    exact absurd finite Bool.false_ne_true
  | infinity s =>
    rw [unpacked] at finite
    exact absurd finite Bool.false_ne_true
  | finite s m e positive =>
    rw [unpacked] at order
    cases s with
    | negative => simp [place, Prod.Lex.lt_iff] at order
    | positive => exact ⟨m, e, positive, rfl⟩

theorem toWord_of_eq_one {x : Float} (one : (x == Scalar.one) = true) : Scalar.toWord x = 1 := by
  have top : placeOf (Scalar.one : Float) = toLex (1, toLex (-52, 4503599627370496)) := by
    decide +kernel
  obtain ⟨_, _, same⟩ := eq_iff_place.mp one
  have finite : Scalar.isFinite x = true := by
    refine finite_iff_place.mpr ⟨(eq_iff_place.mp one).1, ?_⟩
    rw [same]
    decide +kernel
  have above : Scalar.lt Scalar.zero x = true := by
    refine lt_iff_place.mpr ⟨by decide +kernel, (eq_iff_place.mp one).1, ?_⟩
    rw [same]
    decide +kernel
  obtain ⟨m, e, positive, unpacked⟩ := unpack_above_zero finite above
  rw [top, placeOf, unpacked] at same
  simp only [place, EmbeddingLike.apply_eq_iff_eq, Prod.mk.injEq, true_and] at same
  obtain ⟨rfl, mantissa⟩ := same
  obtain rfl : m = 4503599627370496 := by exact_mod_cast mantissa
  change (UnpackedFloat.toUInt64 x.toModel.unpack).toNat = 1
  rw [unpacked]
  rfl

theorem pack_unpack_model (model : Float.Model) : Float.Model.pack model.unpack = model := by
  obtain ⟨word, valid⟩ := model
  have bits : UnpackedFloat.pack Format.binary64
      (UnpackedFloat.unpack Format.binary64 word.toBitVec) = word.toBitVec :=
    pack_unpack_of_valid valid
  simp only [Float.Model.pack, Float.Model.unpack, bits]

/-- A number without a minus sign is its own magnitude. -/
theorem abs_of_positive {x : Float} {m : Nat} {e : Int} {positive : 0 < m}
    (unpacked : x.toModel.unpack = .finite .positive m e positive) : x.abs = x := by
  have same : x.toModel.unpack.abs = x.toModel.unpack := by
    rw [unpacked]
    rfl
  change Float.ofModel (Float.Model.pack x.toModel.unpack.abs) = x
  rw [same, pack_unpack_model]

/-- A mantissa with an exponent that is not negative is whole, and nothing is dropped. -/
theorem roundToInt_of_nonneg (m : Nat) {e : Int} (exponent : 0 ≤ e) :
    roundToInt .positive m e = (m * 2 ^ e.toNat : Nat) := by
  have unshifted (em : ExtendedMantissa) : em >>> 0 = em := rfl
  have aligned : (0 - (e - (e.toNat : Int))).toNat = 0 := by omega
  unfold roundToInt decreaseExponent shiftToExponent
  dsimp only
  rw [Int.sub_zero, aligned, unshifted, Nat.shiftLeft_eq]
  rfl

/-- A cast to a word stops at the greatest one. -/
theorem toNat_ofNatClamp (n : Nat) : (UInt64.ofNatClamp n).toNat = min n (wordCount - 1) := by
  unfold UInt64.ofNatClamp
  split
  · rename_i word
    rw [UInt64.toNat_ofNatLT]
    exact (min_eq_left (Nat.le_sub_one_of_lt word)).symm
  · rename_i large
    exact (min_eq_right ((Nat.sub_le _ 1).trans (not_lt.mp large))).symm

/-- From `wholeFrom` on, numbers are cast to words above the first two. -/
theorem two_le_toWord {x : Float} {m : Nat} {e : Int} {positive : 0 < m}
    (unpacked : x.toModel.unpack = .finite .positive m e positive) (large : ¬ x < wholeFrom) :
    2 ≤ Scalar.toWord x := by
  have least : placeOf wholeFrom = toLex (1, toLex (0, 4503599627370496)) := by decide +kernel
  have number : x.isNaN = false := by
    change x.toModel.unpack.isNaN = false
    rw [unpacked]
    rfl
  have above : placeOf wholeFrom ≤ placeOf x := by
    by_contra below
    have strict : Scalar.lt x wholeFrom = true :=
      lt_iff_place.mpr ⟨number, by decide +kernel, not_le.mp below⟩
    exact large (of_decide_eq_true strict)
  have canonical := canonical_toModel x
  rw [unpacked] at canonical
  obtain ⟨_, _, _, long⟩ := canonical
  -- A longer exponent comes with a full mantissa.
  obtain ⟨exponent, mantissa⟩ : 0 ≤ e ∧ 4503599627370496 ≤ m := by
    rw [least, placeOf, unpacked] at above
    simp [place, Prod.Lex.le_iff] at above
    omega
  have cast : UnpackedFloat.toInt 0 (UInt64.size - 1) (.finite .positive m e positive) =
      (m * 2 ^ e.toNat : Nat) := roundToInt_of_nonneg m exponent
  have big : m ≤ m * 2 ^ e.toNat := Nat.le_mul_of_pos_right m (Nat.two_pow_pos _)
  change 2 ≤ (UnpackedFloat.toUInt64 x.toModel.unpack).toNat
  rw [unpacked, UnpackedFloat.toUInt64, cast, Int.toNat_natCast, toNat_ofNatClamp]
  exact le_min (by omega) (by decide)

/-- Below `wholeFrom` a number is cut off at the number of its word. -/
theorem floor_of_small {x : Float} {m : Nat} {e : Int} {positive : 0 < m}
    (unpacked : x.toModel.unpack = .finite .positive m e positive) (small : x < wholeFrom)
    (notBelow : ¬ x < 0.0) (notZero : (x == 0.0) = false) :
    Double.floor x = Double.ofNat (Scalar.toWord x) := by
  have floored : Double.floor x = x.toUInt64.toFloat := by
    unfold Double.floor wholePart
    rw [abs_of_positive unpacked, if_pos small]
    dsimp only
    rw [if_neg notBelow, notZero]
    rfl
  have bound : x.toUInt64.toNat < 2 * half := x.toUInt64.toNat_lt
  change _ = Double.ofNat x.toUInt64.toNat
  rw [floored, Double.ofNat, if_pos bound, Nat.toUInt64, UInt64.ofNat_toNat]

/-- Below `wholeFrom` a whole number is the number of its word. -/
theorem eq_ofNat_toWord {x : Float} {m : Nat} {e : Int} {positive : 0 < m}
    (unpacked : x.toModel.unpack = .finite .positive m e positive) (small : x < wholeFrom)
    (notBelow : ¬ x < 0.0) (notZero : (x == 0.0) = false) (whole : Scalar.isWhole x = true) :
    (x == Scalar.ofNat (Scalar.toWord x)) = true := by
  replace whole : (Double.floor x == x) = true := whole
  rw [floor_of_small unpacked small notBelow notZero] at whole
  exact Scalar.eq_symm whole

instance : Scalar.LawfulStatus Float where
  fromCode_code s := by cases s <;> decide +kernel

instance : Scalar.LawfulCodes Float where
  toWord_eq_iff {x n} finite lower whole code := by
    constructor
    · intro cast
      by_cases zero : (x == Scalar.zero) = true
      · rw [toWord_of_null (null_of_eq_zero zero)] at cast
        rw [← cast]
        exact zero
      · have above : Scalar.lt Scalar.zero x = true := by
          rcases le_iff_lt_or_eq.mp lower with above | same
          · exact above
          · exact absurd (Scalar.eq_symm same) zero
        obtain ⟨m, e, positive, unpacked⟩ := unpack_above_zero finite above
        by_cases small : x < wholeFrom
        · have origin : (0.0 : Float) = Scalar.zero := by rfl
          have notBelow : ¬ x < 0.0 := by
            rw [origin]
            intro below
            exact absurd (Scalar.lt_asymm above) (by simpa [Scalar.lt] using below)
          have notZero : (x == 0.0) = false := by
            rw [origin]
            exact Bool.eq_false_iff.mpr zero
          rw [← cast]
          exact eq_ofNat_toWord unpacked small notBelow notZero whole
        · have large := two_le_toWord unpacked small
          omega
    · intro same
      rcases Nat.le_one_iff_eq_zero_or_eq_one.mp code with rfl | rfl
      · exact toWord_of_null (null_of_eq_zero same)
      · exact toWord_of_eq_one same

end Double

namespace Exact

variable {K : Type} [Field K] [LinearOrder K] [FloorRing K] [IsStrictOrderedRing K] [Elementary K]

instance : Scalar.LawfulStatus (Exact K) where
  fromCode_code s := by
    have minus : (-Scalar.one : Exact K) = .finite (-1) := by
      rw [one_eq]
      rfl
    cases s with
    | unconstrained => simp [Feasibility.code, Feasibility.fromCode, zero_eq, beq_eq, same]
    | feasible =>
      simp [Feasibility.code, Feasibility.fromCode, zero_eq, one_eq, beq_eq, same, lt_eq, below]
    | infeasible =>
      simp [Feasibility.code, Feasibility.fromCode, zero_eq, minus, beq_eq, same, lt_eq, below]

instance : Scalar.LawfulCodes (Exact K) where
  toWord_eq_iff {x n} finite lower whole code := by
    obtain ⟨a, rfl⟩ := isFinite_iff.mp finite
    rw [zero_eq, le_finite] at lower
    have floored : ((⌊a⌋ : Int) : K) = a := by
      replace whole : same (.finite ((⌊a⌋ : Int) : K)) (.finite a) = true := whole
      simpa [same] using whole
    have nonneg : 0 ≤ ⌊a⌋ := Int.floor_nonneg.mpr lower
    have word : Scalar.toWord (Exact.finite a) = min ⌊a⌋.toNat (wordCount - 1) := rfl
    have bound : wordCount - 1 = 18446744073709551615 := by decide
    have equal : (Exact.finite a == (Scalar.ofNat n : Exact K)) = true ↔ a = n := by
      change same (.finite a) (.finite (n : K)) = true ↔ _
      simp [same]
    rw [equal, word, bound]
    -- From here on only the whole part counts.
    rw [← floored, Int.floor_intCast]
    generalize ⌊a⌋ = b at nonneg
    constructor
    · intro cast
      have value : b = n := by omega
      rw [value, Int.cast_natCast]
    · intro number
      have value : b = n := by exact_mod_cast number
      omega

end Exact
end Metaheuristic
