import Metaheuristic.Proofs.Number.Codes
import Metaheuristic.Proofs.Number.Distance
import Metaheuristic.Proofs.Number.Rounded
import Metaheuristic.Proofs.Number.Total

/-! Shares of a range. The gap of two values, as a fraction of a finite range around them, lies
between zero and one, and a sum of such shares is finite and at most as large as there are shares.
Rounding does not change that: it keeps the order, and zero, one and the whole numbers up to two to
the fifty-third are not rounded. Beyond those a sum of doubles stops growing. -/
namespace Metaheuristic

/-- A number between zero and one. -/
def Scalar.IsShare {α : Type} [Scalar α] (x : α) : Prop :=
  Scalar.le Scalar.zero x = true ∧ Scalar.le x Scalar.one = true

/-- The sum of shares, one after the other from zero on. -/
def Scalar.sumShares {α : Type} [Scalar α] (shares : List α) : α :=
  shares.foldl (· + ·) Scalar.zero

/-- The laws of shares. -/
class Scalar.LawfulShares (α : Type) [Scalar α] : Prop where
  /-- The gap of two values between the ends of a finite range is a share of it. -/
  share {lo x y hi : α} : Scalar.isFinite (hi - lo) = true →
    Scalar.lt Scalar.zero (hi - lo) = true → Scalar.totalOrder lo x ≠ .gt →
    Scalar.totalOrder x y ≠ .gt → Scalar.totalOrder y hi ≠ .gt →
    Scalar.IsShare ((y - x) / (hi - lo))
  /-- What is infinite stays so. -/
  infinity_add {s : α} : Scalar.IsShare s → Scalar.infinity + s = Scalar.infinity
  /-- Shares add up to at most their number. -/
  sum_shares {shares : List α} {n : Nat} : (∀ s ∈ shares, Scalar.IsShare s) → shares.length ≤ n →
    Scalar.isFinite (Scalar.sumShares shares) = true ∧
      Scalar.le Scalar.zero (Scalar.sumShares shares) = true ∧
      Scalar.le (Scalar.sumShares shares) (Scalar.ofNat n) = true

/-- A number between finite ones is finite. -/
theorem Scalar.finite_of_le {α : Type} [Scalar α] [Scalar.LawfulOrder α] {lo x hi : α}
    (lower : Scalar.le lo x = true) (upper : Scalar.le x hi = true)
    (low : Scalar.isFinite lo = true) (high : Scalar.isFinite hi = true) :
    Scalar.isFinite x = true := by
  refine Scalar.LawfulOrder.finite_iff.mpr ⟨?_, ?_⟩
  · have bottom := (Scalar.LawfulOrder.finite_iff.mp low).1
    rcases Scalar.LawfulOrder.le_iff.mp lower with below | same
    · exact Scalar.LawfulOrder.lt_trans bottom below
    · exact Scalar.lt_of_lt_of_eq bottom same
  · have top := (Scalar.LawfulOrder.finite_iff.mp high).2
    rcases Scalar.LawfulOrder.le_iff.mp upper with below | same
    · exact Scalar.LawfulOrder.lt_trans below top
    · exact Scalar.lt_of_eq_of_lt same top

namespace Double
open Float.Model UnpackedFloat

variable {x y s : Float} {p q : ℚ}

theorem isShare_iff : Scalar.IsShare s ↔ ∃ q, value? s = some q ∧ 0 ≤ q ∧ q ≤ 1 := by
  constructor
  · intro ⟨lower, upper⟩
    obtain ⟨q, value⟩ := finite_iff_value.mp (Scalar.finite_of_le lower upper
      (finite_iff_value.mpr ⟨_, value_zero⟩) (finite_iff_value.mpr ⟨_, value_one⟩))
    exact ⟨q, value, (le_iff_value value_zero value).mp lower,
      (le_iff_value value value_one).mp upper⟩
  · intro ⟨q, value, nonneg, small⟩
    exact ⟨(le_iff_value value_zero value).mpr nonneg, (le_iff_value value value_one).mpr small⟩

/-- The upper infinity is the only double that unpacks to it. -/
theorem eq_infinity (unpacked : x.toModel.unpack = .infinity .positive) :
    x = Scalar.infinity := by
  have packed : x = Float.ofModel (Float.Model.pack x.toModel.unpack) :=
    congrArg Float.ofModel (pack_unpack_model x.toModel).symm
  rw [packed, unpacked]
  rfl

/-- A part of something is a share of it. -/
theorem isShare_div (part : value? x = some p) (whole : value? y = some q) (nonneg : 0 ≤ p)
    (ordered : p ≤ q) (positive : 0 < q) : Scalar.IsShare (x / y) := by
  have lower : 0 ≤ p / q := div_nonneg nonneg positive.le
  have one : nearest 1 = 1 := by exact_mod_cast nearest_natCast (n := 1) (by decide)
  have upper : nearest (p / q) ≤ 1 :=
    (nearest_mono lower ((div_le_one positive).mpr ordered)).trans_eq one
  have small : nearest (p / q) < 2 ^ 1024 := upper.trans_lt (one_lt_pow₀ one_lt_two (by decide))
  exact isShare_iff.mpr ⟨_, (isNearest_div part whole nonneg positive).value small,
    nearest_nonneg lower, upper⟩

/-- One more is halfway to the next double and goes back to the even mantissa. -/
theorem nearest_saturates : nearest (2 ^ 53 + 1) = 2 ^ 53 := by
  have place : lastPlace (2 ^ 53 + 1) = 1 := by
    have number : (2 ^ 53 + 1 : ℚ) = (2 ^ 53 + 1 : Nat) := by norm_num
    have log : Nat.log 2 (2 ^ 53 + 1) = 53 := by norm_num
    rw [lastPlace, number, Int.log_natCast, log]
    decide
  have even : nearestEven ((2 ^ 53 + 1) / 2 ^ (1 : Int)) = 2 ^ 52 :=
    nearestEven_eq_of_le (by norm_num) (.inr ⟨by norm_num, by decide⟩)
  rw [nearest, place, even]
  norm_num

/-- Shares add up to at most their number, and to no more than the number from which on one more is
not noticed. By induction on the shares, the last one first. -/
theorem value_sumShares {shares : List Float} (all : ∀ s ∈ shares, Scalar.IsShare s) :
    ∃ q, value? (Scalar.sumShares shares) = some q ∧ 0 ≤ q ∧
      q ≤ (min shares.length (2 ^ 53) : Nat) := by
  induction shares using List.reverseRecOn with
  | nil => exact ⟨0, value_zero, le_rfl, Nat.cast_nonneg _⟩
  | append_singleton shares s ih =>
    obtain ⟨p, sum, nonneg, bound⟩ := ih fun t member => all t (List.mem_append_left _ member)
    obtain ⟨q, last, lower, upper⟩ := isShare_iff.mp (all s (by simp))
    have total : 0 ≤ p + q := add_nonneg nonneg lower
    have grown : nearest (p + q) ≤ (min (shares.length + 1) (2 ^ 53) : Nat) := by
      have next := nearest_mono total (add_le_add bound upper)
      rcases Nat.lt_or_ge shares.length (2 ^ 53) with few | many
      · rw [min_eq_left few.le, ← Nat.cast_succ, nearest_natCast few] at next
        rwa [min_eq_left (Nat.succ_le_of_lt few)]
      · rw [min_eq_right many, Nat.cast_pow, Nat.cast_ofNat, nearest_saturates] at next
        rwa [min_eq_right (many.trans (Nat.le_succ _)), Nat.cast_pow, Nat.cast_ofNat]
    refine ⟨nearest (p + q), ?_, nearest_nonneg total, ?_⟩
    · rw [Scalar.sumShares, List.foldl_append]
      refine (isNearest_add sum last total).value (grown.trans_lt ?_)
      have limit : ((min (shares.length + 1) (2 ^ 53) : Nat) : ℚ) ≤ 2 ^ 53 := by
        exact_mod_cast min_le_right _ _
      exact limit.trans_lt (pow_lt_pow_right₀ one_lt_two (by decide))
    · rw [List.length_append, List.length_singleton]
      exact grown

section Between

variable {lo hi : Float} {a b : ℚ}

/-- The undefined value stands behind all finite ones. -/
theorem rank_lt_of_value (value : value? x = some p) (undefined : y.toModel.unpack = .notANumber) :
    rank x < rank y := by
  have canonical := canonical_toModel x
  rw [value?] at value
  rw [rank_eq, rank_eq, undefined]
  rcases unpacked : x.toModel.unpack with s | _ | s | ⟨s, m, e, positive⟩ <;>
    rw [unpacked] at value canonical <;> cases value <;> cases s <;>
    simp only [rankOf, signOf, magnitude, Canonical] at canonical ⊢ <;> omega

/-- What stands between two finite values in the total order is finite and between them. -/
theorem value_between (low : value? lo = some a) (high : value? hi = some b)
    (after : Scalar.totalOrder lo x ≠ .gt) (before : Scalar.totalOrder x hi ≠ .gt) :
    ∃ p, value? x = some p ∧ a ≤ p ∧ p ≤ b := by
  have number : Scalar.isNaN x = false := by
    rw [isNaN_eq, Bool.eq_false_iff]
    intro undefined
    have unpacked : x.toModel.unpack = .notANumber := by
      change x.toModel.unpack.isNaN = true at undefined
      cases shape : x.toModel.unpack <;> rw [shape] at undefined <;> first | rfl | cases undefined
    exact before (compare_gt_iff_gt.mpr (rank_lt_of_value high unpacked))
  have lower : Scalar.le lo x = true := Scalar.le_of_not_lt number
    (Scalar.defined_of_finite (finite_iff_value.mpr ⟨a, low⟩)) (Scalar.not_lt_of_totalOrder after)
  have upper : Scalar.le x hi = true := Scalar.le_of_not_lt
    (Scalar.defined_of_finite (finite_iff_value.mpr ⟨b, high⟩)) number
    (Scalar.not_lt_of_totalOrder before)
  obtain ⟨p, value⟩ := finite_iff_value.mp (Scalar.finite_of_le lower upper
    (finite_iff_value.mpr ⟨a, low⟩) (finite_iff_value.mpr ⟨b, high⟩))
  exact ⟨p, value, (le_iff_value low value).mp lower, (le_iff_value value high).mp upper⟩

theorem beyond_sub_right (u : UnpackedFloat) {v : UnpackedFloat} (beyond : Beyond v) :
    Beyond (UnpackedFloat.sub Format.binary64 u v) := by
  cases v with
  | notANumber => cases u <;> trivial
  | infinity t =>
    cases u with
    | infinity s => cases s <;> cases t <;> trivial
    | notANumber | zero | finite => trivial
  | zero t => exact beyond.elim
  | finite t m e positive => exact beyond.elim

/-- A finite range has finite ends. -/
theorem values_of_range (range : Scalar.isFinite (hi - lo) = true) :
    ∃ a b, value? lo = some a ∧ value? hi = some b := by
  have finite {z : Float} (not : ¬Beyond z.toModel.unpack) : ∃ a, value? z = some a := by
    rw [← beyond_iff, Bool.not_eq_false] at not
    exact finite_iff_value.mp not
  have notBeyond : ¬Beyond (hi - lo).toModel.unpack := by
    rw [← beyond_iff, Bool.not_eq_false]
    exact range
  obtain ⟨a, low⟩ := finite fun beyond =>
    notBeyond (beyond_pack (beyond_sub_right hi.toModel.unpack beyond))
  obtain ⟨b, high⟩ := finite fun beyond =>
    notBeyond (beyond_pack (beyond_sub beyond lo.toModel.unpack))
  exact ⟨a, b, low, high⟩

end Between

instance : Scalar.LawfulShares Float where
  share {lo x y hi} range positive after between before := by
    obtain ⟨a, b, low, high⟩ := values_of_range range
    obtain ⟨q, second, _, under⟩ :=
      value_between low high (Scalar.totalOrder_trans after between) before
    obtain ⟨p, first, above, below⟩ := value_between low second after between
    have whole := isNearest_sub high low (sub_nonneg.mpr (above.trans (below.trans under)))
    have part := isNearest_sub second first (sub_nonneg.mpr below)
    have ordered : nearest (q - p) ≤ nearest (b - a) :=
      nearest_mono (sub_nonneg.mpr below) (sub_le_sub under above)
    obtain ⟨small, width⟩ : nearest (b - a) < 2 ^ 1024 ∧
        value? (hi - lo) = some (nearest (b - a)) := by
      rcases whole with held | ⟨_, infinite⟩
      · exact held
      · rw [eq_infinity infinite] at range
        exact absurd range (by decide +kernel)
    have gap := part.value (ordered.trans_lt small)
    exact isShare_div gap width (nearest_nonneg (sub_nonneg.mpr below)) ordered
      ((lt_iff_value value_zero width).mp positive)
  infinity_add {s} share := by
    obtain ⟨q, value, _, _⟩ := isShare_iff.mp share
    have kept : UnpackedFloat.add Format.binary64 (.infinity .positive) s.toModel.unpack =
        .infinity .positive := by
      rw [value?] at value
      rcases unpacked : s.toModel.unpack with t | _ | t | ⟨t, m, e, positive⟩ <;>
        rw [unpacked] at value <;> cases value <;> rfl
    refine eq_infinity ?_
    change (Float.Model.pack (UnpackedFloat.add Format.binary64
      (.infinity .positive) s.toModel.unpack)).unpack = .infinity .positive
    rw [kept]
    rfl
  sum_shares {shares n} all few := by
    obtain ⟨q, value, nonneg, bound⟩ := value_sumShares all
    refine ⟨finite_iff_value.mpr ⟨q, value⟩, (le_iff_value value_zero value).mpr nonneg, ?_⟩
    rcases isNearest_ofNat n with ⟨_, number⟩ | ⟨_, large⟩
    · refine (le_iff_value value number).mpr ?_
      have few' : ((min shares.length (2 ^ 53) : Nat) : ℚ) ≤ n :=
        Nat.cast_le.mpr ((min_le_left _ _).trans few)
      calc q ≤ (min shares.length (2 ^ 53) : Nat) := bound
        _ = nearest (min shares.length (2 ^ 53) : Nat) := (nearest_natCast (min_le_right _ _)).symm
        _ ≤ nearest n := nearest_mono (Nat.cast_nonneg _) few'
    · have infinite : (Scalar.ofNat n : Float) = Scalar.infinity := eq_infinity large
      rw [infinite, Scalar.LawfulOrder.le_iff]
      exact .inl (Scalar.LawfulOrder.finite_iff.mp (finite_iff_value.mpr ⟨q, value⟩)).2

end Double

namespace Exact

variable {K : Type} [Field K] [LinearOrder K] [FloorRing K] [Elementary K]

theorem isShare_iff {s : Exact K} :
    Scalar.IsShare s ↔ ∃ q, s = finite q ∧ 0 ≤ q ∧ q ≤ 1 := by
  rw [Scalar.IsShare, zero_eq, one_eq]
  constructor
  · intro ⟨lower, upper⟩
    obtain ⟨q, rfl⟩ := isFinite_iff.mp (Scalar.finite_of_le lower upper rfl rfl)
    exact ⟨q, rfl, le_finite.mp lower, le_finite.mp upper⟩
  · rintro ⟨q, rfl, nonneg, small⟩
    exact ⟨le_finite.mpr nonneg, le_finite.mpr small⟩

variable [IsStrictOrderedRing K]

theorem value_sumShares {shares : List (Exact K)} (all : ∀ s ∈ shares, Scalar.IsShare s) :
    ∃ q, Scalar.sumShares shares = finite q ∧ 0 ≤ q ∧ q ≤ shares.length := by
  induction shares using List.reverseRecOn with
  | nil => exact ⟨0, zero_eq, le_rfl, Nat.cast_nonneg _⟩
  | append_singleton shares s ih =>
    obtain ⟨p, sum, nonneg, bound⟩ := ih fun t member => all t (List.mem_append_left _ member)
    obtain ⟨q, rfl, lower, upper⟩ := isShare_iff.mp (all s (by simp))
    refine ⟨p + q, ?_, add_nonneg nonneg lower, ?_⟩
    · rw [Scalar.sumShares, List.foldl_append, ← Scalar.sumShares, sum]
      rfl
    · rw [List.length_append, List.length_singleton, Nat.cast_add, Nat.cast_one]
      exact add_le_add bound upper

instance : Scalar.LawfulShares (Exact K) where
  share {lo x y hi} range positive after between before := by
    obtain ⟨b, a, rfl, rfl⟩ := finite_of_sub range
    obtain ⟨q, rfl, _, under⟩ := finite_of_between
      (bne_iff_ne.mpr (Scalar.totalOrder_trans after between)) (bne_iff_ne.mpr before)
    obtain ⟨p, rfl, above, below⟩ :=
      finite_of_between (bne_iff_ne.mpr after) (bne_iff_ne.mpr between)
    rw [finite_sub] at positive
    have wide : 0 < b - a := by
      rw [zero_eq, lt_eq, Exact.below, decide_eq_true_eq] at positive
      exact positive
    rw [finite_sub, finite_sub, finite_div wide.ne']
    exact isShare_iff.mpr ⟨_, rfl, div_nonneg (sub_nonneg.mpr below) wide.le,
      (div_le_one wide).mpr (sub_le_sub under above)⟩
  infinity_add {s} share := by
    obtain ⟨q, rfl, _⟩ := isShare_iff.mp share
    rfl
  sum_shares {shares n} all few := by
    obtain ⟨q, sum, nonneg, bound⟩ := value_sumShares all
    rw [sum, zero_eq, ofNat_eq, le_finite, le_finite]
    exact ⟨rfl, nonneg, bound.trans (Nat.cast_le.mpr few)⟩

end Exact
end Metaheuristic
