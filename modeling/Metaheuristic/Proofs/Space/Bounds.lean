import Metaheuristic.Proofs.Number.UnitCube
import Metaheuristic.Proofs.Space.Codec

/-! Where whole values lie. A whole variable rounds a number of its bound to the nearest whole
number. Rounding keeps the order, so the values lie between the rounded ends of the bound, and a
gene at either end of the unit interval reaches them. These rounded ends need not be inside. -/
namespace Metaheuristic

variable {K : Type} [Field K] [LinearOrder K] [IsStrictOrderedRing K] [FloorRing K] [Elementary K]

namespace Variable

variable {v : Variable (Exact K)} {lo hi : K}

omit [IsStrictOrderedRing K] in
/-- What one gene of a whole variable decodes to. -/
theorem mem_decode_integer (kind : v.kind = .integer) (bound : v.bound = .between lo hi)
    {genes : List (Exact K)} (inside : ∀ g ∈ genes, Exact.InUnit g) {x : Exact K} :
    x ∈ v.decode genes ↔ ∃ g, .finite g ∈ genes ∧ 0 ≤ g ∧ g ≤ 1 ∧
      x = .finite (Exact.nearest (lo + g * (hi - lo)) : K) := by
  have decoded : v.decode genes = genes.map fun g => Scalar.round (stretch v.bound g) := by
    simp only [decode, kind]
  rw [decoded, bound, List.mem_map]
  constructor
  · rintro ⟨g, member, rfl⟩
    obtain ⟨q, rfl, lower, upper⟩ := inside g member
    exact ⟨q, member, lower, upper, by rw [stretch_finite, Exact.round_finite]⟩
  · rintro ⟨q, member, _, _, rfl⟩
    exact ⟨_, member, by rw [stretch_finite, Exact.round_finite]⟩

/-- Whole values lie between the rounded ends. -/
theorem integer_between (kind : v.kind = .integer) (bound : v.bound = .between lo hi)
    (ordered : lo ≤ hi) {genes : List (Exact K)} (inside : ∀ g ∈ genes, Exact.InUnit g)
    {x : Exact K} (member : x ∈ v.decode genes) :
    ∃ z : Int, x = .finite (z : K) ∧ Exact.nearest lo ≤ z ∧ z ≤ Exact.nearest hi := by
  obtain ⟨g, _, lower, upper, rfl⟩ := (mem_decode_integer kind bound inside).mp member
  obtain ⟨above, below⟩ := stretched_within ordered lower upper
  exact ⟨_, rfl, Exact.nearest_le_nearest above, Exact.nearest_le_nearest below⟩

omit [IsStrictOrderedRing K] in
/-- Both rounded ends are decoded. -/
theorem ends_decoded (kind : v.kind = .integer) (bound : v.bound = .between lo hi)
    (some : v.width ≠ 0) :
    ∃ zeros ones, Exact.InCube v.width zeros ∧ Exact.InCube v.width ones ∧
      .finite (Exact.nearest lo : K) ∈ v.decode zeros ∧
      .finite (Exact.nearest hi : K) ∈ v.decode ones := by
  have cube {g : K} (lower : 0 ≤ g) (upper : g ≤ 1) :
      Exact.InCube v.width (List.replicate v.width (.finite g)) := by
    refine ⟨List.length_replicate, fun x member => ?_⟩
    rw [List.eq_of_mem_replicate member]
    exact ⟨g, rfl, lower, upper⟩
  have zeros := cube le_rfl zero_le_one
  have ones := cube zero_le_one (le_refl (1 : K))
  refine ⟨_, _, zeros, ones, ?_, ?_⟩
  · refine (mem_decode_integer kind bound zeros.2).mpr ⟨0, ?_, le_rfl, zero_le_one, ?_⟩
    · exact List.mem_replicate.mpr ⟨some, rfl⟩
    · rw [zero_mul, add_zero]
  · refine (mem_decode_integer kind bound ones.2).mpr ⟨1, ?_, zero_le_one, le_rfl, ?_⟩
    · exact List.mem_replicate.mpr ⟨some, rfl⟩
    · rw [one_mul, add_sub_cancel]

end Variable

namespace Registry

variable {r r' : Registry (Exact K)} {d : Declaration (Exact K)} {v : Variable (Exact K)}

/-- A variable of whole values decodes to whole numbers between the rounded ends of its bound,
whatever its shape. All of them are inside the bound exactly when the lower end is rounded up and
the upper end is rounded down, as whole ends are, or when there are no values. -/
theorem integers_inside_iff (declared : r.declare d = .ok (v, r')) (kind : d.kind = .integer) :
    ∃ lo hi : K, v.bound = .between lo hi ∧ lo ≤ hi ∧
      (∀ genes, Exact.InCube v.width genes → ∀ x ∈ v.decode genes,
        ∃ z : Int, x = .finite (z : K) ∧ Exact.nearest lo ≤ z ∧ z ≤ Exact.nearest hi) ∧
      ((∀ genes, Exact.InCube v.width genes → ∀ x ∈ v.decode genes,
          Scalar.le v.bound.lo x = true ∧ Scalar.le x v.bound.hi = true) ↔
        v.width = 0 ∨ lo ≤ Exact.nearest lo ∧ (Exact.nearest hi : K) ≤ hi) := by
  obtain ⟨_, _, checked, same, _⟩ := declare_ok declared
  have whole : v.kind = .integer := by rw [same, kind]
  obtain ⟨lo, hi, bound, ordered⟩ : v.bound.Proper := by
    rw [same]
    exact checkedBound_proper checked
  have between (genes : List (Exact K)) (cube : Exact.InCube v.width genes) (x : Exact K)
      (member : x ∈ v.decode genes) :=
    Variable.integer_between whole bound ordered cube.2 member
  refine ⟨lo, hi, bound, ordered, between, ?_⟩
  simp only [bound, Bound.between]
  constructor
  · intro inside
    refine or_iff_not_imp_left.mpr fun some => ?_
    obtain ⟨zeros, ones, cube, cube', lowest, highest⟩ := Variable.ends_decoded whole bound some
    exact ⟨Exact.le_finite.mp (inside zeros cube _ lowest).1,
      Exact.le_finite.mp (inside ones cube' _ highest).2⟩
  · rintro (none | ⟨up, down⟩) genes cube x member
    · have nothing : genes = [] := List.eq_nil_of_length_eq_zero (cube.1.trans none)
      have length := Variable.length_decode v genes
      rw [nothing, List.length_nil, List.length_eq_zero_iff] at length
      rw [nothing, length] at member
      cases member
    · obtain ⟨z, rfl, above, below⟩ := between genes cube x member
      exact ⟨Exact.le_finite.mpr (up.trans (Int.cast_le.mpr above)),
        Exact.le_finite.mpr ((Int.cast_le.mpr below).trans down)⟩

/-- A whole number between three quarters and seven quarters, so it could only be one. -/
def unity : Declaration (Exact ℚ) := ⟨"n", .integer, .scalar, .between (3 / 4) (7 / 4)⟩

theorem declare_unity :
    empty.declare unity =
      .ok (empty.variableFor unity unity.bound, empty.extended unity unity.bound) :=
  declare_accepted (by simp [empty])
    (checkedBound_of_proper rfl (.inr rfl) ⟨3 / 4, 7 / 4, rfl, by norm_num⟩)

/-- It is one or two. -/
theorem integers_inside_iff_unity : unity.kind = .integer ∧
    ∃ v r', empty.declare unity = .ok (v, r') ∧
      ∀ genes, Exact.InCube v.width genes →
        ∀ x ∈ v.decode genes, x = .finite 1 ∨ x = .finite 2 := by
  refine ⟨rfl, _, _, declare_unity, fun genes cube x member => ?_⟩
  obtain ⟨lo, hi, bound, _, between, _⟩ := integers_inside_iff declare_unity rfl
  cases bound
  obtain ⟨z, rfl, above, below⟩ := between genes cube x member
  have low : Exact.nearest (3 / 4 : ℚ) = 1 := by decide +kernel
  have high : Exact.nearest (7 / 4 : ℚ) = 2 := by decide +kernel
  rw [low] at above
  rw [high] at below
  obtain rfl | rfl : z = 1 ∨ z = 2 := by omega
  · exact .inl rfl
  · exact .inr rfl

/-- It is two at the upper end of the bound, which is lower. -/
theorem integers_inside_iff_beyond :
    ∃ v r', empty.declare unity = .ok (v, r') ∧ v.kind = .integer ∧
      Exact.InCube v.width [.finite (1 : ℚ)] ∧ v.decode [.finite 1] = [.finite 2] ∧
      Scalar.lt v.bound.hi (.finite 2) = true := by
  refine ⟨_, _, declare_unity, rfl, ⟨rfl, ?_⟩, by decide +kernel, by decide +kernel⟩
  simp [Exact.InUnit]

end Registry
end Metaheuristic
