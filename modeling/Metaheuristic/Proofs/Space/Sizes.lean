import Metaheuristic.Proofs.Space.Layout
import Metaheuristic.Proofs.Space.Shape

/-! When declared sizes are true sizes. Products of dimensions and the counter of genes are machine
words, and only a product that wraps to nothing is refused. So a registry tells the true sizes as
long as all its variables together fit into the words. A variable that starts where it does not
fit is given another width than it has elements, and has elements outside of what it is given. -/
namespace Metaheuristic

variable {α : Type} [Scalar α]

omit [Scalar α] in
/-- Every index tuple of the variable has its offset inside of the width. -/
def Variable.Addressable (v : Variable α) : Prop :=
  ∀ index flat, v.shape.offset? index = some flat → flat < v.width

namespace Registry

omit [Scalar α] in
/-- Widths and the number of genes are those of numbers that do not wrap. -/
structure TrueSizes (r : Registry α) : Prop where
  /-- A variable is as wide as the product of its dimensions. -/
  widths : ∀ v ∈ r.declared, v.width = Shape.count v.shape.dims
  /-- The genes are those of all variables. -/
  genes : r.genes = (r.declared.map Variable.width).sum
  /-- No index tuple leads out of its variable. -/
  addressed : ∀ v ∈ r.declared, v.Addressable

section Accepted

variable {r r' : Registry α} {d : Declaration α} {v : Variable α}

/-- Where a variable does not fit, it is as wide as its wrapped size or has no width at all: the
stretch would run backwards. -/
theorem width_of_declared (word : r.genes < wordCount) (ran : r.declare d = .ok (v, r')) :
    0 < d.shape.size ∧
      v.width = if r.genes + d.shape.size < wordCount then d.shape.size else 0 := by
  obtain ⟨_, bound, checked, rfl, rfl⟩ := declare_ok ran
  have inhabited := checkedBound_shape checked
  rw [Shape.isEmpty, beq_eq_false_iff_ne] at inhabited
  refine ⟨Nat.pos_of_ne_zero inhabited, ?_⟩
  have size : d.shape.size < wordCount := wrap_lt _
  rw [Variable.width]
  split_ifs with fits
  · rw [wrap_of_lt fits]
    exact Nat.add_sub_cancel_left _ _
  · have behind : wrap (r.genes + d.shape.size) ≤ r.genes := by
      unfold wrap wordCount at *
      omega
    exact Nat.sub_eq_zero_of_le behind

theorem width_eq_count_iff (word : r.genes < wordCount) (ran : r.declare d = .ok (v, r')) :
    v.width = Shape.count d.shape.dims ↔ r.genes + Shape.count d.shape.dims < wordCount := by
  obtain ⟨inhabited, width⟩ := width_of_declared word ran
  rw [width]
  constructor
  · intro same
    split_ifs at same with fits
    · rwa [← same]
    · -- a count of nothing is a size of nothing
      rw [Shape.size, ← same] at inhabited
      cases inhabited
  · intro fits
    rw [Shape.size_of_lt (by omega), if_pos fits]

/-- The first tuple that leads out of the variable is the one behind the wrapped size, or the very
first when the stretch would run backwards. -/
theorem addressable_iff (word : r.genes < wordCount) (ran : r.declare d = .ok (v, r')) :
    v.Addressable ↔ r.genes + Shape.count d.shape.dims < wordCount := by
  obtain ⟨inhabited, width⟩ := width_of_declared word ran
  have shape : v.shape = d.shape := by
    obtain ⟨_, _, _, rfl, _⟩ := declare_ok ran
    rfl
  rw [Variable.Addressable, shape]
  constructor
  · intro inside
    have size : d.shape.size ≤ Shape.count d.shape.dims := Nat.mod_le _ _
    have reached {flat : Nat} (below : flat < Shape.count d.shape.dims)
        (single : flat < wordCount) : flat < v.width := by
      obtain ⟨index, addressed, rfl⟩ := Shape.exists_rowMajor below
      exact inside index _ (Shape.offset?_eq_some_iff.mpr ⟨addressed, (wrap_of_lt single).symm⟩)
    by_contra overfull
    rcases size.lt_or_eq with wrapped | exact_size
    · have behind : d.shape.size < v.width := reached wrapped (wrap_lt _)
      split_ifs at width <;> omega
    · have first : 0 < v.width := reached (inhabited.trans_le size) (by decide)
      rw [width, if_neg (exact_size ▸ overfull)] at first
      cases first
  · intro fits index flat addressed
    rw [(width_eq_count_iff word ran).mpr fits]
    have small : Shape.count d.shape.dims < wordCount := by omega
    exact Shape.size_of_lt small ▸ Shape.offset?_lt small addressed

end Accepted

variable (ds : List (Declaration α))

/-- Wrapping after every declaration is wrapping once. -/
theorem genes_afterAll : (afterAll ds).genes = wrap (afterAll ds).total := by
  induction ds using List.reverseRecOn with
  | nil => rfl
  | append_singleton ds d ih =>
    rw [afterAll_concat]
    rcases after_cases (afterAll ds) d with same | ⟨v, r', ran, same⟩
    · rw [same, ih]
    · rw [same, total_declare ran]
      obtain ⟨_, _, _, _, rfl⟩ := declare_ok ran
      rw [ih]
      simp [wrap, Shape.size]

/-- A registry tells the true sizes exactly as long as they fit into the words together. -/
theorem trueSizes_iff : (afterAll ds).TrueSizes ↔ (afterAll ds).total < wordCount := by
  constructor
  · intro sizes
    have counted : (afterAll ds).genes = (afterAll ds).total := by
      rw [sizes.genes, total]
      exact congrArg List.sum (List.map_congr_left sizes.widths)
    rw [← counted, genes_afterAll]
    exact wrap_lt _
  · intro fits
    have sound : (afterAll ds).Sound := Sound.afterAll fits
    refine ⟨fun v member => ?_, sound.genes, fun v member index flat addressed => ?_⟩
    · obtain ⟨width, size, _⟩ := sound.width v member
      exact width.trans size
    · obtain ⟨width, size, _⟩ := sound.width v member
      rw [width]
      exact Shape.offset?_lt (size ▸ wrap_lt _) addressed

/-- Whatever was declared before, a declaration that is accepted gives its variable the true width
exactly when the variable fits behind the genes that are there, and only then all index tuples stay
inside of it. The new registry tells the true sizes exactly when all its variables fit into the
words together. -/
theorem declared_sizes_true_iff (d : Declaration α) (v : Variable α) (r' : Registry α)
    (ran : (afterAll ds).declare d = .ok (v, r')) :
    (v.width = Shape.count d.shape.dims ↔
      (afterAll ds).genes + Shape.count d.shape.dims < wordCount) ∧
    (v.Addressable ↔ (afterAll ds).genes + Shape.count d.shape.dims < wordCount) ∧
    r'.genes = wrap r'.total ∧ (r'.TrueSizes ↔ r'.total < wordCount) := by
  have word : (afterAll ds).genes < wordCount := genes_afterAll ds ▸ wrap_lt _
  have next : afterAll (ds ++ [d]) = r' := (afterAll_concat ds d).trans (after_ok ran)
  refine ⟨width_eq_count_iff word ran, addressable_iff word ran, ?_, ?_⟩
  · rw [← next, genes_afterAll]
  · rw [← next, trueSizes_iff]

/-- More elements than there are words, so many that the size wraps to a part of them. -/
def wide : Declaration Float := ⟨"x", .continuous, ⟨[4294967296, 4294967297]⟩, ⟨0.0, 10.0⟩⟩

theorem declare_wide : (empty : Registry Float).declare wide =
    .ok (empty.variableFor wide wide.bound, empty.extended wide wide.bound) :=
  declare_accepted (by simp [empty]) rfl

/-- Three rows of two fit. -/
theorem declared_sizes_true_iff_rows :
    (empty.variableFor ⟨"x", .binary, ⟨[3, 2]⟩, ⟨0.0, 1.0⟩⟩ .unit : Variable Float).Addressable ∧
    (empty.extended ⟨"x", .binary, ⟨[3, 2]⟩, ⟨0.0, 1.0⟩⟩ .unit : Registry Float).TrueSizes := by
  obtain ⟨_, addressable, _, sizes⟩ := declared_sizes_true_iff []
    (⟨"x", .binary, ⟨[3, 2]⟩, ⟨0.0, 1.0⟩⟩ : Declaration Float) _ _
    (declare_accepted (by simp [afterAll, empty]) rfl)
  exact ⟨addressable.mpr (by decide), sizes.mpr (by decide)⟩

/-- The wide variable is accepted with a part of its elements, and the offset of a tuple of it is
already the first behind it. -/
theorem wide_accepted : ∃ v r', (empty : Registry Float).declare wide = .ok (v, r') ∧
    v.width = 4294967296 ∧ r'.genes = 4294967296 ∧
    Shape.count v.shape.dims = 18446744078004518912 ∧
    v.shape.offset? [0, 4294967296] = some 4294967296 ∧ ¬v.Addressable :=
  ⟨_, _, declare_wide, by decide, by decide, by decide, by decide,
    fun inside => absurd (inside [0, 4294967296] 4294967296 (by decide)) (by decide)⟩

end Registry
end Metaheuristic
