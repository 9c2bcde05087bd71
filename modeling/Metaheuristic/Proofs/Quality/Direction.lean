import Metaheuristic.Proofs.Number.Order
import Metaheuristic.Quality.Direction

/-! Better is a strict order of the numbers under either direction: maximizing
turns the order round. -/
namespace Metaheuristic.Direction

variable {α : Type} [Scalar α] [Scalar.LawfulOrder α] {d : Direction} {x y z : α}

theorem isBetter_irrefl : d.isBetter x x = false := by
  cases d <;> exact Scalar.LawfulOrder.lt_irrefl x

theorem isBetter_asymm (better : d.isBetter x y = true) : d.isBetter y x = false := by
  cases d <;> exact Scalar.lt_asymm better

theorem isBetter_trans (first : d.isBetter x y = true) (second : d.isBetter y z = true) :
    d.isBetter x z = true := by
  cases d with
  | minimize => exact Scalar.LawfulOrder.lt_trans first second
  | maximize => exact Scalar.LawfulOrder.lt_trans second first

/-- A number is better than the worse or worse than the better of two others. -/
theorem isBetter_or_isBetter (z : α) (defined : Scalar.isNaN z = false)
    (better : d.isBetter x y = true) : d.isBetter x z = true ∨ d.isBetter z y = true := by
  cases d with
  | minimize => exact Scalar.LawfulOrder.lt_or_lt z defined better
  | maximize => exact (Scalar.LawfulOrder.lt_or_lt z defined better).symm

/-- Two numbers are equal when neither is better. -/
theorem eq_iff_not_isBetter (left : Scalar.isNaN x = false) (right : Scalar.isNaN y = false) :
    (x == y) = true ↔ d.isBetter x y = false ∧ d.isBetter y x = false := by
  rw [Scalar.LawfulOrder.eq_iff]
  cases d with
  | minimize => simp [isBetter, left, right]
  | maximize => simp [isBetter, left, right, and_comm]

/-- Being no better passes through a number. -/
theorem not_isBetter_trans (defined : Scalar.isNaN y = false)
    (first : d.isBetter y x = false) (second : d.isBetter z y = false) :
    d.isBetter z x = false := by
  rw [Bool.eq_false_iff]
  intro better
  rcases isBetter_or_isBetter y defined better with above | below
  · rw [second] at above
    contradiction
  · rw [first] at below
    contradiction

theorem isBetter_congr_left (same : (x == y) = true) (z : α) :
    d.isBetter x z = d.isBetter y z := by
  rw [Bool.eq_iff_iff]
  cases d with
  | minimize =>
    exact ⟨Scalar.lt_of_eq_of_lt (Scalar.eq_symm same), Scalar.lt_of_eq_of_lt same⟩
  | maximize =>
    exact ⟨fun better => Scalar.lt_of_lt_of_eq better same,
      fun better => Scalar.lt_of_lt_of_eq better (Scalar.eq_symm same)⟩

theorem isBetter_congr_right (x : α) (same : (y == z) = true) :
    d.isBetter x y = d.isBetter x z := by
  cases d with
  | minimize => exact isBetter_congr_left (d := .maximize) same x
  | maximize => exact isBetter_congr_left (d := .minimize) same x

/-- The worst value is a number, so a record can start from it. -/
theorem worst_defined : Scalar.isNaN (d.worst : α) = false := by
  cases d with
  | minimize => exact Scalar.LawfulOrder.infinity_defined
  | maximize => exact Scalar.LawfulOrder.neg_infinity_defined

/-- A value may stand before another that is undefined, and before a number that is not
better. -/
theorem compare_ne_gt : (d.compare x y != .gt) = true ↔
    Scalar.isNaN y = true ∨ Scalar.isNaN x = false ∧ d.isBetter y x = false := by
  unfold compare
  cases left : Scalar.isNaN x <;> cases right : Scalar.isNaN y
  · cases ahead : d.isBetter x y with
    | true => simp [isBetter_asymm ahead]
    | false => cases d.isBetter y x <;> simp
  · simp
  · simp
  · simp

theorem compare_total (x y : α) :
    ((d.compare x y != .gt) || (d.compare y x != .gt)) = true := by
  rw [Bool.or_eq_true, compare_ne_gt, compare_ne_gt]
  cases left : Scalar.isNaN x with
  | true => exact .inr (.inl rfl)
  | false =>
    cases right : Scalar.isNaN y with
    | true => exact .inl (.inl rfl)
    | false =>
      cases ahead : d.isBetter x y with
      | true => exact .inl (.inr ⟨rfl, isBetter_asymm ahead⟩)
      | false => exact .inr (.inr ⟨rfl, rfl⟩)

theorem compare_trans (x y z : α) (first : (d.compare x y != .gt) = true)
    (second : (d.compare y z != .gt) = true) : (d.compare x z != .gt) = true := by
  rw [compare_ne_gt] at first second ⊢
  rcases second with undefined | ⟨defined, behind⟩
  · exact .inl undefined
  · rcases first with undefined | ⟨number, before⟩
    · rw [defined] at undefined
      contradiction
    · exact .inr ⟨number, not_isBetter_trans defined before behind⟩

/-- The values stand in a total order, in which comparing and being better agree. Equal values may
still be different, as zeros of either sign are. -/
structure Orders (d : Direction) (xs : List α) : Prop where
  /-- Comparing says which of two values is better, and that neither is when they are equal. -/
  agree : ∀ x ∈ xs, ∀ y ∈ xs, (d.compare x y = .lt ↔ d.isBetter x y = true) ∧
    (d.compare x y = .gt ↔ d.isBetter y x = true) ∧ (d.compare x y = .eq ↔ (x == y) = true)
  irrefl : ∀ x ∈ xs, d.isBetter x x = false
  trans : ∀ x ∈ xs, ∀ y ∈ xs, ∀ z ∈ xs, d.isBetter x y = true → d.isBetter y z = true →
    d.isBetter x z = true
  /-- Of two values that are not equal one is better. -/
  total : ∀ x ∈ xs, ∀ y ∈ xs, (x == y) = false → d.isBetter x y = true ∨ d.isBetter y x = true
  /-- Equal values stand at the same place. -/
  congr : ∀ x ∈ xs, ∀ y ∈ xs, ∀ z ∈ xs, (x == y) = true →
    d.isBetter x z = d.isBetter y z ∧ d.isBetter z x = d.isBetter z y

/-- Either direction orders numbers. -/
theorem orders_of_defined {xs : List α} (defined : ∀ x ∈ xs, Scalar.isNaN x = false) :
    d.Orders xs := by
  refine ⟨?_, ?_, ?_, ?_, ?_⟩
  · intro x first y second
    rw [eq_iff_not_isBetter (d := d) (defined x first) (defined y second), compare,
      defined x first, defined y second]
    dsimp only
    cases ahead : d.isBetter x y with
    | true => simp [isBetter_asymm ahead]
    | false => cases d.isBetter y x <;> simp
  · intro x _
    exact isBetter_irrefl
  · intro x _ y _ z _ first second
    exact isBetter_trans first second
  · intro x first y second different
    cases ahead : d.isBetter x y with
    | true => exact .inl rfl
    | false =>
      cases behind : d.isBetter y x with
      | true => exact .inr rfl
      | false =>
        have same := (eq_iff_not_isBetter (defined x first) (defined y second)).mpr ⟨ahead, behind⟩
        rw [different] at same
        contradiction
  · intro x _ y _ z _ same
    exact ⟨isBetter_congr_left same z, isBetter_congr_right z same⟩

end Metaheuristic.Direction
