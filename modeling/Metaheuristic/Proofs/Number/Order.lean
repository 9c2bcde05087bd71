import Metaheuristic.Number.Scalar

/-! The order of numbers. Comparing is a strict order in which the values that
are not numbers stand apart, and two numbers are equal when neither is below the
other. Everything that is proved of rewards rests on these laws alone, so it
holds for rounded arithmetic as well as for exact arithmetic. -/
namespace Metaheuristic

/-- The laws of the comparisons. Equality is not identity: zeros of either sign
are equal numbers. -/
class Scalar.LawfulOrder (α : Type) [Scalar α] : Prop where
  /-- Nothing is below itself. -/
  lt_irrefl (x : α) : Scalar.lt x x = false
  /-- Below is transitive. -/
  lt_trans {x y z : α} : Scalar.lt x y = true → Scalar.lt y z = true → Scalar.lt x z = true
  /-- A number lies above the lower or below the upper one of two others. -/
  lt_or_lt {x y : α} (z : α) : Scalar.isNaN z = false → Scalar.lt x y = true →
    Scalar.lt x z = true ∨ Scalar.lt z y = true
  /-- Only numbers are compared. -/
  defined_of_lt {x y : α} : Scalar.lt x y = true →
    Scalar.isNaN x = false ∧ Scalar.isNaN y = false
  /-- Two numbers are equal when neither is below the other. -/
  eq_iff {x y : α} : (x == y) = true ↔
    Scalar.isNaN x = false ∧ Scalar.isNaN y = false ∧
      Scalar.lt x y = false ∧ Scalar.lt y x = false
  /-- Below or equal. -/
  le_iff {x y : α} : Scalar.le x y = true ↔ Scalar.lt x y = true ∨ (x == y) = true
  /-- The finite numbers are those between the infinities. -/
  finite_iff {x : α} : Scalar.isFinite x = true ↔
    Scalar.lt (-Scalar.infinity) x = true ∧ Scalar.lt x Scalar.infinity = true
  /-- The upper infinity is a number. -/
  infinity_defined : Scalar.isNaN (Scalar.infinity : α) = false
  /-- The lower infinity is a number. -/
  neg_infinity_defined : Scalar.isNaN (-Scalar.infinity : α) = false

namespace Scalar

variable {α : Type} [Scalar α] {x y z : α}

theorem eq_refl (defined : isNaN x = false) : (x == x) = true := by
  simpa [isNaN] using defined

variable [LawfulOrder α]

theorem lt_asymm (below : lt x y = true) : lt y x = false := by
  cases above : lt y x with
  | false => rfl
  | true =>
    have cycle := LawfulOrder.lt_trans below above
    rw [LawfulOrder.lt_irrefl] at cycle
    contradiction

theorem defined_of_finite (finite : isFinite x = true) : isNaN x = false :=
  (LawfulOrder.defined_of_lt (LawfulOrder.finite_iff.mp finite).2).1

theorem eq_symm (same : (x == y) = true) : (y == x) = true := by
  obtain ⟨left, right, notBelow, notAbove⟩ := LawfulOrder.eq_iff.mp same
  exact LawfulOrder.eq_iff.mpr ⟨right, left, notAbove, notBelow⟩

theorem lt_of_lt_of_eq (below : lt x y = true) (same : (y == z) = true) : lt x z = true := by
  obtain ⟨_, defined, notBelow, notAbove⟩ := LawfulOrder.eq_iff.mp same
  rcases LawfulOrder.lt_or_lt z defined below with done | above
  · exact done
  · rw [notAbove] at above
    contradiction

theorem lt_of_eq_of_lt (same : (x == y) = true) (below : lt y z = true) : lt x z = true := by
  obtain ⟨defined, _, notBelow, notAbove⟩ := LawfulOrder.eq_iff.mp same
  rcases LawfulOrder.lt_or_lt x defined below with above | done
  · rw [notAbove] at above
    contradiction
  · exact done

theorem eq_trans (first : (x == y) = true) (second : (y == z) = true) : (x == z) = true := by
  have left := (LawfulOrder.eq_iff.mp first).1
  have right := (LawfulOrder.eq_iff.mp second).2.1
  refine LawfulOrder.eq_iff.mpr ⟨left, right, ?_, ?_⟩
  · cases below : lt x z with
    | false => rfl
    | true =>
      have absurd := lt_of_eq_of_lt (eq_symm first) below
      rw [(LawfulOrder.eq_iff.mp second).2.2.1] at absurd
      contradiction
  · cases above : lt z x with
    | false => rfl
    | true =>
      have absurd := lt_of_lt_of_eq above first
      rw [(LawfulOrder.eq_iff.mp second).2.2.2] at absurd
      contradiction

/-- Of two numbers the first is at most the second or above it. -/
theorem le_of_not_lt (left : isNaN x = false) (right : isNaN y = false)
    (notBelow : lt x y = false) : le y x = true := by
  rw [LawfulOrder.le_iff, LawfulOrder.eq_iff]
  cases above : lt y x with
  | true => exact .inl rfl
  | false => exact .inr ⟨right, left, rfl, notBelow⟩

theorem sameList_symm {xs ys : List α} (same : sameList xs ys = true) :
    sameList ys xs = true := by
  induction xs generalizing ys with
  | nil =>
    cases ys with
    | nil => exact same
    | cons y ys => simp [sameList] at same
  | cons x xs ih =>
    cases ys with
    | nil => simp [sameList] at same
    | cons y ys =>
      simp only [sameList, Bool.and_eq_true] at same ⊢
      exact ⟨eq_symm same.1, ih same.2⟩

theorem sameList_trans {xs ys zs : List α} (first : sameList xs ys = true)
    (second : sameList ys zs = true) : sameList xs zs = true := by
  induction xs generalizing ys zs with
  | nil =>
    cases ys with
    | nil => exact second
    | cons y ys => simp [sameList] at first
  | cons x xs ih =>
    cases ys with
    | nil => simp [sameList] at first
    | cons y ys =>
      cases zs with
      | nil => simp [sameList] at second
      | cons z zs =>
        simp only [sameList, Bool.and_eq_true] at first second ⊢
        exact ⟨eq_trans first.1 second.1, ih first.2 second.2⟩

end Scalar
end Metaheuristic
