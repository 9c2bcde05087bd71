import Mathlib.Tactic.Tauto
import Metaheuristic.Proofs.Quality.Direction
import Metaheuristic.Quality.Dominance

/-! Dominance is the strict part of one relation. A reward vector is no worse
than another when it is nowhere worse. On vectors of numbers this relation is
reflexive and transitive; dominating means being no worse without the converse,
and having equal rewards means being no worse both ways. -/
namespace Metaheuristic

variable {α : Type} [Scalar α]

/-- The first vector is nowhere worse than the second. -/
def NoWorse : List Direction → List α → List α → Prop
  | d :: ds, x :: xs, y :: ys => d.isBetter y x = false ∧ NoWorse ds xs ys
  | _, _, _ => True

/-- Along some direction the entry of the first vector is strictly better. -/
def SomewhereBetter (ds : List Direction) (a b : List α) : Prop :=
  ∃ (k : Nat) (d : Direction) (x y : α),
    ds[k]? = some d ∧ a[k]? = some x ∧ b[k]? = some y ∧ d.isBetter x y = true

/-- A reward for each direction, and every one of them a number. -/
structure Proper (directions : List Direction) (reward : List α) : Prop where
  length : reward.length = directions.length
  defined : ∀ x ∈ reward, Scalar.isNaN x = false

namespace Proper

theorem tail {d : Direction} {ds : List Direction} {x : α} {xs : List α}
    (proper : Proper (d :: ds) (x :: xs)) : Proper ds xs :=
  ⟨by simpa using proper.length, fun y member => proper.defined y (List.mem_cons_of_mem _ member)⟩

theorem head {d : Direction} {ds : List Direction} {x : α} {xs : List α}
    (proper : Proper (d :: ds) (x :: xs)) : Scalar.isNaN x = false :=
  proper.defined x List.mem_cons_self

end Proper

section Lawless

variable {ds : List Direction} {a b : List α}

private theorem dominatesFrom_iff (strictly : Bool) :
    dominatesFrom ds a b strictly = true ↔
      NoWorse ds a b ∧ (strictly = true ∨ ¬NoWorse ds b a) := by
  induction ds, a, b, strictly using dominatesFrom.induct with
  | case1 d ds x xs y ys strictly worse =>
    simp [dominatesFrom, NoWorse, worse]
  | case2 d ds x xs y ys strictly notWorse ih =>
    rw [dominatesFrom, if_neg notWorse, ih]
    simp only [NoWorse, Bool.not_eq_true] at notWorse ⊢
    cases better : d.isBetter x y <;> simp [notWorse]
  | case3 ds a b strictly short =>
    rcases ds with _ | ⟨d, ds⟩
    · simp [dominatesFrom, NoWorse]
    · rcases a with _ | ⟨x, xs⟩
      · simp [dominatesFrom, NoWorse]
      · rcases b with _ | ⟨y, ys⟩
        · simp [dominatesFrom, NoWorse]
        · exact absurd rfl (short d ds x xs y ys rfl rfl)

/-- Dominating is being nowhere worse and not the other way round. -/
theorem dominates_iff : dominates ds a b = true ↔ NoWorse ds a b ∧ ¬NoWorse ds b a := by
  rw [dominates, dominatesFrom_iff]
  simp

theorem somewhereBetter_cons {d : Direction} {x y : α} :
    SomewhereBetter (d :: ds) (x :: a) (y :: b) ↔
      d.isBetter x y = true ∨ SomewhereBetter ds a b := by
  constructor
  · rintro ⟨_ | k, d', x', y', direction, left, right, better⟩
    · cases direction; cases left; cases right
      exact .inl better
    · exact .inr ⟨k, d', x', y', direction, left, right, better⟩
  · rintro (better | ⟨k, d', x', y', later⟩)
    · exact ⟨0, d, x, y, rfl, rfl, rfl, better⟩
    · exact ⟨k + 1, d', x', y', later⟩

@[simp] theorem not_somewhereBetter_nil : ¬SomewhereBetter [] a b := by
  simp [SomewhereBetter]

@[simp] theorem not_somewhereBetter_nil_left : ¬SomewhereBetter ds [] b := by
  simp [SomewhereBetter]

@[simp] theorem not_somewhereBetter_nil_right : ¬SomewhereBetter ds a [] := by
  simp [SomewhereBetter]

/-- Nowhere worse means that the other vector is nowhere better. -/
theorem noWorse_iff_not_somewhereBetter : NoWorse ds a b ↔ ¬SomewhereBetter ds b a := by
  induction ds generalizing a b with
  | nil => simp [NoWorse]
  | cons d ds ih =>
    cases a with
    | nil => simp [NoWorse]
    | cons x xs =>
      cases b with
      | nil => simp [NoWorse]
      | cons y ys => rw [NoWorse, ih, somewhereBetter_cons, not_or, Bool.not_eq_true]

/-- Dominating is being somewhere better and not the other way round. -/
theorem dominates_iff_somewhereBetter :
    dominates ds a b = true ↔ SomewhereBetter ds a b ∧ ¬SomewhereBetter ds b a := by
  rw [dominates_iff, noWorse_iff_not_somewhereBetter, noWorse_iff_not_somewhereBetter, not_not,
    and_comm]

/-- Nowhere worse, at one place. -/
theorem NoWorse.at (noWorse : NoWorse ds a b) {k : Nat} {d : Direction} {x y : α}
    (direction : ds[k]? = some d) (left : a[k]? = some x) (right : b[k]? = some y) :
    d.isBetter y x = false := by
  rw [Bool.eq_false_iff]
  intro better
  exact noWorse_iff_not_somewhereBetter.mp noWorse ⟨k, d, y, x, direction, right, left, better⟩

/-- A point dominates another when it is somewhere below it and nowhere above. -/
theorem Dominance.compare_eq_dominates :
    compare a b = .dominates ↔ wins a b = true ∧ wins b a = false := by
  unfold compare
  cases wins a b <;> cases wins b a <;> simp

/-- Being nowhere above is being nowhere worse when everything is minimized. -/
theorem Dominance.wins_eq_false {m : Nat} (left : a.length = m) (right : b.length = m) :
    wins b a = false ↔ NoWorse (List.replicate m .minimize) a b := by
  induction m generalizing a b with
  | zero =>
    cases List.eq_nil_of_length_eq_zero left
    simp [wins, NoWorse]
  | succ m ih =>
    obtain ⟨x, xs, rfl⟩ := List.exists_cons_of_length_eq_add_one left
    obtain ⟨y, ys, rfl⟩ := List.exists_cons_of_length_eq_add_one right
    rw [List.replicate_succ, NoWorse, ← ih (Nat.succ.inj left) (Nat.succ.inj right)]
    simp [wins, Direction.isBetter]

/-- Between points dominance is that of rewards that are all minimized. -/
theorem Dominance.compare_eq_dominates_iff {m : Nat} (left : a.length = m)
    (right : b.length = m) : compare a b = .dominates ↔
      Metaheuristic.dominates (List.replicate m .minimize) a b = true := by
  rw [compare_eq_dominates, dominates_iff, wins_eq_false left right, ← wins_eq_false right left,
    Bool.not_eq_false, and_comm]

end Lawless

variable [Scalar.LawfulOrder α] {ds : List Direction} {a b c : List α}

theorem NoWorse.refl (ds : List Direction) (a : List α) : NoWorse ds a a := by
  induction ds generalizing a with
  | nil => simp [NoWorse]
  | cons d ds ih =>
    cases a with
    | nil => simp [NoWorse]
    | cons x xs => exact ⟨Direction.isBetter_irrefl, ih xs⟩

/-- Being nowhere worse passes through a vector of numbers that has an entry wherever the others
are compared. -/
theorem NoWorse.trans_of_defined (covered : min ds.length a.length ≤ b.length)
    (defined : ∀ y ∈ b, Scalar.isNaN y = false) (first : NoWorse ds a b)
    (second : NoWorse ds b c) : NoWorse ds a c := by
  rw [noWorse_iff_not_somewhereBetter]
  rintro ⟨k, d, z, x, direction, placeZ, placeX, better⟩
  have inside : k < b.length := by
    have belowD := (List.getElem?_eq_some_iff.mp direction).1
    have belowX := (List.getElem?_eq_some_iff.mp placeX).1
    omega
  have placeY : b[k]? = some b[k] := List.getElem?_eq_getElem inside
  have passed := Direction.not_isBetter_trans (defined _ (List.mem_of_getElem? placeY))
    (first.at direction placeX placeY) (second.at direction placeY placeZ)
  rw [passed] at better
  contradiction

theorem NoWorse.trans (proper : Proper ds b) (first : NoWorse ds a b) (second : NoWorse ds b c) :
    NoWorse ds a c :=
  first.trans_of_defined (proper.length ▸ Nat.min_le_left ..) proper.defined second

/-- Rewards are equal when neither vector is somewhere worse. -/
theorem sameList_iff (left : Proper ds a) (right : Proper ds b) :
    Scalar.sameList a b = true ↔ NoWorse ds a b ∧ NoWorse ds b a := by
  induction ds generalizing a b with
  | nil =>
    cases List.eq_nil_of_length_eq_zero left.length
    cases List.eq_nil_of_length_eq_zero right.length
    simp [Scalar.sameList, NoWorse]
  | cons d ds ih =>
    cases a with
    | nil => cases left.length
    | cons x xs =>
      cases b with
      | nil => cases right.length
      | cons y ys =>
        simp only [Scalar.sameList, Bool.and_eq_true, NoWorse, ih left.tail right.tail,
          Direction.eq_iff_not_isBetter (d := d) left.head right.head]
        tauto

/-- Dominating passes through a vector of numbers, if the first one has numbers too. -/
theorem dominates_trans_of_defined (coveredB : min ds.length a.length ≤ b.length)
    (coveredA : min ds.length c.length ≤ a.length) (definedA : ∀ x ∈ a, Scalar.isNaN x = false)
    (definedB : ∀ y ∈ b, Scalar.isNaN y = false) (first : dominates ds a b = true)
    (second : dominates ds b c = true) : dominates ds a c = true := by
  rw [dominates_iff] at *
  exact ⟨first.1.trans_of_defined coveredB definedB second.1,
    fun back => second.2 (back.trans_of_defined coveredA definedA first.1)⟩

/-- Dominating is transitive. -/
theorem dominates_trans (left : Proper ds a) (middle : Proper ds b)
    (first : dominates ds a b = true) (second : dominates ds b c = true) :
    dominates ds a c = true :=
  dominates_trans_of_defined (middle.length ▸ Nat.min_le_left ..)
    (left.length ▸ Nat.min_le_left ..) left.defined middle.defined first second

/-- Equal or dominating is the same as nowhere worse. -/
theorem noWorse_iff (left : Proper ds a) (right : Proper ds b) :
    NoWorse ds a b ↔ Scalar.sameList a b = true ∨ dominates ds a b = true := by
  rw [sameList_iff left right, dominates_iff]
  tauto

end Metaheuristic
