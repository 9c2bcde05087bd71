import Metaheuristic.Proofs.Number.Total
import Metaheuristic.Proofs.Quality.Dominance

/-! Rewards as points to be minimized. A reward and its point have the same order along every
objective, so one reward dominates another under its directions when its point dominates the
other. -/
namespace Metaheuristic

variable {α : Type} [Scalar α] [Scalar.LawfulSigns α]

theorem Direction.lt_toMinimum (d : Direction) (x y : α) :
    Scalar.lt (d.toMinimum x) (d.toMinimum y) = d.isBetter x y := by
  cases d with
  | minimize => exact Scalar.LawfulSigns.lt_one_mul x y
  | maximize => exact Scalar.LawfulSigns.lt_neg_one_mul x y

theorem Direction.isNaN_toMinimum (d : Direction) (x : α) :
    Scalar.isNaN (d.toMinimum x) = Scalar.isNaN x := by
  cases d with
  | minimize => exact Scalar.LawfulSigns.isNaN_one_mul x
  | maximize => exact Scalar.LawfulSigns.isNaN_neg_one_mul x

variable {ds : List Direction} {a b : List α}

omit [Scalar.LawfulSigns α] in
theorem length_toMinima (level : a.length = ds.length) : (toMinima ds a).length = ds.length := by
  rw [toMinima, List.length_zipWith, level, Nat.min_self]

/-- The point of a reward without undefined values has none. -/
theorem toMinima_defined (defined : ∀ x ∈ a, Scalar.isNaN x = false) :
    ∀ x ∈ toMinima ds a, Scalar.isNaN x = false := by
  induction ds generalizing a with
  | nil => nofun
  | cons d ds ih =>
    cases a with
    | nil => nofun
    | cons x xs =>
      intro y member
      rcases List.mem_cons.mp member with rfl | later
      · rw [Direction.isNaN_toMinimum]
        exact defined x List.mem_cons_self
      · exact ih (fun z inside => defined z (List.mem_cons_of_mem _ inside)) y later

/-- A point is somewhere below another when its reward is somewhere better. -/
theorem wins_toMinima :
    Dominance.wins (toMinima ds a) (toMinima ds b) = true ↔ SomewhereBetter ds a b := by
  induction ds generalizing a b with
  | nil => simp [Dominance.wins, toMinima]
  | cons d ds ih =>
    cases a with
    | nil => simp [Dominance.wins, toMinima]
    | cons x xs =>
      cases b with
      | nil => simp [Dominance.wins, toMinima]
      | cons y ys =>
        rw [somewhereBetter_cons, ← ih, ← Direction.lt_toMinimum, ← Bool.or_eq_true]
        rfl

/-- The point of a reward dominates as the reward does. -/
theorem compare_toMinima :
    Dominance.compare (toMinima ds a) (toMinima ds b) = .dominates ↔ dominates ds a b = true := by
  rw [Dominance.compare_eq_dominates, dominates_iff_somewhereBetter, wins_toMinima,
    ← Bool.not_eq_true, wins_toMinima]

end Metaheuristic
