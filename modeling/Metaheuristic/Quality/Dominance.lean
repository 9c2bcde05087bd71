import Metaheuristic.Quality.Direction

/-! Dominance between reward vectors.

A vector dominates another when it is nowhere worse and somewhere better. The
same relation is written twice: for points that are all to be minimized, and for
rewards under their directions. -/
namespace Metaheuristic

inductive Dominance where
  | dominates
  | dominatedBy
  | equal
  | incomparable
  deriving DecidableEq, Repr

namespace Dominance

variable {α : Type} [Scalar α]

/-- Whether a point is somewhere below another. -/
def wins (a b : List α) : Bool := (List.zipWith Scalar.lt a b).any id

/-- Compares two points to be minimized. -/
def compare (a b : List α) : Dominance :=
  match wins a b, wins b a with
  | true, false => dominates
  | false, true => dominatedBy
  | false, false => equal
  | true, true => incomparable

end Dominance

variable {α : Type} [Scalar α]

/-- Whether a reward vector dominates another, given whether it is already known
to be somewhere better. -/
def dominatesFrom : List Direction → List α → List α → Bool → Bool
  | d :: ds, x :: xs, y :: ys, strictly =>
    if d.isBetter y x then false else dominatesFrom ds xs ys (strictly || d.isBetter x y)
  | _, _, _, strictly => strictly

/-- Whether a reward vector dominates another under the given directions. -/
def dominates (directions : List Direction) (a b : List α) : Bool :=
  dominatesFrom directions a b false

/-- A reward vector as a point to be minimized. -/
def toMinima (directions : List Direction) (reward : List α) : List α :=
  List.zipWith (fun d x => d.toMinimum x) directions reward

end Metaheuristic
