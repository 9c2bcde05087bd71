import Metaheuristic.Quality.Dominance

/-! Non-dominated sorting.

For each point the dominating points outside the fronts found so far are
counted. The points with count zero make the next front, and peeling it off
lowers the counts of the points that it dominates. -/
namespace Metaheuristic

/-- Points by front: the number of each point's front, and the points of each
front. -/
structure Fronts where
  rank : List Nat
  fronts : List (List Nat)
  deriving DecidableEq, Repr

namespace Fronts

/-- Peeling under way. -/
structure Peeling where
  /-- For each point, the number of dominating points not peeled off. -/
  counts : Array Int
  rank : Array Nat
  fronts : List (List Nat)
  /-- The front to be peeled off next. -/
  current : List Nat

variable {α : Type} [Scalar α]

/-- For each point, the points that it dominates. -/
def dominated (points : List (List α)) : List (List Nat) :=
  points.map fun a =>
    (points.zipIdx.filter fun b => Dominance.compare a b.1 == .dominates).map Prod.snd

/-- For each point, the number of points that dominate it. -/
def dominators (points : List (List α)) : List Int :=
  points.map fun b =>
    Int.ofNat (points.countP fun a => Dominance.compare a b == .dominates)

/-- Lowers the count of a point and adds it to the next front once it is zero. -/
def release : Array Int × List Nat → Nat → Array Int × List Nat
  | (counts, next), j =>
    let count := counts.getD j 0 - 1
    (counts.setIfInBounds j count, if count = 0 then next ++ [j] else next)

def Peeling.step (below : Array (List Nat)) (p : Peeling) : Peeling :=
  let released := p.current.flatMap (fun i => below.getD i [])
  let (counts, next) := released.foldl release (p.counts, [])
  { counts := counts
    rank := p.current.foldl (fun rank i => rank.setIfInBounds i p.fronts.length) p.rank
    fronts := p.fronts ++ [p.current]
    current := next }

/-- Peels until nothing is left, at most `fuel` times. -/
def Peeling.run (below : Array (List Nat)) : Nat → Peeling → Peeling
  | 0, p => p
  | fuel + 1, p => if p.current.isEmpty then p else run below fuel (p.step below)

/-- Peeling before the first front. -/
def Peeling.start (points : List (List α)) : Peeling :=
  let counts := dominators points
  { counts := counts.toArray
    rank := (List.replicate points.length 0).toArray
    fronts := []
    current := (counts.zipIdx.filter fun c => c.1 == 0).map Prod.snd }

/-- Sorts points into fronts. No front is empty, so there are at most as many as
points. -/
def ofPoints (points : List (List α)) : Fronts :=
  let p := (Peeling.start points).run (dominated points).toArray points.length
  ⟨p.rank.toList, p.fronts⟩

end Fronts
end Metaheuristic
