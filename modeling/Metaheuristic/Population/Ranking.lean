import Metaheuristic.Population.Basic
import Metaheuristic.Quality.Fronts

/-! Rankings of populations, best row first.

With one objective rows are ranked by fitness. With several they are ranked by
front and, inside a front, from the least crowded row to the most crowded one.
Rows that rank the same keep their order. -/
namespace Metaheuristic.Population

variable {α : Type} [Scalar α]

/-- Positions in stable order of a comparison. -/
def sortedBy (compare : Nat → Nat → Ordering) (n : Nat) : List Nat :=
  (List.range n).mergeSort fun a b => compare a b != .gt

/-- The crowding distances inside each front, put back in the places of its
points. -/
def crowdingByFront (points : Array (List α)) :
    List (List Nat) → Array α → Except Fault (Array α)
  | [], crowding => .ok crowding
  | front :: rest, crowding => do
    let distances ← Crowding.distances (front.map fun i => points.getD i [])
    crowdingByFront points rest <|
      (front.zip distances).foldl (fun c entry => c.setIfInBounds entry.1 entry.2) crowding

/-- Ranks points by front and crowding. -/
def rankPoints (points : List (List α)) : Except Fault (List Nat) := do
  let fronts := Fronts.ofPoints points
  let rank := fronts.rank.toArray
  let zeros := (List.replicate points.length Scalar.zero).toArray
  let crowding ← crowdingByFront points.toArray fronts.fronts zeros
  return sortedBy (fun a b =>
    (compare (rank.getD a 0) (rank.getD b 0)).then
      (Scalar.totalOrder (crowding.getD b Scalar.zero) (crowding.getD a Scalar.zero)))
    points.length

/-- Row numbers, best first. -/
def ranking (p : Population α) (region : Region) (directions : List Direction) :
    Except Fault (List Nat) :=
  match directions with
  | [d] =>
    if p.count ≤ 1 then .ok (List.range p.count)
    else do
      let column := (← p.rewardColumn region 0).toArray
      return sortedBy (fun a b =>
        d.compare (column.getD a Scalar.zero) (column.getD b Scalar.zero)) p.count
  | _ => do
    let rewards ← (List.range p.count).mapM fun row => p.reward row region
    rankPoints (rewards.map (toMinima directions))

/-- Reorders whole rows, best first. -/
def sortBestFirst (p : Population α) (region : Region) (directions : List Direction) :
    Except Fault (Population α) := do
  p.reorder (← p.ranking region directions)

end Metaheuristic.Population
