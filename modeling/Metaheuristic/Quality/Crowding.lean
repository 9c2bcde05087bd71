import Metaheuristic.Fault
import Metaheuristic.Number.Scalar

/-! Crowding distances.

Along each coordinate the first and the last point are infinitely far from the
others, and a point between adds the gap of its neighbours as a fraction of the
whole range. Points with an equal coordinate keep the order of the coordinate
before. -/
namespace Metaheuristic.Crowding

variable {α : Type} [Scalar α]

/-- Coordinate `k` of point `i`. -/
def coordinate (points : Array (List α)) (k i : Nat) : α :=
  (points.getD i []).getD k Scalar.zero

/-- Adds to each inner point of an order the gap between its neighbours. -/
def addGaps (points : Array (List α)) (k : Nat) (range : α) : List Nat → Array α → Array α
  | a :: b :: c :: rest, distance =>
    let gap := (coordinate points k c - coordinate points k a) / range
    addGaps points k range (b :: c :: rest) (distance.modify b (· + gap))
  | _, distance => distance

/-- Sorts by one coordinate and adds its part to the distances. -/
def addCoordinate (points : Array (List α)) (state : List Nat × Array α) (k : Nat) :
    List Nat × Array α :=
  let order := state.1.mergeSort fun a b =>
    Scalar.totalOrder (coordinate points k a) (coordinate points k b) != .gt
  let first := order.headD 0
  let last := order.getLastD 0
  let distance := (state.2.setIfInBounds first Scalar.infinity).setIfInBounds last Scalar.infinity
  let range := coordinate points k last - coordinate points k first
  if Scalar.lt Scalar.zero range && Scalar.isFinite range then
    (order, addGaps points k range order distance)
  else (order, distance)

/-- The distance of each point. One or two points are infinitely far apart;
among more, every point needs all the coordinates of the first. -/
def distances (points : List (List α)) : Except Fault (List α) :=
  if points.length ≤ 2 then .ok (List.replicate points.length Scalar.infinity)
  else
    let dimension := (points.headD []).length
    if points.any (fun p => p.length < dimension) then .error .outOfRange
    else
      let start := (List.range points.length, (List.replicate points.length Scalar.zero).toArray)
      .ok ((List.range dimension).foldl (addCoordinate points.toArray) start).2.toList

end Metaheuristic.Crowding
