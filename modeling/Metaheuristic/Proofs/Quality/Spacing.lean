import Metaheuristic.Proofs.Number.Gaps
import Metaheuristic.Proofs.Quality.Crowding

/-! Crowding distances stand from zero on in the total order, with any arithmetic whose gaps do:
they start at zero, the ends of a coordinate become infinite, and the gaps of a sorted coordinate
are not below zero. So distances that are equal numbers also rank the same. -/
namespace Metaheuristic.Crowding

variable {α : Type} [Scalar α] [Scalar.LawfulTotal α] [Scalar.LawfulGaps α]
  {points : Array (List α)} {k : Nat}

/-- Every distance stands from zero on. -/
def Spaced (distance : Array α) : Prop :=
  ∀ (i : Nat) d, distance[i]? = some d → Scalar.FromZero d

omit [Scalar.LawfulGaps α] in
theorem fromZero_zero : Scalar.FromZero (Scalar.zero : α) := by
  have same : Scalar.totalOrder (Scalar.zero : α) Scalar.zero = .eq := Std.ReflCmp.compare_self
  rw [Scalar.FromZero, same]
  decide

omit [Scalar.LawfulTotal α] in
theorem Spaced.end {distance : Array α} (spaced : Spaced distance) (i : Nat) :
    Spaced (distance.setIfInBounds i Scalar.infinity) := by
  intro j d place
  rw [Array.getElem?_setIfInBounds] at place
  split at place
  · split at place
    · cases place
      exact Scalar.LawfulGaps.fromZero_infinity
    · cases place
  · exact spaced j d place

theorem Spaced.addGaps {range : α} (positive : Scalar.lt Scalar.zero range = true)
    {order : List Nat} (sorted : order.Pairwise (Ahead points k)) {distance : Array α}
    (spaced : Spaced distance) :
    Spaced (addGaps points k range order distance) := by
  fun_induction Crowding.addGaps points k range order distance with
  | case1 a b c rest distance gap ih =>
    refine ih (List.pairwise_cons.mp sorted).2 fun j d place => ?_
    have ordered := (List.pairwise_cons.mp sorted).1 c (by simp)
    have nonneg : Scalar.lt gap Scalar.zero = false :=
      Scalar.LawfulGaps.not_gap_lt_zero (Scalar.not_lt_of_totalOrder ordered) positive
    rw [Array.getElem?_modify] at place
    split at place
    · obtain ⟨old, before, rfl⟩ := Option.map_eq_some_iff.mp place
      exact Scalar.LawfulGaps.fromZero_add (spaced _ _ before) nonneg
    · exact spaced j d place
  | case2 => exact spaced

theorem Spaced.addCoordinate {state : List Nat × Array α} (spaced : Spaced state.2) :
    Spaced (addCoordinate points state k).2 := by
  unfold Crowding.addCoordinate
  dsimp only
  split
  · rename_i guard
    exact ((spaced.end _).end _).addGaps (Bool.and_eq_true_iff.mp guard).1
      (sort_spec points k state.1).2
  · exact (spaced.end _).end _

/-- All distances of points stand from zero on. -/
theorem distances_fromZero {points : List (List α)} {ds : List α}
    (measured : distances points = .ok ds) : ∀ d ∈ ds, Scalar.FromZero d := by
  unfold distances at measured
  split at measured
  · cases measured
    intro d member
    rw [List.eq_of_mem_replicate member]
    exact Scalar.LawfulGaps.fromZero_infinity
  · dsimp only at measured
    split at measured
    · cases measured
    · cases measured
      have kept (ks : List Nat) (state : List Nat × Array α) (spaced : Spaced state.2) :
          Spaced (ks.foldl (Crowding.addCoordinate points.toArray) state).2 := by
        induction ks generalizing state with
        | nil => exact spaced
        | cons k ks ih => exact ih _ spaced.addCoordinate
      intro d member
      obtain ⟨i, place⟩ := List.mem_iff_getElem?.mp member
      refine kept _ _ (fun j e start => ?_) i d (Array.getElem?_toList.symm.trans place)
      rw [List.getElem?_toArray] at start
      rw [List.eq_of_mem_replicate (List.mem_of_getElem? start)]
      exact fromZero_zero

end Metaheuristic.Crowding
