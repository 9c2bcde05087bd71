import Metaheuristic.Proofs.Population.Addressed
import Metaheuristic.Proofs.Quality.Crowding
import Metaheuristic.Proofs.Quality.Fronts

/-! Ranking answers. The fronts hold positions of the points that were sorted and no
others, so every point of a front has its rewards, every front has its crowding
distances, and the order names each row once. -/
namespace Metaheuristic

variable {α : Type} [Scalar α] {l : Layout} {n : Nat}

namespace Population

variable {p : Population α} {region : Region} {directions : List Direction}

theorem exists_crowdingByFront {points : List (List α)} {dimension : Nat}
    (level : ∀ p ∈ points, p.length = dimension) {fronts : List (List Nat)}
    (within : ∀ front ∈ fronts, ∀ i ∈ front, i < points.length) (crowding : Array α) :
    ∃ crowding', crowdingByFront points.toArray fronts crowding = .ok crowding' := by
  induction fronts generalizing crowding with
  | nil => exact ⟨crowding, rfl⟩
  | cons front rest ih =>
    have sized : ∀ p ∈ front.map fun i => points.toArray.getD i [], p.length = dimension := by
      intro p member
      obtain ⟨i, inside, rfl⟩ := List.mem_map.mp member
      have below := within front List.mem_cons_self i inside
      rw [Array.getD_eq_getD_getElem?, List.getElem?_toArray, List.getElem?_eq_getElem below]
      exact level _ (List.getElem_mem below)
    obtain ⟨distances, measured, _⟩ := Crowding.distances_ok sized
    rw [crowdingByFront, measured]
    exact ih (fun later member => within later (List.mem_cons_of_mem _ member)) _

/-- Points of one dimension can be ranked. -/
theorem exists_rankPoints {points : List (List α)} {dimension : Nat}
    (level : ∀ p ∈ points, p.length = dimension) : ∃ order, rankPoints points = .ok order := by
  obtain ⟨crowding, measured⟩ :=
    exists_crowdingByFront level (fun front member => Fronts.mem_ofPoints member)
      (List.replicate points.length Scalar.zero).toArray
  unfold rankPoints
  dsimp only
  rw [measured]
  exact ⟨_, rfl⟩

/-- Rows with a reward for each direction can be ranked. -/
theorem Sized.exists_ranking (sized : p.Sized l n) (objectives : l.objectives = directions.length)
    (region : Region) :
    ∃ order, p.ranking region directions = .ok order ∧ order.Perm (List.range n) := by
  have ran : ∃ order, p.ranking region directions = .ok order := by
    unfold ranking
    split
    · split
      · exact ⟨_, rfl⟩
      · obtain ⟨column, read⟩ := sized.exists_rewardColumn (k := 0)
          (objectives ▸ Nat.one_pos) region
        rw [read]
        exact ⟨_, rfl⟩
    · obtain ⟨rewards, read, length, level⟩ :=
        sized.exists_rows fun row below => sized.exists_reward below region
      have dimension : ∀ point ∈ rewards.map (toMinima directions),
          point.length = directions.length := by
        intro point member
        obtain ⟨reward, inside, rfl⟩ := List.mem_map.mp member
        rw [toMinima, List.length_zipWith, level reward inside, objectives, Nat.min_self]
      rw [read]
      exact exists_rankPoints dimension
  obtain ⟨order, ranked⟩ := ran
  exact ⟨order, ranked, sized.count ▸ perm_ranking ranked⟩

theorem Sized.exists_sortBestFirst (sized : p.Sized l n)
    (objectives : l.objectives = directions.length) (region : Region) :
    ∃ q, p.sortBestFirst region directions = .ok q ∧ q.Sized l n := by
  obtain ⟨order, ranked, placed⟩ := sized.exists_ranking objectives region
  unfold Population.sortBestFirst
  rw [ranked]
  exact sized.exists_reorder (placed.length_eq.trans List.length_range)
    fun row member => List.mem_range.mp (placed.mem_iff.mp member)

end Population
end Metaheuristic
