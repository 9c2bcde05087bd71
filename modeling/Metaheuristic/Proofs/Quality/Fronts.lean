import Metaheuristic.Proofs.Number.Double
import Metaheuristic.Proofs.Quality.Dominance
import Metaheuristic.Proofs.Quality.Peeling

/-! Sorting points into fronts. Whatever the points are, peeling comes to an end, lowers no count
below zero and lists no point twice. Points of one dimension without undefined coordinates are
all listed, since dominance has no cycles among them, and the number of the front of a point is
the length of the longest chain of points that ends above it. -/
namespace Metaheuristic.Fronts

variable {α : Type} [Scalar α] {points : List (List α)} {i j : Nat}

/-- Whether one point dominates another, by their positions. -/
def beats (points : List (List α)) (i j : Nat) : Bool :=
  match points[i]?, points[j]? with
  | some a, some b => Dominance.compare a b == .dominates
  | _, _ => false

theorem beats_iff : beats points i j = true ↔
    ∃ a b, points[i]? = some a ∧ points[j]? = some b ∧ Dominance.compare a b = .dominates := by
  unfold beats
  cases points[i]? <;> cases points[j]? <;> simp

theorem beats_irrefl (i : Nat) : beats points i i = false := by
  rw [Bool.eq_false_iff, Ne, beats_iff]
  rintro ⟨a, b, left, right, beaten⟩
  rw [left] at right
  cases right
  rw [Dominance.compare_eq_dominates] at beaten
  simp [beaten.1] at beaten

/-- Between points of numbers dominance is transitive. -/
theorem beats_trans [Scalar.LawfulOrder α] {k m : Nat} (level : ∀ p ∈ points, p.length = m)
    (defined : ∀ p ∈ points, ∀ x ∈ p, Scalar.isNaN x = false) (first : beats points i j = true)
    (second : beats points j k = true) : beats points i k = true := by
  obtain ⟨a, b, placeA, placeB, beaten⟩ := beats_iff.mp first
  obtain ⟨b', c, placeB', placeC, beaten'⟩ := beats_iff.mp second
  rw [placeB] at placeB'
  cases placeB'
  have proper {p : List α} {i : Nat} (place : points[i]? = some p) :
      Proper (List.replicate m .minimize) p :=
    ⟨(level p (List.mem_of_getElem? place)).trans List.length_replicate.symm,
      defined p (List.mem_of_getElem? place)⟩
  have length {p : List α} {i : Nat} (place : points[i]? = some p) : p.length = m :=
    level p (List.mem_of_getElem? place)
  rw [Dominance.compare_eq_dominates_iff (length placeA) (length placeB)] at beaten
  rw [Dominance.compare_eq_dominates_iff (length placeB) (length placeC)] at beaten'
  refine beats_iff.mpr ⟨a, c, placeA, placeC, ?_⟩
  rw [Dominance.compare_eq_dominates_iff (length placeA) (length placeC)]
  exact dominates_trans (proper placeA) (proper placeB) beaten beaten'

section Positions

variable {β : Type} {xs : List β} {keep : β × Nat → Bool}

/-- The positions that a filter of numbered items answers. -/
theorem mem_positions : i ∈ (xs.zipIdx.filter keep).map Prod.snd ↔
    ∃ x, xs[i]? = some x ∧ keep (x, i) = true := by
  rw [List.mem_map]
  constructor
  · rintro ⟨⟨x, i⟩, member, rfl⟩
    obtain ⟨numbered, kept⟩ := List.mem_filter.mp member
    exact ⟨x, List.mem_zipIdx_iff_getElem?.mp numbered, kept⟩
  · rintro ⟨x, place, kept⟩
    exact ⟨(x, i), List.mem_filter.mpr ⟨List.mem_zipIdx_iff_getElem?.mpr place, kept⟩, rfl⟩

theorem nodup_positions : ((xs.zipIdx.filter keep).map Prod.snd).Nodup := by
  refine (List.filter_sublist.map Prod.snd).nodup ?_
  rw [List.zipIdx_map_snd]
  exact List.nodup_range'

/-- Counting items by their positions. -/
theorem countP_positions (f : β → Bool) (xs : List β) :
    (List.range xs.length).countP (fun i => xs[i]?.any f) = xs.countP f := by
  induction xs using List.reverseRecOn with
  | nil => rfl
  | append_singleton xs x ih =>
    have same : (List.range xs.length).countP (fun i => (xs ++ [x])[i]?.any f) =
        (List.range xs.length).countP fun i => xs[i]?.any f := by
      refine List.countP_congr fun i member => ?_
      rw [List.getElem?_append_left (List.mem_range.mp member)]
    rw [List.length_append, List.length_singleton, List.range_succ, List.countP_append, same, ih,
      List.countP_append]
    simp

end Positions

theorem mem_dominated : j ∈ (dominated points).toArray.getD i [] ↔ beats points i j = true := by
  rw [Array.getD_eq_getD_getElem?, List.getElem?_toArray, dominated, List.getElem?_map, beats_iff]
  cases points[i]? with
  | none => simp
  | some a => simp [mem_positions]

theorem dominated_lists (points : List (List α)) :
    Lists points.length (dominated points).toArray where
  once := by
    intro i
    rw [Array.getD_eq_getD_getElem?, List.getElem?_toArray, dominated, List.getElem?_map]
    cases points[i]? with
    | none => exact List.nodup_nil
    | some a => exact nodup_positions
  upper := by
    intro i j above
    obtain ⟨_, _, place, _⟩ := beats_iff.mp (mem_dominated.mp above)
    exact (List.getElem?_eq_some_iff.mp place).1
  lower := by
    intro i j above
    obtain ⟨_, _, _, place, _⟩ := beats_iff.mp (mem_dominated.mp above)
    exact (List.getElem?_eq_some_iff.mp place).1

/-- The counts to start from. -/
theorem dominators_eq (inside : j < points.length) : (dominators points)[j]? =
    some (waiting points.length (dominated points).toArray [] j : Int) := by
  have place := List.getElem?_eq_getElem inside
  rw [dominators, List.getElem?_map, place, Option.map_some, waiting, ← countP_positions]
  congr 2
  refine List.countP_congr fun i _ => ?_
  simp only [mem_dominated, beats, place, List.not_mem_nil, not_false_eq_true, decide_true,
    Bool.and_true, decide_eq_true_eq]
  cases points[i]? <;> simp

theorem start_underway (points : List (List α)) :
    Peeling.Underway points.length (dominated points).toArray (Peeling.start points) := by
  have first : (Peeling.start points).layers.flatten = (Peeling.start points).current := by
    simp [Peeling.layers, Peeling.start]
  have counted {i : Nat} {c : Int} (place : (dominators points)[i]? = some c) :
      i < points.length := by
    have inside := (List.getElem?_eq_some_iff.mp place).1
    rwa [dominators, List.length_map] at inside
  have member (j : Nat) (inside : j < points.length) : j ∈ (Peeling.start points).current ↔
      waiting points.length (dominated points).toArray [] j = 0 := by
    refine mem_positions.trans ?_
    rw [dominators_eq inside]
    simp
  constructor
  case once =>
    rw [first]
    exact nodup_positions
  case inside =>
    intro i listed
    rw [first] at listed
    obtain ⟨_, place, _⟩ := mem_positions.mp listed
    exact counted place
  case size => simp [Peeling.start, dominators]
  case counts => exact fun j inside => List.getElem?_toArray.trans (dominators_eq inside)
  case free =>
    intro j inside
    rw [first]
    exact (member j inside).symm
  case full => exact List.not_mem_nil
  case earlier =>
    intro r layer place j listed i above
    have only : r = 0 := by
      have bound := (List.getElem?_eq_some_iff.mp place).1
      simpa [Peeling.layers, Peeling.start] using bound
    subst only
    cases place
    have inside := (dominated_lists points).lower i j above
    have none := (dominated_lists points).waiting_eq_zero.mp ((member j inside).mp listed) i above
    cases none
  case above =>
    intro r upper lower _ place
    have bound := (List.getElem?_eq_some_iff.mp place).1
    simp [Peeling.layers, Peeling.start] at bound
  case places => simp [Peeling.start]
  case rank =>
    intro r front place
    contradiction

/-- Peeling at its end. -/
def peeled (points : List (List α)) : Peeling :=
  (Peeling.start points).run (dominated points).toArray points.length

theorem peeled_underway (points : List (List α)) :
    Peeling.Underway points.length (dominated points).toArray (peeled points) :=
  (start_underway points).run (dominated_lists points) points.length

theorem peeled_ends (points : List (List α)) : (peeled points).current = [] :=
  (start_underway points).run_ends (dominated_lists points) (Nat.le_add_right _ _)

theorem flatten_ofPoints (points : List (List α)) :
    (ofPoints points).fronts.flatten = (peeled points).layers.flatten := by
  rw [Peeling.Underway.flatten_layers, peeled_ends, List.append_nil]
  rfl

/-- No point is in two fronts or in one front twice. -/
theorem nodup_ofPoints (points : List (List α)) : (ofPoints points).fronts.flatten.Nodup :=
  flatten_ofPoints points ▸ (peeled_underway points).once

theorem length_rank (points : List (List α)) : (ofPoints points).rank.length = points.length :=
  (peeled_underway points).places

/-- The points of a front are among those that were sorted. -/
theorem mem_ofPoints {front : List Nat} (member : front ∈ (ofPoints points).fronts) :
    ∀ i ∈ front, i < points.length := fun i inside =>
  (peeled_underway points).inside i
    (flatten_ofPoints points ▸ List.mem_flatten_of_mem member inside)

theorem rank_of_mem {r : Nat} {front : List Nat} (place : (ofPoints points).fronts[r]? = some front)
    (member : i ∈ front) : (ofPoints points).rank[i]? = some r :=
  Array.getElem?_toList.trans ((peeled_underway points).rank r front place i member)

theorem layer_of_front {r : Nat} {front : List Nat}
    (place : (ofPoints points).fronts[r]? = some front) :
    (peeled points).layers[r]? = some front := by
  have inside := (List.getElem?_eq_some_iff.mp place).1
  exact (List.getElem?_append_left inside).trans place

/-- What dominates a point is in an earlier front. -/
theorem exists_earlier {s : Nat} {front : List Nat}
    (place : (ofPoints points).fronts[s]? = some front) (member : j ∈ front)
    (beaten : beats points i j = true) :
    ∃ r < s, ∃ upper, (ofPoints points).fronts[r]? = some upper ∧ i ∈ upper := by
  have inside := (List.getElem?_eq_some_iff.mp place).1
  have listed := (peeled_underway points).earlier s front (layer_of_front place) j member i
    (mem_dominated.mpr beaten)
  obtain ⟨upper, known, within⟩ := List.mem_flatten.mp listed
  obtain ⟨r, bound, found⟩ := List.mem_iff_getElem.mp known
  rw [List.length_take, Nat.lt_min] at bound
  rw [List.getElem_take] at found
  refine ⟨r, bound.1, upper, ?_, within⟩
  have front := List.getElem?_eq_getElem bound.2
  rw [found] at front
  rw [← front]
  exact (List.getElem?_append_left (bound.1.trans inside)).symm

/-- Every point but those of the first front is dominated by one of the front before. -/
theorem exists_above {r : Nat} {upper lower : List Nat}
    (placeUpper : (ofPoints points).fronts[r]? = some upper)
    (placeLower : (ofPoints points).fronts[r + 1]? = some lower) (member : j ∈ lower) :
    ∃ i ∈ upper, beats points i j = true := by
  obtain ⟨i, inside, beaten⟩ := (peeled_underway points).above r upper lower
    (layer_of_front placeUpper) (layer_of_front placeLower) j member
  exact ⟨i, inside, mem_dominated.mp beaten⟩

/-- A chain of points, each of them dominating the next. -/
def Chain (points : List (List α)) : List Nat → Prop :=
  List.IsChain fun i j => beats points i j = true

/-- Every point of a front ends a chain from the first front on. -/
theorem exists_chain {r : Nat} {front : List Nat}
    (place : (ofPoints points).fronts[r]? = some front) (member : i ∈ front) :
    ∃ c, c.length = r ∧ Chain points (c ++ [i]) := by
  induction r generalizing front i with
  | zero => exact ⟨[], rfl, List.isChain_singleton i⟩
  | succ r ih =>
    have inside : r < (ofPoints points).fronts.length :=
      Nat.lt_of_succ_lt (List.getElem?_eq_some_iff.mp place).1
    have before := List.getElem?_eq_getElem inside
    obtain ⟨j, within, beaten⟩ := exists_above before place member
    obtain ⟨c, length, chain⟩ := ih before within
    refine ⟨c ++ [j], by rw [List.length_append, length, List.length_singleton], ?_⟩
    rw [List.append_assoc, List.singleton_append]
    exact List.isChain_append_cons_cons.mpr ⟨chain, beaten, List.isChain_singleton i⟩

/-- No chain that ends in a front is longer. -/
theorem chain_length_le {r : Nat} {front : List Nat}
    (place : (ofPoints points).fronts[r]? = some front) (member : i ∈ front) {c : List Nat}
    (chain : Chain points (c ++ [i])) : c.length ≤ r := by
  induction c using List.reverseRecOn generalizing r front i with
  | nil => exact Nat.zero_le r
  | append_singleton c j ih =>
    rw [List.append_assoc, List.singleton_append] at chain
    obtain ⟨shorter, beaten, _⟩ := List.isChain_append_cons_cons.mp chain
    obtain ⟨s, before, upper, placeUpper, within⟩ := exists_earlier place member beaten
    have bound := ih placeUpper within shorter
    rw [List.length_append, List.length_singleton]
    omega

/-- Points in layers of dominance. -/
structure Layered (points : List (List α)) (f : Fronts) : Prop where
  /-- Every point is in exactly one front. -/
  placed : f.fronts.flatten.Perm (List.range points.length)
  length : f.rank.length = points.length
  /-- The rank of a point is the number of its front. -/
  rank : ∀ (r : Nat) front, f.fronts[r]? = some front → ∀ i ∈ front, f.rank[i]? = some r
  full : [] ∉ f.fronts
  /-- The first front holds what no point dominates. -/
  first : ∀ i < points.length, i ∈ f.fronts.headD [] ↔ ∀ j, beats points j i = false
  apart : ∀ front ∈ f.fronts, ∀ i ∈ front, ∀ j ∈ front, beats points i j = false
  ordered : ∀ i j, beats points i j = true →
    ∃ r s, f.rank[i]? = some r ∧ f.rank[j]? = some s ∧ r < s
  above : ∀ (r : Nat) upper lower, f.fronts[r]? = some upper → f.fronts[r + 1]? = some lower →
    ∀ j ∈ lower, ∃ i ∈ upper, beats points i j = true
  /-- The rank of a point is the length of the longest chain that leads to it. -/
  longest : ∀ (i r : Nat), f.rank[i]? = some r → (∃ c, c.length = r ∧ Chain points (c ++ [i])) ∧
    ∀ c, Chain points (c ++ [i]) → c.length ≤ r

/-- Points of one dimension whose coordinates are all numbers. -/
structure Comparable (points : List (List α)) (dimension : Nat) : Prop where
  level : ∀ p ∈ points, p.length = dimension
  defined : ∀ p ∈ points, ∀ x ∈ p, Scalar.isNaN x = false

section Comparable

variable [Scalar.LawfulOrder α] {dimension : Nat} (comparable : Comparable points dimension)

include comparable

/-- No point is left out when dominance has no cycles. -/
theorem Comparable.placed :
    (ofPoints points).fronts.flatten.Perm (List.range points.length) := by
  refine (List.perm_ext_iff_of_nodup (nodup_ofPoints points) List.nodup_range).mpr fun i => ?_
  rw [List.mem_range]
  refine ⟨fun listed => ?_, fun inside => ?_⟩
  · obtain ⟨front, member, within⟩ := List.mem_flatten.mp listed
    exact mem_ofPoints member i within
  · refine Peeling.Underway.complete (dominated_lists points) (peeled_underway points)
      (peeled_ends points) (fun i above => ?_) (fun i j k first second => ?_) inside
    · have itself := mem_dominated.mp above
      rw [beats_irrefl] at itself
      cases itself
    · exact mem_dominated.mpr (beats_trans comparable.level comparable.defined
        (mem_dominated.mp first) (mem_dominated.mp second))

theorem Comparable.exists_front (inside : i < points.length) :
    ∃ (r : Nat) (front : List Nat),
      (ofPoints points).fronts[r]? = some front ∧ i ∈ front := by
  obtain ⟨front, known, within⟩ :=
    List.mem_flatten.mp (comparable.placed.mem_iff.mpr (List.mem_range.mpr inside))
  obtain ⟨r, place⟩ := List.mem_iff_getElem?.mp known
  exact ⟨r, front, place, within⟩

theorem Comparable.ordered (beaten : beats points i j = true) :
    ∃ r s, (ofPoints points).rank[i]? = some r ∧ (ofPoints points).rank[j]? = some s ∧ r < s := by
  obtain ⟨_, _, _, placeJ, _⟩ := beats_iff.mp beaten
  obtain ⟨s, front, place, member⟩ :=
    comparable.exists_front (List.getElem?_eq_some_iff.mp placeJ).1
  obtain ⟨r, before, upper, placeUpper, within⟩ := exists_earlier place member beaten
  exact ⟨r, s, rank_of_mem placeUpper within, rank_of_mem place member, before⟩

/-- The first front is what nothing dominates. -/
theorem Comparable.mem_first (inside : i < points.length) :
    i ∈ (ofPoints points).fronts.headD [] ↔ ∀ j, beats points j i = false := by
  obtain ⟨r, front, place, member⟩ := comparable.exists_front inside
  constructor
  · intro leading j
    rw [Bool.eq_false_iff]
    intro beaten
    have some : (ofPoints points).fronts ≠ [] := by
      intro none
      rw [none] at place
      cases place
    obtain ⟨first, rest, split⟩ := List.exists_cons_of_ne_nil some
    rw [split, List.headD_cons] at leading
    have head : (ofPoints points).fronts[0]? = .some first := by rw [split]; rfl
    obtain ⟨_, before, _⟩ := exists_earlier head leading beaten
    exact Nat.not_lt_zero _ before
  · intro free
    cases r with
    | zero =>
      rw [← List.head?_eq_getElem?] at place
      rwa [List.headD_eq_head?_getD, place]
    | succ r =>
      have bound : r < (ofPoints points).fronts.length :=
        Nat.lt_of_succ_lt (List.getElem?_eq_some_iff.mp place).1
      obtain ⟨j, _, beaten⟩ := exists_above (List.getElem?_eq_getElem bound) place member
      rw [free j] at beaten
      cases beaten

theorem Comparable.layered : Layered points (ofPoints points) where
  placed := comparable.placed
  length := length_rank points
  rank := fun _ _ place _ => rank_of_mem place
  full := (peeled_underway points).full
  first := fun _ => comparable.mem_first
  apart := by
    intro front known i memberI j memberJ
    obtain ⟨r, place⟩ := List.mem_iff_getElem?.mp known
    rw [Bool.eq_false_iff]
    intro beaten
    obtain ⟨s, t, rankI, rankJ, before⟩ := comparable.ordered beaten
    rw [rank_of_mem place memberI] at rankI
    rw [rank_of_mem place memberJ] at rankJ
    cases rankI
    cases rankJ
    exact Nat.lt_irrefl r before
  ordered := fun _ _ => comparable.ordered
  above := fun _ _ _ placeUpper placeLower _ => exists_above placeUpper placeLower
  longest := by
    intro i r ranked
    have inside : i < points.length := by
      have bound := (List.getElem?_eq_some_iff.mp ranked).1
      rwa [length_rank] at bound
    obtain ⟨s, front, place, member⟩ := comparable.exists_front inside
    rw [rank_of_mem place member] at ranked
    cases ranked
    exact ⟨exists_chain place member, fun c => chain_length_le place member⟩

end Comparable

/-- No release of a wave lowers a count below zero, however far the wave has come. -/
def Peeling.CountsStayUp (below : Array (List Nat)) (p : Peeling) : Prop :=
  ∀ done rest, p.released below = done ++ rest →
    ∀ c ∈ (done.foldl release (p.counts, [])).1, 0 ≤ c

theorem counts_stay_up (points : List (List α)) (waves : Nat) :
    ((Peeling.start points).run (dominated points).toArray waves).CountsStayUp
      (dominated points).toArray := fun _ _ split _ member =>
  ((start_underway points).run (dominated_lists points) waves).counts_nonneg
    (dominated_lists points) split member

/-- Sorting points into fronts, whatever their coordinates, undefined ones included: after at
most as many waves as there are points nothing is left to peel off, no wave lowers a count below
zero, and no point is listed twice. Points of one dimension without undefined coordinates come
out in layers of dominance. -/
theorem sorting_layers [Scalar.LawfulOrder α] (points : List (List α)) :
    (peeled points).current = [] ∧
    (∀ waves, ((Peeling.start points).run (dominated points).toArray waves).CountsStayUp
      (dominated points).toArray) ∧
    (ofPoints points).fronts.flatten.Nodup ∧
    ∀ dimension, Comparable points dimension → Layered points (ofPoints points) :=
  ⟨peeled_ends points, counts_stay_up points, nodup_ofPoints points,
    fun _ comparable => comparable.layered⟩

/-- Three points on the first front, one behind them, one behind that. -/
def staggered : List (List Float) := [[1, 5], [3, 3], [5, 1], [4, 4], [6, 6]]

/-- Three points each of which dominates the next, the last one the first. -/
def circle : List (List Float) :=
  [[1, Scalar.notANumber, 2], [2, 1, Scalar.notANumber], [Scalar.notANumber, 2, 1]]

/-- Undefined coordinates can leave every point out; without them none is. -/
theorem sorting_layers_staggered :
    ofPoints staggered = ⟨[0, 0, 0, 1, 2], [[0, 1, 2], [3], [4]]⟩ ∧
    Comparable staggered 2 ∧ Layered staggered (ofPoints staggered) ∧
    beats circle 0 1 = true ∧ beats circle 1 2 = true ∧ beats circle 2 0 = true ∧
    (peeled circle).current = [] ∧ (ofPoints circle).fronts = [] := by
  have comparable : Comparable staggered 2 := ⟨by decide +kernel, by decide +kernel⟩
  exact ⟨by decide +kernel, comparable, (sorting_layers staggered).2.2.2 2 comparable,
    by decide +kernel, by decide +kernel, by decide +kernel, (sorting_layers circle).1,
    by decide +kernel⟩

end Metaheuristic.Fronts
