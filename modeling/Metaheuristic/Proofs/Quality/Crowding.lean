import Metaheuristic.Proofs.Number.Shares
import Metaheuristic.Proofs.Sorting
import Metaheuristic.Quality.Crowding

/-! Crowding distances. Points of one dimension all get one. A distance is infinite
for two points of every coordinate, the first and the last in its order, and otherwise
a sum of shares, at most one for every coordinate. So with more points than there are
ends some point has a finite distance. -/
namespace Metaheuristic.Crowding

section Sizes

variable {α : Type} [Scalar α] {points : Array (List α)} {k : Nat} {range : α}

theorem addGaps_size (order : List Nat) (distance : Array α) :
    (addGaps points k range order distance).size = distance.size := by
  fun_induction addGaps points k range order distance with
  | case1 a b c rest distance gap ih => rw [ih, Array.size_modify]
  | case2 => rfl

variable (points) in
theorem addCoordinate_size (state : List Nat × Array α) :
    (addCoordinate points state k).2.size = state.2.size := by
  unfold addCoordinate
  dsimp only
  split <;> simp [addGaps_size]

/-- Points of one dimension all get a distance. -/
theorem distances_ok {points : List (List α)} {dimension : Nat}
    (sized : ∀ p ∈ points, p.length = dimension) :
    ∃ distance, distances points = .ok distance ∧ distance.length = points.length := by
  unfold distances
  split
  · exact ⟨_, rfl, List.length_replicate⟩
  · have level : points.any (fun p => p.length < (points.headD []).length) = false := by
      rw [List.any_eq_false]
      intro p member
      cases points with
      | nil => cases member
      | cons first rest => simp [sized p member, sized first List.mem_cons_self]
    have kept (ks : List Nat) (state : List Nat × Array α) :
        (ks.foldl (addCoordinate points.toArray) state).2.size = state.2.size := by
      induction ks generalizing state with
      | nil => rfl
      | cons k ks ih => rw [List.foldl_cons, ih, addCoordinate_size]
    simp only [level]
    exact ⟨_, rfl, by simp [kept]⟩

end Sizes

section Spread

variable {α : Type} [Scalar α] {points : Array (List α)} {k n : Nat}

/-- One point comes no later than another in the order of a coordinate. -/
def Ahead (points : Array (List α)) (k i j : Nat) : Prop :=
  Scalar.totalOrder (coordinate points k i) (coordinate points k j) ≠ .gt

theorem addGaps_of_not_mem {range : α} {order : List Nat} {distance : Array α} {i : Nat}
    (absent : i ∉ order.tail) : (addGaps points k range order distance)[i]? = distance[i]? := by
  fun_induction addGaps points k range order distance with
  | case1 a b c rest distance gap ih =>
    simp only [List.tail_cons, List.mem_cons, not_or] at absent ih
    rw [ih (by simp [absent]), Array.getElem?_modify, if_neg (Ne.symm absent.1)]
  | case2 => rfl

section Order

variable [Scalar.LawfulTotal α]

/-- The order of a coordinate places every point, ties in the order of before. -/
theorem sort_spec (points : Array (List α)) (k : Nat) (order : List Nat) :
    let sorted := order.mergeSort fun a b =>
      Scalar.totalOrder (coordinate points k a) (coordinate points k b) != .gt
    sorted.Perm order ∧ sorted.Pairwise (Ahead points k) := by
  have _ := Sorting.transCmp_on Scalar.totalOrder (coordinate points k)
  exact ⟨List.mergeSort_perm .., Sorting.pairwise_mergeSort (fun a b =>
    Scalar.totalOrder (coordinate points k a) (coordinate points k b)) order⟩

/-- The first and the last point of a sorted order. -/
private theorem exists_ends {order : List Nat} (some : order ≠ [])
    (sorted : order.Pairwise (Ahead points k)) :
    order.headD 0 ∈ order ∧ order.getLastD 0 ∈ order ∧
      ∀ i ∈ order, Ahead points k (order.headD 0) i ∧ Ahead points k i (order.getLastD 0) := by
  have itself (i : Nat) : Ahead points k i i := by
    have same : Scalar.totalOrder (coordinate points k i) (coordinate points k i) = .eq :=
      Std.ReflCmp.compare_self
    rw [Ahead, same]
    decide
  obtain ⟨first, rest, leads⟩ := List.exists_cons_of_ne_nil some
  obtain ⟨front, last, ends⟩ := (List.eq_nil_or_concat order).resolve_left some
  rw [List.concat_eq_append] at ends
  have head : order.headD 0 = first := by rw [leads, List.headD_cons]
  have final : order.getLastD 0 = last := by simp [ends]
  rw [head, final]
  refine ⟨by simp [leads], by simp [ends], fun i member => ⟨?_, ?_⟩⟩
  · rw [leads] at sorted member
    rcases List.mem_cons.mp member with rfl | later
    · exact itself _
    · exact List.rel_of_pairwise_cons sorted later
  · rw [ends] at sorted member
    rcases List.mem_append.mp member with earlier | same
    · exact (List.pairwise_append.mp sorted).2.2 i earlier last List.mem_cons_self
    · rw [List.mem_singleton.mp same]
      exact itself last

end Order

variable [Scalar.LawfulShares α]

/-- A sorted order of coordinates inside a finite range adds a share to each distance, and to
each at most once. -/
theorem addGaps_getElem? {lo hi : α} (finite : Scalar.isFinite (hi - lo) = true)
    (wide : Scalar.lt Scalar.zero (hi - lo) = true) {order : List Nat} {distance : Array α}
    (once : order.Nodup) (sorted : order.Pairwise (Ahead points k))
    (between : ∀ a ∈ order, Scalar.totalOrder lo (coordinate points k a) ≠ .gt ∧
      Scalar.totalOrder (coordinate points k a) hi ≠ .gt) (i : Nat) :
    ∃ more : List α, (∀ s ∈ more, Scalar.IsShare s) ∧ more.length ≤ 1 ∧
      (addGaps points k (hi - lo) order distance)[i]? =
        distance[i]?.map fun d => more.foldl (· + ·) d := by
  fun_induction addGaps points k (hi - lo) order distance with
  | case1 a b c rest distance gap ih =>
    have share : Scalar.IsShare gap := Scalar.LawfulShares.share finite wide
      (between a List.mem_cons_self).1 (List.rel_of_pairwise_cons sorted (by simp))
      (between c (by simp)).2
    have onceRest := (List.nodup_cons.mp once).2
    by_cases here : i = b
    · subst here
      have later : i ∉ (i :: c :: rest).tail := (List.nodup_cons.mp onceRest).1
      refine ⟨[gap], by simpa using share, le_rfl, ?_⟩
      rw [addGaps_of_not_mem later, Array.getElem?_modify, if_pos rfl]
      rfl
    · obtain ⟨more, all, few, added⟩ := ih onceRest (List.pairwise_cons.mp sorted).2
        fun x member => between x (List.mem_cons_of_mem _ member)
      refine ⟨more, all, few, ?_⟩
      rw [added, Array.getElem?_modify, if_neg (Ne.symm here)]
  | case2 order distance short =>
    exact ⟨[], nofun, Nat.zero_le 1, (Option.map_id_apply).symm⟩

omit [Scalar.LawfulShares α] in
/-- The two ends become infinite, and what is infinite stays so. -/
theorem endless_at {distance : Array α} {first last i : Nat} (inside : i < distance.size)
    (other : first ≠ i → last ≠ i → distance[i]? = some Scalar.infinity) :
    ((distance.setIfInBounds first Scalar.infinity).setIfInBounds last Scalar.infinity)[i]? =
      some Scalar.infinity := by
  by_cases final : last = i
  · simp [final, inside]
  · rw [Array.getElem?_setIfInBounds_ne final]
    by_cases leading : first = i
    · simp [leading, inside]
    · rw [Array.getElem?_setIfInBounds_ne leading]
      exact other leading final

/-- Shares do not change what is infinite. -/
theorem foldl_infinity {more : List α} (all : ∀ s ∈ more, Scalar.IsShare s) :
    more.foldl (· + ·) Scalar.infinity = Scalar.infinity := by
  induction more with
  | nil => rfl
  | cons s more ih =>
    rw [List.foldl_cons, Scalar.LawfulShares.infinity_add (all s List.mem_cons_self)]
    exact ih fun t member => all t (List.mem_cons_of_mem _ member)

variable [Scalar.LawfulTotal α]

/-- One coordinate: a first and a last point become infinite, and every distance
grows by at most one share. -/
theorem addCoordinate_spec (points : Array (List α)) (k : Nat) {state : List Nat × Array α}
    (some : state.1 ≠ []) (once : state.1.Nodup) :
    ∃ order distance first last, addCoordinate points state k = (order, distance) ∧
      order.Perm state.1 ∧ first ∈ order ∧ last ∈ order ∧
      (∀ i ∈ order, Ahead points k first i ∧ Ahead points k i last) ∧
      ∀ i : Nat, ∃ more : List α, (∀ s ∈ more, Scalar.IsShare s) ∧ more.length ≤ 1 ∧
        distance[i]? = ((state.2.setIfInBounds first Scalar.infinity).setIfInBounds last
          Scalar.infinity)[i]?.map fun d => more.foldl (· + ·) d := by
  obtain ⟨perm, sorted⟩ := sort_spec points k state.1
  generalize ordered : state.1.mergeSort (fun a b =>
    Scalar.totalOrder (coordinate points k a) (coordinate points k b) != .gt) = order
      at perm sorted
  have nonempty : order ≠ [] := fun none => some (List.nil_perm.mp (none ▸ perm))
  obtain ⟨memFirst, memLast, between⟩ := exists_ends nonempty sorted
  have unfolded := addCoordinate.eq_1 points state k
  simp only [ordered] at unfolded
  split at unfolded
  · rename_i guard
    obtain ⟨wide, finite⟩ := Bool.and_eq_true_iff.mp guard
    exact ⟨_, _, _, _, unfolded, perm, memFirst, memLast, between,
      addGaps_getElem? finite wide (perm.nodup_iff.mpr once) sorted between⟩
  · exact ⟨_, _, _, _, unfolded, perm, memFirst, memLast, between, fun i =>
      ⟨[], nofun, Nat.zero_le 1, (Option.map_id_apply).symm⟩⟩

/-- The distances of `n` points after the first coordinates, given the ends of
these. -/
structure Measured (points : Array (List α)) (n coordinates : Nat) (ends : List Nat)
    (state : List Nat × Array α) : Prop where
  order : state.1.Perm (List.range n)
  size : state.2.size = n
  /-- An end is infinitely far from the others. -/
  outer : ∀ i < n, i ∈ ends → state.2[i]? = some Scalar.infinity
  /-- Every other point has at most one share of each coordinate. -/
  inner : ∀ i < n, i ∉ ends → ∃ shares : List α, state.2[i]? = some (Scalar.sumShares shares) ∧
    (∀ s ∈ shares, Scalar.IsShare s) ∧ shares.length ≤ coordinates
  few : ends.length = 2 * coordinates
  /-- The ends of a coordinate are a least and a greatest point. -/
  extremes : ∀ k < coordinates, ∃ first ∈ ends, ∃ last ∈ ends, first < n ∧ last < n ∧
    ∀ i < n, Ahead points k first i ∧ Ahead points k i last

namespace Measured

variable {coordinates : Nat} {ends : List Nat} {state : List Nat × Array α}

omit [Scalar.LawfulShares α] [Scalar.LawfulTotal α] in
theorem start (points : Array (List α)) (n : Nat) :
    Measured points n 0 [] (List.range n, (List.replicate n Scalar.zero).toArray) where
  order := .refl _
  size := by simp
  outer := nofun
  inner i inside _ := ⟨[], by simp [inside, Scalar.sumShares], nofun, le_rfl⟩
  few := rfl
  extremes := nofun

/-- One more coordinate adds its two ends. -/
theorem step (measured : Measured points n coordinates ends state) (some : 0 < n) :
    ∃ more, Measured points n (coordinates + 1) more (addCoordinate points state coordinates) := by
  have nonempty : state.1 ≠ [] := by
    intro none
    have length := measured.order.length_eq
    rw [none, List.length_range, List.length_nil] at length
    omega
  obtain ⟨order, distance, first, last, result, perm, memFirst, memLast, between, gaps⟩ :=
    addCoordinate_spec points coordinates nonempty
      (measured.order.nodup_iff.mpr List.nodup_range)
  have size : distance.size = n := by
    have kept := addCoordinate_size points (k := coordinates) state
    rw [result] at kept
    exact kept.trans measured.size
  have inside {i : Nat} : i ∈ order ↔ i < n :=
    (perm.trans measured.order).mem_iff.trans List.mem_range
  rw [result]
  refine ⟨first :: last :: ends, ?_⟩
  constructor
  case order => exact perm.trans measured.order
  case size => exact size
  case outer =>
    intro i below member
    obtain ⟨more, all, _, value⟩ := gaps i
    have bound : i < state.2.size := measured.size.symm ▸ below
    rw [value, endless_at bound, Option.map_some, foldl_infinity all]
    intro notFirst notLast
    exact measured.outer i below (by simpa [Ne.symm notFirst, Ne.symm notLast] using member)
  case inner =>
    intro i below absent
    simp only [List.mem_cons, not_or] at absent
    obtain ⟨more, all, one, value⟩ := gaps i
    obtain ⟨shares, before, parts, few⟩ := measured.inner i below absent.2.2
    rw [Array.getElem?_setIfInBounds_ne (Ne.symm absent.2.1),
      Array.getElem?_setIfInBounds_ne (Ne.symm absent.1), before, Option.map_some,
      Scalar.sumShares, ← List.foldl_append] at value
    refine ⟨shares ++ more, value, fun s member => ?_, ?_⟩
    · exact (List.mem_append.mp member).elim (parts s) (all s)
    · rw [List.length_append]
      exact Nat.add_le_add few one
  case few =>
    rw [List.length_cons, List.length_cons, measured.few]
    omega
  case extremes =>
    intro k below
    rcases Nat.lt_succ_iff_lt_or_eq.mp below with earlier | rfl
    · obtain ⟨a, memA, b, memB, rest⟩ := measured.extremes k earlier
      exact ⟨a, by simp [memA], b, by simp [memB], rest⟩
    · exact ⟨first, by simp, last, by simp, inside.mp memFirst, inside.mp memLast,
        fun i inOrder => between i (inside.mpr inOrder)⟩

theorem all (points : Array (List α)) (dimension : Nat) (some : 0 < n) :
    ∃ ends, Measured points n dimension ends ((List.range dimension).foldl (addCoordinate points)
      (List.range n, (List.replicate n Scalar.zero).toArray)) := by
  induction dimension with
  | zero => exact ⟨[], start points n⟩
  | succ dimension ih =>
    obtain ⟨ends, measured⟩ := ih
    rw [List.range_succ, List.foldl_append]
    exact measured.step some

end Measured

/-- The distances of more than two points of one dimension. -/
theorem distances_measured {points : List (List α)} {dimension : Nat}
    (sized : ∀ p ∈ points, p.length = dimension) (many : 2 < points.length) :
    ∃ state ends, distances points = .ok state.2.toList ∧
      Measured points.toArray points.length dimension ends state := by
  obtain ⟨distance, ran, _⟩ := distances_ok sized
  have first : (points.headD []).length = dimension := by
    cases points with
    | nil => cases many
    | cons p rest => exact sized p List.mem_cons_self
  obtain ⟨ends, all⟩ := Measured.all points.toArray dimension (Nat.zero_lt_of_lt many)
  have unfolded := ran
  simp only [distances, if_neg (Nat.not_le.mpr many), first] at unfolded
  split at unfolded
  · cases unfolded
  · exact ⟨_, ends, ran.trans unfolded.symm, all⟩

end Spread
end Metaheuristic.Crowding
