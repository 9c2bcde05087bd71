import Metaheuristic.Proofs.Quality.Crowding

/-! What crowding distances are like, with coordinates that may be infinite or undefined. Every
distance is a number and not negative. Two points and less are infinitely far from each other. Of
more points only the ends of the coordinates are, two for each of them, and what a coordinate adds
to the others is at most one. This needs no more than the laws of shares, so it holds of doubles,
which are rounded, as it does of exact numbers. -/
namespace Metaheuristic.Crowding

/-- The value of a coordinate of a point, as far as there is one. -/
def value? {α : Type} (points : List (List α)) (i k : Nat) : Option α := do
  (← points[i]?)[k]?

theorem value?_eq_some {α : Type} [Scalar α] {points : List (List α)} {i k : Nat} {x : α} :
    value? points i k = some x ↔ ∃ p, points[i]? = some p ∧ k < p.length ∧
      coordinate points.toArray k i = x := by
  rw [value?, Option.bind_eq_bind, Option.bind_eq_some_iff]
  refine exists_congr fun p => and_congr_right fun point => ?_
  obtain ⟨inside, rfl⟩ := List.getElem?_eq_some_iff.mp point
  rw [List.getElem?_eq_some_iff]
  constructor
  · intro ⟨below, entry⟩
    exact ⟨below, by simp [coordinate, inside, List.getD_eq_getElem?_getD, below, entry]⟩
  · intro ⟨below, entry⟩
    exact ⟨below, by simpa [coordinate, inside, List.getD_eq_getElem?_getD, below] using entry⟩

/-- Entries that are only found at some places are not more than these. -/
theorem countP_le_length {β : Type} {p : β → Bool} {xs : List β} {places : List Nat}
    (found : ∀ i x, xs[i]? = some x → p x = true → i ∈ places) : xs.countP p ≤ places.length := by
  rw [← List.length_findIdxs (s := 0)]
  refine (List.nodup_findIdxs.subperm fun i member => ?_).length_le
  obtain ⟨inside, holds⟩ := List.mem_findIdxs_iff_exists_getElem_pos.mp member
  exact found i _ (List.getElem?_eq_getElem inside) holds

variable {α : Type} [Scalar α] [Scalar.LawfulShares α]

theorem finite_zero : Scalar.isFinite (Scalar.zero : α) = true :=
  (Scalar.LawfulShares.sum_shares (List.forall_mem_nil _) (Nat.le_refl 0)).1

variable [Scalar.LawfulOrder α]

omit [Scalar.LawfulShares α] in
theorem not_lt_zero_of_le {x : α} (nonneg : Scalar.le Scalar.zero x = true) :
    Scalar.lt x Scalar.zero = false := by
  rcases Scalar.LawfulOrder.le_iff.mp nonneg with above | same
  · exact Scalar.lt_asymm above
  · exact (Scalar.LawfulOrder.eq_iff.mp same).2.2.2

theorem zero_le_infinity : Scalar.le Scalar.zero (Scalar.infinity : α) = true :=
  Scalar.LawfulOrder.le_iff.mpr (.inl (Scalar.LawfulOrder.finite_iff.mp finite_zero).2)

namespace Measured

variable {points : List (List α)} {coordinates : Nat} {ends : List Nat} {state : List Nat × Array α}
  (measured : Measured points.toArray points.length coordinates ends state)
include measured

omit [Scalar.LawfulShares α] [Scalar.LawfulOrder α] in
theorem length : state.2.toList.length = points.length := by
  rw [Array.length_toList, measured.size]

omit [Scalar.LawfulOrder α] in
/-- An end, or within the number of coordinates. -/
theorem cases {d : α} {i : Nat} (held : state.2.toList[i]? = some d) :
    (i ∈ ends ∧ d = Scalar.infinity) ∨
      Scalar.isFinite d = true ∧ Scalar.le Scalar.zero d = true ∧
        Scalar.le d (Scalar.ofNat coordinates) = true := by
  have below : i < points.length := measured.length ▸ (List.getElem?_eq_some_iff.mp held).1
  rw [Array.getElem?_toList] at held
  by_cases isEnd : i ∈ ends
  · exact .inl ⟨isEnd, Option.some.inj (held.symm.trans (measured.outer i below isEnd))⟩
  · obtain ⟨shares, value, parts, few⟩ := measured.inner i below isEnd
    cases held.symm.trans value
    exact .inr (Scalar.LawfulShares.sum_shares parts few)

theorem countP_le :
    state.2.toList.countP (· == Scalar.infinity) ≤ 2 * coordinates := by
  rw [← measured.few]
  refine countP_le_length fun i d held infinite => ?_
  rcases measured.cases held with ⟨isEnd, _⟩ | ⟨finite, _⟩
  · exact isEnd
  · have below := (Scalar.LawfulOrder.finite_iff.mp finite).2
    rw [(Scalar.LawfulOrder.eq_iff.mp infinite).2.2.1] at below
    cases below

end Measured

variable [Scalar.LawfulTotal α]

/-- Points of one dimension all have a distance, none of them undefined and none negative. One or
two points are infinitely far from each other. Among more, at most two for each coordinate are
infinitely far from the others, among them one that comes first and one that comes last in the total
order of the coordinate, and every other point has a distance between zero and the dimension. -/
theorem distances_well_formed (points : List (List α)) (dimension : Nat)
    (sized : ∀ p ∈ points, p.length = dimension) :
    ∃ ds, distances points = .ok ds ∧ ds.length = points.length ∧
      (∀ d ∈ ds, Scalar.isNaN d = false ∧ Scalar.lt d Scalar.zero = false) ∧
      (points.length ≤ 2 → ∀ d ∈ ds, d = Scalar.infinity) ∧
      (2 < points.length →
        ds.countP (· == Scalar.infinity) ≤ 2 * dimension ∧
        (∀ k < dimension, ∃ first last x y,
          value? points first k = some x ∧ ds[first]? = some Scalar.infinity ∧
          value? points last k = some y ∧ ds[last]? = some Scalar.infinity ∧
          ∀ i z, value? points i k = some z →
            Scalar.totalOrder x z ≠ .gt ∧ Scalar.totalOrder z y ≠ .gt) ∧
        ∀ d ∈ ds, d ≠ Scalar.infinity → Scalar.isFinite d = true ∧
          Scalar.le Scalar.zero d = true ∧ Scalar.le d (Scalar.ofNat dimension) = true) := by
  have infinite : Scalar.isNaN (Scalar.infinity : α) = false ∧
      Scalar.lt Scalar.infinity (Scalar.zero : α) = false :=
    ⟨Scalar.LawfulOrder.infinity_defined, not_lt_zero_of_le zero_le_infinity⟩
  rcases le_or_gt points.length 2 with few | many
  · refine ⟨List.replicate points.length Scalar.infinity, if_pos few, List.length_replicate, ?_, ?_,
      fun many => absurd few (not_le.mpr many)⟩
    · intro d member
      rw [List.eq_of_mem_replicate member]
      exact infinite
    · exact fun _ d member => List.eq_of_mem_replicate member
  · obtain ⟨state, ends, ran, measured⟩ := distances_measured sized many
    refine ⟨_, ran, measured.length, fun d member => ?_, fun few => absurd many (not_lt.mpr few),
      fun _ => ⟨measured.countP_le, fun k below => ?_, fun d member other => ?_⟩⟩
    · obtain ⟨i, held⟩ := List.mem_iff_getElem?.mp member
      rcases measured.cases held with ⟨_, rfl⟩ | ⟨finite, nonneg, _⟩
      · exact infinite
      · exact ⟨Scalar.defined_of_finite finite, not_lt_zero_of_le nonneg⟩
    · obtain ⟨first, isEnd, last, isEnd', inside, inside', order⟩ := measured.extremes k below
      have point {i : Nat} (within : i < points.length) :
          value? points i k = some (coordinate points.toArray k i) :=
        value?_eq_some.mpr ⟨_, List.getElem?_eq_getElem within,
          (sized _ (List.getElem_mem within)).symm ▸ below, rfl⟩
      have outer {i : Nat} (within : i < points.length) (isEnd : i ∈ ends) :
          state.2.toList[i]? = some Scalar.infinity := by
        rw [Array.getElem?_toList]
        exact measured.outer i within isEnd
      refine ⟨first, last, _, _, point inside, outer inside isEnd, point inside',
        outer inside' isEnd', fun i z held => ?_⟩
      obtain ⟨p, found, _, rfl⟩ := value?_eq_some.mp held
      exact order i (List.getElem?_eq_some_iff.mp found).1
    · obtain ⟨i, held⟩ := List.mem_iff_getElem?.mp member
      exact (measured.cases held).resolve_left fun isEnd => other isEnd.2

/-- Five points of the plane, one without a value in the second coordinate, which has no finite
range. -/
def ragged : List (List Float) :=
  [[0.0, Scalar.infinity], [1.0, 3.0], [2.0, Scalar.notANumber], [3.0, -Scalar.infinity],
    [4.0, 5.0]]

/-- At most four of them are ends, so one has a distance up to two. -/
theorem distances_well_formed_ragged :
    (∀ p ∈ ragged, p.length = 2) ∧ 2 < ragged.length ∧
      ∃ ds, distances ragged = .ok ds ∧
        ∃ d ∈ ds, Scalar.le Scalar.zero d = true ∧ Scalar.le d (Scalar.ofNat 2) = true := by
  have sized : ∀ p ∈ ragged, p.length = 2 := by decide
  have many : 2 < ragged.length := by decide
  obtain ⟨ds, ran, length, _, _, rest⟩ := distances_well_formed ragged 2 sized
  obtain ⟨few, _, inner⟩ := rest many
  refine ⟨sized, many, ds, ran, ?_⟩
  have enough : ds.countP (· == Scalar.infinity) ≠ ds.length := by
    rw [length]
    exact (few.trans_lt (by decide)).ne
  rw [Ne, List.countP_eq_length] at enough
  push Not at enough
  obtain ⟨d, member, other⟩ := enough
  refine ⟨d, member, (inner d member ?_).2⟩
  rintro rfl
  exact other (Scalar.eq_refl Scalar.LawfulOrder.infinity_defined)

end Metaheuristic.Crowding
