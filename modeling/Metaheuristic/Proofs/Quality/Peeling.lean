import Mathlib.Data.Fintype.EquivFin
import Mathlib.Order.WellFounded
import Metaheuristic.Quality.Fronts

/-! Peeling off fronts, whatever it is that puts one position above another. Between two waves
the count of a position is the number of those above it that are still there, and the positions
with count zero are exactly the ones peeled off or to be peeled off next. So no count falls below
zero and no position is peeled off twice; a position that is never peeled off has another such
position above it. -/
namespace Metaheuristic.Fronts

/-- Positions from zero to `n`, with those that each one lies above. -/
structure Lists (n : Nat) (below : Array (List Nat)) : Prop where
  once : ∀ i, (below.getD i []).Nodup
  upper : ∀ i, ∀ j ∈ below.getD i [], i < n
  lower : ∀ i, ∀ j ∈ below.getD i [], j < n

/-- The number of positions above `j` that have not been peeled off. -/
def waiting (n : Nat) (below : Array (List Nat)) (peeled : List Nat) (j : Nat) : Nat :=
  (List.range n).countP fun i => decide (j ∈ below.getD i []) && decide (i ∉ peeled)

variable {n : Nat} {below : Array (List Nat)} {peeled : List Nat} {i j : Nat}

theorem Lists.waiting_eq_zero (lists : Lists n below) :
    waiting n below peeled j = 0 ↔ ∀ i, j ∈ below.getD i [] → i ∈ peeled := by
  simp only [waiting, List.countP_eq_zero, List.mem_range, Bool.and_eq_true, decide_eq_true_eq,
    not_and, not_not]
  exact ⟨fun none i above => none i (lists.upper i j above) above, fun none i _ => none i⟩

/-- Peeling off a front takes its positions out of the count. -/
theorem waiting_append {front : List Nat} (once : (peeled ++ front).Nodup)
    (inside : ∀ i ∈ front, i < n) :
    waiting n below (peeled ++ front) j + front.countP (fun i => decide (j ∈ below.getD i [])) =
      waiting n below peeled j := by
  obtain ⟨_, onceFront, apart⟩ := List.nodup_append.mp once
  have taken : ((List.range n).filter fun i => decide (i ∈ front)).Perm front := by
    refine (List.perm_ext_iff_of_nodup (List.nodup_range.filter _) onceFront).mpr fun i => ?_
    simp only [List.mem_filter, List.mem_range, decide_eq_true_eq]
    exact ⟨And.right, fun member => ⟨inside i member, member⟩⟩
  have free : front.countP (fun i => decide (j ∈ below.getD i []) && decide (i ∉ peeled)) =
      front.countP fun i => decide (j ∈ below.getD i []) := by
    refine List.countP_congr fun i member => ?_
    have fresh : i ∉ peeled := fun before => apart i before i member rfl
    simp [fresh]
  unfold waiting
  rw [List.countP_eq_countP_filter_add (List.range n)
      (fun i => decide (j ∈ below.getD i []) && decide (i ∉ peeled)) fun i => decide (i ∈ front),
    taken.countP_eq, free, List.countP_filter, Nat.add_comm]
  congr 1
  refine List.countP_congr fun i _ => ?_
  simp only [Bool.and_eq_true, decide_eq_true_eq, List.mem_append, Bool.not_eq_true',
    decide_eq_false_iff_not, not_or]
  exact (and_assoc).symm

section Release

variable {counts : Array Int} {next released : List Nat}

/-- Each release lowers one count by one. -/
theorem release_counts (counts : Array Int) (next released : List Nat) (j : Nat) :
    (released.foldl release (counts, next)).1[j]? =
      counts[j]?.map (· - (released.count j : Int)) := by
  induction released generalizing counts next with
  | nil => simp
  | cons x released ih =>
    rw [List.foldl_cons, release, ih]
    by_cases same : x = j
    · subst same
      by_cases inside : x < counts.size
      · simp [inside, Array.getD_eq_getD_getElem?]
        omega
      · simp [inside]
    · rw [Array.getElem?_setIfInBounds_ne same, List.count_cons_of_ne same]

theorem release_size (counts : Array Int) (next released : List Nat) :
    (released.foldl release (counts, next)).1.size = counts.size := by
  induction released generalizing counts next with
  | nil => rfl
  | cons x released ih => rw [List.foldl_cons, release, ih, Array.size_setIfInBounds]

/-- Counts that releases do not bring below zero. -/
def Covers (counts : Array Int) (released : List Nat) : Prop :=
  ∀ x ∈ released, ∃ c, counts[x]? = some c ∧ (released.count x : Int) ≤ c

theorem Covers.release {x : Nat} (covers : Covers counts (x :: released)) :
    ∃ c, counts[x]? = some c ∧ (released.count x : Int) + 1 ≤ c ∧
      Covers (counts.setIfInBounds x (c - 1)) released := by
  obtain ⟨c, held, enough⟩ := covers x List.mem_cons_self
  rw [List.count_cons_self] at enough
  refine ⟨c, held, by omega, fun y member => ?_⟩
  by_cases same : x = y
  · subst same
    refine ⟨c - 1, ?_, by omega⟩
    have inside : x < counts.size := (Array.getElem?_eq_some_iff.mp held).1
    simp [inside]
  · obtain ⟨c', held', enough'⟩ := covers y (List.mem_cons_of_mem _ member)
    rw [List.count_cons_of_ne same] at enough'
    exact ⟨c', by rw [Array.getElem?_setIfInBounds_ne same, held'], enough'⟩

/-- What is peeled off next are the positions whose last release this was. -/
theorem mem_release (covers : Covers counts released) :
    j ∈ (released.foldl release (counts, next)).2 ↔
      j ∈ next ∨ j ∈ released ∧ counts[j]? = some (released.count j : Int) := by
  induction released generalizing counts next with
  | nil => simp
  | cons x released ih =>
    obtain ⟨c, held, enough, covers⟩ := covers.release
    have lowered : counts.getD x 0 - 1 = c - 1 := by
      rw [Array.getD_eq_getD_getElem?, held, Option.getD_some]
    rw [List.foldl_cons, release, lowered, ih covers]
    by_cases same : x = j
    · subst same
      have inside : x < counts.size := (Array.getElem?_eq_some_iff.mp held).1
      have here : (counts.setIfInBounds x (c - 1))[x]? = some (c - 1) := by simp [inside]
      rw [here, held, List.count_cons_self, Option.some.injEq, Option.some.injEq]
      by_cases again : x ∈ released
      · have more : 0 < released.count x := List.count_pos_iff.mpr again
        rw [if_neg (by omega)]
        simp only [again, List.mem_cons_self, true_and]
        exact or_congr_right (by omega)
      · have last : released.count x = 0 := List.count_eq_zero.mpr again
        rw [last]
        split
        · simp
          omega
        · simp [again]
          omega
    · have waits : j ∈ (if c - 1 = 0 then next ++ [x] else next) ↔ j ∈ next := by
        split <;> simp [Ne.symm same]
      rw [waits, Array.getElem?_setIfInBounds_ne same, List.count_cons_of_ne same]
      simp [Ne.symm same]

/-- A position comes up only once. -/
theorem nodup_release (covers : Covers counts released) (once : next.Nodup)
    (apart : ∀ x ∈ next, x ∉ released) : (released.foldl release (counts, next)).2.Nodup := by
  induction released generalizing counts next with
  | nil => exact once
  | cons x released ih =>
    obtain ⟨c, held, enough, covers⟩ := covers.release
    have lowered : counts.getD x 0 - 1 = c - 1 := by
      rw [Array.getD_eq_getD_getElem?, held, Option.getD_some]
    have fresh : x ∉ next := fun member => apart x member List.mem_cons_self
    have later : ∀ y ∈ next, y ∉ released :=
      fun y member again => apart y member (List.mem_cons_of_mem _ again)
    rw [List.foldl_cons, release, lowered]
    split
    · rename_i zero
      have last : x ∉ released := List.count_eq_zero.mp (by omega)
      refine ih covers (once.append (List.nodup_singleton x) ?_) fun y member => ?_
      · exact List.disjoint_singleton.mpr fresh
      · rcases List.mem_append.mp member with before | new
        · exact later y before
        · rw [List.mem_singleton.mp new]
          exact last
    · exact ih covers once later

end Release

namespace Peeling

/-- The positions below the next front, once for each that they lie below. -/
def released (below : Array (List Nat)) (p : Peeling) : List Nat :=
  p.current.flatMap fun i => below.getD i []

/-- The fronts found so far and the next one. -/
def layers (p : Peeling) : List (List Nat) := p.fronts ++ [p.current]

variable {p : Peeling}

theorem mem_released : j ∈ p.released below ↔ ∃ i ∈ p.current, j ∈ below.getD i [] :=
  List.mem_flatMap

theorem count_released (lists : Lists n below) (j : Nat) :
    (p.released below).count j = p.current.countP fun i => decide (j ∈ below.getD i []) := by
  unfold released
  induction p.current with
  | nil => rfl
  | cons i front ih =>
    rw [List.flatMap_cons, List.count_append, ih, (lists.once i).count, List.countP_cons,
      Nat.add_comm]
    simp

theorem layers_step : (p.step below).layers =
    p.layers ++ [((p.released below).foldl release (p.counts, [])).2] := rfl

theorem fronts_step : (p.step below).fronts = p.layers := rfl

theorem counts_step :
    (p.step below).counts = ((p.released below).foldl release (p.counts, [])).1 := rfl

/-- What is in a list that one entry was put behind. -/
theorem place_concat {β : Type} {xs : List β} {x y : β} {r : Nat} :
    (xs ++ [x])[r]? = some y ↔ xs[r]? = some y ∨ r = xs.length ∧ y = x := by
  rcases Nat.lt_trichotomy r xs.length with before | last | beyond
  · rw [List.getElem?_append_left before]
    exact (or_iff_left fun last => Nat.ne_of_lt before last.1).symm
  · subst last
    simp [eq_comm]
  · have outside : (xs ++ [x]).length ≤ r := by
      rw [List.length_append, List.length_singleton]
      exact beyond
    rw [List.getElem?_eq_none outside, List.getElem?_eq_none beyond.le]
    simp [Nat.ne_of_gt beyond]

/-- Giving a rank to some positions. -/
theorem getElem?_ranked {rank : Array Nat} (k : Nat) {xs : List Nat}
    (within : ∀ x ∈ xs, x < rank.size) (i : Nat) :
    (xs.foldl (fun rank x => rank.setIfInBounds x k) rank)[i]? =
      if i ∈ xs then some k else rank[i]? := by
  induction xs generalizing rank with
  | nil => rfl
  | cons x xs ih =>
    obtain ⟨here, later⟩ := List.forall_mem_cons.mp within
    rw [List.foldl_cons, ih (by rwa [Array.size_setIfInBounds])]
    by_cases again : i ∈ xs
    · simp [again]
    · by_cases same : x = i
      · subst same
        simp [again, here]
      · simp [again, Ne.symm same, Array.getElem?_setIfInBounds_ne same]

theorem size_ranked (rank : Array Nat) (k : Nat) (xs : List Nat) :
    (xs.foldl (fun rank x => rank.setIfInBounds x k) rank).size = rank.size := by
  induction xs generalizing rank with
  | nil => rfl
  | cons x xs ih => rw [List.foldl_cons, ih, Array.size_setIfInBounds]

/-- What holds between two waves. -/
structure Underway (n : Nat) (below : Array (List Nat)) (p : Peeling) : Prop where
  once : p.layers.flatten.Nodup
  inside : ∀ i ∈ p.layers.flatten, i < n
  size : p.counts.size = n
  counts : ∀ j < n, p.counts[j]? = some (waiting n below p.fronts.flatten j : Int)
  /-- A position is in a layer as soon as everything above it has been peeled off. -/
  free : ∀ j < n, waiting n below p.fronts.flatten j = 0 ↔ j ∈ p.layers.flatten
  full : [] ∉ p.fronts
  /-- What lies above a position is in an earlier layer. -/
  earlier : ∀ (r : Nat) layer, p.layers[r]? = some layer → ∀ j ∈ layer, ∀ i,
    j ∈ below.getD i [] → i ∈ (p.layers.take r).flatten
  /-- Every position but those of the first layer has one above it in the layer before. -/
  above : ∀ (r : Nat) upper lower, p.layers[r]? = some upper → p.layers[r + 1]? = some lower →
    ∀ j ∈ lower, ∃ i ∈ upper, j ∈ below.getD i []
  places : p.rank.size = n
  rank : ∀ (r : Nat) front, p.fronts[r]? = some front → ∀ i ∈ front, p.rank[i]? = some r

namespace Underway

theorem flatten_layers (p : Peeling) : p.layers.flatten = p.fronts.flatten ++ p.current := by
  simp [layers]

section Wave

variable (lists : Lists n below) (underway : Underway n below p)

include underway

theorem current_lt {i : Nat} (member : i ∈ p.current) : i < n := by
  refine underway.inside i ?_
  rw [flatten_layers]
  exact List.mem_append_right _ member

/-- The next front leaves the count of every position by the number of its releases. -/
theorem waiting_step (j : Nat) :
    waiting n below p.layers.flatten j + p.current.countP (fun i => decide (j ∈ below.getD i [])) =
      waiting n below p.fronts.flatten j := by
  have once := underway.once
  rw [flatten_layers] at once ⊢
  exact waiting_append once fun i => underway.current_lt

include lists

theorem covers : Covers p.counts (p.released below) := by
  intro j member
  obtain ⟨i, _, above⟩ := mem_released.mp member
  refine ⟨_, underway.counts j (lists.lower i j above), ?_⟩
  have lowered := underway.waiting_step j
  rw [count_released lists]
  omega

/-- However far a wave has come, no count is below zero. -/
theorem counts_nonneg {done rest : List Nat} (split : p.released below = done ++ rest) {c : Int}
    (member : c ∈ (done.foldl release (p.counts, [])).1) : 0 ≤ c := by
  obtain ⟨j, bound, held⟩ := Array.mem_iff_getElem.mp member
  have inside := bound
  rw [release_size, underway.size] at inside
  replace held := (Array.getElem?_eq_getElem bound).trans (congrArg some held)
  rw [release_counts, underway.counts j inside, Option.map_some, Option.some.injEq] at held
  have lowered := underway.waiting_step j
  rw [← count_released lists, split, List.count_append] at lowered
  omega

/-- The next front: what has just been released for the last time. -/
theorem mem_next : j ∈ (p.step below).current ↔
    j ∈ p.released below ∧ waiting n below p.layers.flatten j = 0 := by
  have spec : j ∈ ((p.released below).foldl release (p.counts, [])).2 ↔ _ :=
    mem_release (underway.covers lists)
  refine spec.trans ⟨?_, ?_⟩
  · rintro (none | ⟨member, last⟩)
    · cases none
    · obtain ⟨i, _, above⟩ := mem_released.mp member
      have lowered := underway.waiting_step j
      rw [underway.counts j (lists.lower i j above), Option.some.injEq,
        count_released lists] at last
      exact ⟨member, by omega⟩
  · rintro ⟨member, none⟩
    obtain ⟨i, _, above⟩ := mem_released.mp member
    have lowered := underway.waiting_step j
    refine .inr ⟨member, ?_⟩
    rw [underway.counts j (lists.lower i j above), count_released lists, ← lowered, none,
      Nat.zero_add]

theorem free_step (inside : j < n) :
    waiting n below p.layers.flatten j = 0 ↔ j ∈ (p.step below).layers.flatten := by
  have lowered := underway.waiting_step j
  rw [flatten_layers (p.step below), fronts_step, List.mem_append, underway.mem_next lists]
  constructor
  · intro none
    by_cases listed : j ∈ p.released below
    · exact .inr ⟨listed, none⟩
    · have still : p.current.countP (fun i => decide (j ∈ below.getD i [])) = 0 := by
        rw [← count_released lists]
        exact List.count_eq_zero.mpr listed
      exact .inl ((underway.free j inside).mp (by omega))
  · rintro (peeled | ⟨_, none⟩)
    · have zero := (underway.free j inside).mpr peeled
      omega
    · exact none

theorem once_step : (p.step below).layers.flatten.Nodup := by
  rw [flatten_layers (p.step below), fronts_step]
  refine underway.once.append ?_ fun j peeled next => ?_
  · exact nodup_release (underway.covers lists) List.nodup_nil nofun
  · obtain ⟨listed, _⟩ := (underway.mem_next lists).mp next
    have zero := (underway.free j (underway.inside j peeled)).mpr peeled
    have lowered := underway.waiting_step j
    rw [← count_released lists] at lowered
    have more : 0 < (p.released below).count j := List.count_pos_iff.mpr listed
    omega

omit lists in
theorem rank_step {r : Nat} {front : List Nat} (place : p.layers[r]? = some front) {i : Nat}
    (member : i ∈ front) : (p.step below).rank[i]? = some r := by
  have answer : (p.step below).rank[i]? =
      if i ∈ p.current then some p.fronts.length else p.rank[i]? :=
    getElem?_ranked _ (fun x listed => underway.places.symm ▸ underway.current_lt listed) i
  rw [answer]
  rcases place_concat.mp place with place | ⟨last, rfl⟩
  · have apart : i ∉ p.current := by
      have once := underway.once
      rw [flatten_layers] at once
      intro again
      have earlier : i ∈ p.fronts.flatten :=
        List.mem_flatten_of_mem (List.mem_of_getElem? place) member
      exact (List.nodup_append.mp once).2.2 i earlier i again rfl
    rw [if_neg apart]
    exact underway.rank r front place i member
  · rw [if_pos member, last]

theorem earlier_step {r : Nat} {layer : List Nat} (place : (p.step below).layers[r]? = some layer)
    {i : Nat} (member : j ∈ layer) (above : j ∈ below.getD i []) :
    i ∈ ((p.step below).layers.take r).flatten := by
  rw [layers_step] at place ⊢
  rcases place_concat.mp place with place | ⟨last, rfl⟩
  · rw [List.take_append_of_le_length (List.getElem?_eq_some_iff.mp place).1.le]
    exact underway.earlier r layer place j member i above
  · rw [last, List.take_left]
    exact lists.waiting_eq_zero.mp ((underway.mem_next lists).mp member).2 i above

theorem above_step {r : Nat} {upper lower : List Nat}
    (placeUpper : (p.step below).layers[r]? = some upper)
    (placeLower : (p.step below).layers[r + 1]? = some lower) (member : j ∈ lower) :
    ∃ i ∈ upper, j ∈ below.getD i [] := by
  rw [layers_step] at placeUpper placeLower
  have known (inside : r < p.layers.length) : p.layers[r]? = some upper :=
    (place_concat.mp placeUpper).resolve_right fun last => Nat.ne_of_lt inside last.1
  rcases place_concat.mp placeLower with place | ⟨last, rfl⟩
  · have inside := (List.getElem?_eq_some_iff.mp place).1
    exact underway.above r upper lower (known (Nat.lt_of_succ_lt inside)) place j member
  · -- the last layer is above the next one
    have length : p.layers.length = p.fronts.length + 1 := by
      rw [layers, List.length_append, List.length_singleton]
    have newest : upper = p.current := by
      rcases place_concat.mp (known (by omega)) with front | ⟨_, same⟩
      · have before := (List.getElem?_eq_some_iff.mp front).1
        omega
      · exact same
    rw [newest]
    exact mem_released.mp ((underway.mem_next lists).mp member).1

/-- A wave that has something to peel off leaves everything as it has to be for the next. -/
theorem step (some : p.current ≠ []) : Underway n below (p.step below) where
  once := underway.once_step lists
  inside := by
    intro j member
    rw [flatten_layers (p.step below), fronts_step] at member
    rcases List.mem_append.mp member with peeled | next
    · exact underway.inside j peeled
    · obtain ⟨listed, _⟩ := (underway.mem_next lists).mp next
      obtain ⟨i, _, above⟩ := mem_released.mp listed
      exact lists.lower i j above
  size := (release_size ..).trans underway.size
  counts := by
    intro j inside
    have lowered := underway.waiting_step j
    rw [counts_step, release_counts, underway.counts j inside, Option.map_some, fronts_step,
      count_released lists]
    congr 1
    omega
  free := fun j inside => underway.free_step lists inside
  full := by
    rw [fronts_step, layers, List.mem_append, List.mem_singleton]
    rintro (before | last)
    · exact underway.full before
    · exact some last.symm
  earlier := fun _ _ place _ member _ above => underway.earlier_step lists place member above
  above := fun _ _ _ placeUpper placeLower _ member =>
    underway.above_step lists placeUpper placeLower member
  places := (size_ranked p.rank _ p.current).trans underway.places
  rank := fun _ _ place _ => underway.rank_step place

theorem run (fuel : Nat) : Underway n below (p.run below fuel) := by
  induction fuel generalizing p with
  | zero => exact underway
  | succ fuel ih =>
    rw [Peeling.run]
    split
    · exact underway
    · rename_i more
      exact ih (underway.step lists (by simpa using more))

/-- Every wave peels off a position, so as many waves as there are positions are enough. -/
theorem run_ends {fuel : Nat} (enough : n ≤ fuel + p.fronts.flatten.length) :
    (p.run below fuel).current = [] := by
  induction fuel generalizing p with
  | zero =>
    have room : p.layers.flatten.length ≤ n := by
      have subset : p.layers.flatten.Subperm (List.range n) :=
        underway.once.subperm fun i member => List.mem_range.mpr (underway.inside i member)
      simpa using subset.length_le
    rw [flatten_layers, List.length_append] at room
    have none : p.current = [] := List.eq_nil_of_length_eq_zero (by omega)
    exact none
  | succ fuel ih =>
    rw [Peeling.run]
    split
    · rename_i none
      simpa using none
    · rename_i more
      have some : p.current ≠ [] := by simpa using more
      refine ih (underway.step lists some) ?_
      have longer := List.length_pos_iff.mpr some
      rw [fronts_step, flatten_layers, List.length_append]
      omega

end Wave

/-- If no position lies above itself, be it over others, then peeling that has come to its end
leaves none out. -/
theorem complete (lists : Lists n below) (underway : Underway n below p) (ended : p.current = [])
    (irrefl : ∀ i, i ∉ below.getD i [])
    (trans : ∀ i j k, j ∈ below.getD i [] → k ∈ below.getD j [] → k ∈ below.getD i [])
    (inside : j < n) : j ∈ p.fronts.flatten := by
  let Above (i j : Fin n) : Prop := j.1 ∈ below.getD i.1 []
  have : IsTrans (Fin n) Above := ⟨fun i j k => trans i j k⟩
  have : Std.Irrefl Above := ⟨fun i => irrefl i⟩
  have founded : WellFounded Above := Finite.wellFounded_of_trans_of_irrefl Above
  have peeled (j : Fin n) : j.1 ∈ p.fronts.flatten := by
    induction j using founded.induction with
    | _ j ih =>
      have free : waiting n below p.fronts.flatten j = 0 :=
        lists.waiting_eq_zero.mpr fun i above => ih ⟨i, lists.upper i j above⟩ above
      have layered := (underway.free j j.2).mp free
      rwa [flatten_layers, ended, List.append_nil] at layered
  exact peeled ⟨j, inside⟩

end Underway
end Peeling
end Metaheuristic.Fronts
