import Metaheuristic.Proofs.Number.Total
import Metaheuristic.Proofs.Sorting
import Metaheuristic.Space.Variable

/-! The positions of keys in ascending order. Every position is listed once, the keys do not fall
along the list, and positions whose keys share a place of the total order stand as they are
numbered. Only one list of positions is like that, so it hangs on nothing but how the keys compare:
ties, zeros of both signs and undefined keys included. -/
namespace Metaheuristic.Variable

variable {α : Type} [Scalar α] {keys keys' : List α} {order order' : List Nat}

/-- One position comes before another: its key is lower, or the keys share a place and it has the
lower number. -/
def Before (keys : List α) (a b : Nat) : Prop :=
  ∃ x ∈ keys[a]?, ∃ y ∈ keys[b]?,
    Scalar.totalOrder x y = .lt ∨ Scalar.totalOrder x y = .eq ∧ a < b

instance (keys : List α) (a b : Nat) : Decidable (Before keys a b) :=
  inferInstanceAs (Decidable (∃ x ∈ keys[a]?, ∃ y ∈ keys[b]?,
    Scalar.totalOrder x y = .lt ∨ Scalar.totalOrder x y = .eq ∧ a < b))

/-- The positions of all keys, each before those that are listed behind it. -/
structure Arranges (keys : List α) (order : List Nat) : Prop where
  positions : order.Perm (List.range keys.length)
  ordered : order.Pairwise (Before keys)

instance (keys : List α) (order : List Nat) : Decidable (Arranges keys order) :=
  decidable_of_iff (order.Perm (List.range keys.length) ∧ order.Pairwise (Before keys))
    ⟨fun both => ⟨both.1, both.2⟩, fun arranges => ⟨arranges.1, arranges.2⟩⟩

/-- How every key compares with every key, row by row. -/
def comparisons (keys : List α) : List (List Ordering) :=
  keys.map fun x => keys.map fun y => Scalar.totalOrder x y

/-- Equally many keys, of which the same positions compare alike. -/
def SameOrder (keys keys' : List α) : Prop := comparisons keys' = comparisons keys

instance (keys keys' : List α) : Decidable (SameOrder keys keys') :=
  inferInstanceAs (Decidable (comparisons keys' = comparisons keys))

theorem SameOrder.length (same : SameOrder keys keys') : keys'.length = keys.length := by
  have rows := congrArg List.length same
  simpa [comparisons] using rows

theorem SameOrder.compares (same : SameOrder keys keys') {a b : Nat} {x y x' y' : α}
    (first : keys[a]? = some x) (second : keys[b]? = some y) (first' : keys'[a]? = some x')
    (second' : keys'[b]? = some y') : Scalar.totalOrder x' y' = Scalar.totalOrder x y := by
  have entry := congrArg (fun rows : List (List Ordering) => rows[a]?.bind (·[b]?)) same
  simpa [comparisons, first, second, first', second'] using entry

theorem Arranges.of_sameOrder (arranges : Arranges keys order) (same : SameOrder keys keys') :
    Arranges keys' order := by
  refine ⟨same.length ▸ arranges.positions, arranges.ordered.imp ?_⟩
  rintro a b ⟨x, held, y, held', before⟩
  have inside : a < keys'.length := same.length ▸ (List.getElem?_eq_some_iff.mp held).1
  have inside' : b < keys'.length := same.length ▸ (List.getElem?_eq_some_iff.mp held').1
  have place := List.getElem?_eq_getElem inside
  have place' := List.getElem?_eq_getElem inside'
  refine ⟨_, place, _, place', ?_⟩
  rwa [same.compares held held' place place']

/-- Sorting the keys together with their positions sorts the positions. -/
theorem ascending_eq_mergeSort (keys : List α) :
    ascending keys = (List.range keys.length).mergeSort fun a b =>
      Scalar.totalOrder (keys.getD a Scalar.zero) (keys.getD b Scalar.zero) != .gt := by
  have laid : keys.zipIdx = (List.range keys.length).map fun i => (keys.getD i Scalar.zero, i) := by
    refine List.ext_getElem? fun i => ?_
    by_cases below : i < keys.length
    · simp [below]
    · simp [below]
  have sorted := List.map_mergeSort (l := List.range keys.length)
    (f := fun i => (keys.getD i Scalar.zero, i))
    (r := fun a b =>
      Scalar.totalOrder (keys.getD a Scalar.zero) (keys.getD b Scalar.zero) != .gt)
    (s := fun a b => Scalar.totalOrder a.1 b.1 != .gt) fun _ _ _ _ => rfl
  rw [ascending, laid, ← sorted, List.map_map]
  exact List.map_id _

theorem ascending_perm (keys : List α) : (ascending keys).Perm (List.range keys.length) := by
  rw [ascending_eq_mergeSort]
  exact List.mergeSort_perm ..

variable [Scalar.LawfulTotal α]

theorem Before.asymm {a b : Nat} (before : Before keys a b) : ¬Before keys b a := by
  obtain ⟨x, held, y, held', first⟩ := before
  rintro ⟨y', held₂', x', held₂, second⟩
  cases Option.mem_unique held held₂
  cases Option.mem_unique held' held₂'
  rcases first with lower | ⟨level, numbered⟩
  · simp [Std.OrientedCmp.gt_of_lt lower] at second
  · simp [Std.OrientedCmp.eq_symm level] at second
    omega

/-- Only one list of positions is in order. -/
theorem Arranges.unique (first : Arranges keys order) (second : Arranges keys order') :
    order = order' :=
  List.Perm.eq_of_pairwise (fun _ _ _ _ before behind => absurd behind before.asymm)
    first.ordered second.ordered (first.positions.trans second.positions.symm)

theorem ascending_arranges (keys : List α) : Arranges keys (ascending keys) := by
  refine ⟨ascending_perm keys, ?_⟩
  have _ := Sorting.transCmp_on (Scalar.totalOrder : α → α → Ordering)
    fun i => keys.getD i Scalar.zero
  have sorted := Sorting.pairwise_positions
    (fun a b => Scalar.totalOrder (keys.getD a Scalar.zero) (keys.getD b Scalar.zero)) keys.length
  rw [← ascending_eq_mergeSort] at sorted
  refine sorted.imp_of_mem fun {a b} inside inside' before => ?_
  have held (i : Nat) (member : i ∈ ascending keys) :
      keys.getD i Scalar.zero ∈ keys[i]? := by
    have below := List.mem_range.mp ((ascending_perm keys).mem_iff.mp member)
    simp [below]
  exact ⟨_, held a inside, _, held b inside', before⟩

/-- Keys that compare alike ascend alike. -/
theorem ascending_congr (same : SameOrder keys keys') : ascending keys' = ascending keys :=
  (ascending_arranges keys').unique ((ascending_arranges keys).of_sameOrder same)

end Metaheuristic.Variable
