import Metaheuristic.Proofs.Space.Coding

/-! Permutations as genes. A sequence lists the positions of its genes in ascending order, so
whatever the genes are, it is a permutation, and one that only depends on how they compare. A
permutation is written back as ranks: each position it lists gets the place where it is listed, as
a fraction of the length. Reading goes through the permutation and writing through its inverse,
which is why the one undoes the other. -/
namespace Metaheuristic.Variable

variable {α : Type} [Scalar α] [Scalar.LawfulTotal α]
  {K : Type} [Field K] [LinearOrder K] [FloorRing K] [Elementary K] [IsStrictOrderedRing K]

/-- The ranks of a permutation are fractions below one. -/
theorem encode_below_one {v : Variable (Exact K)} (kind : v.kind = .sequence) {order : List Nat}
    (positions : order.Perm (List.range order.length)) (small : order.length ≤ wordCount)
    {g : Exact K} (member : g ∈ v.encode (order.map Scalar.ofNat)) :
    ∃ q : K, g = .finite q ∧ 0 ≤ q ∧ q < 1 := by
  obtain ⟨i, below, place⟩ := List.mem_iff_getElem.mp member
  rw [length_encode, List.length_map] at below
  -- every position is listed somewhere, so no gene is left blank
  obtain ⟨r, listed, rank⟩ :=
    List.mem_iff_getElem.mp (positions.mem_iff.mpr (List.mem_range.mpr below))
  have gene := encode_ranks kind positions small
    ((List.getElem?_eq_getElem listed).trans (congrArg some rank))
  rw [List.getElem?_eq_some_iff] at gene
  obtain ⟨_, same⟩ := gene
  have many : (0 : K) < order.length := Nat.cast_pos.mpr (Nat.zero_lt_of_lt listed)
  refine ⟨(r : K) / order.length, place.symm.trans same, ?_, ?_⟩
  · exact div_nonneg (Nat.cast_nonneg r) many.le
  · rw [div_lt_one many]
    exact Nat.cast_lt.mpr listed

/-- The genes of a sequence, whatever they are, decode to the one list of their positions along
which they do not fall and equal ones keep their order; genes that compare alike decode alike.
Over exact numbers every permutation is what its own ranks decode to, and these are fractions
below one. Positions are machine words. -/
theorem sequences_sort_and_return {v : Variable α} {w : Variable (Exact K)}
    (kind : v.kind = .sequence) (ranked : w.kind = .sequence) :
    (∀ genes, ∃ order, v.decode genes = order.map Scalar.ofNat ∧ Arranges genes order ∧
      ∀ order', Arranges genes order' → order' = order) ∧
    (∀ genes genes', SameOrder genes genes' → v.decode genes' = v.decode genes) ∧
    ∀ order : List Nat, order.Perm (List.range order.length) → order.length ≤ wordCount →
      w.decode (w.encode (order.map Scalar.ofNat)) = order.map Scalar.ofNat ∧
      ∀ g ∈ w.encode (order.map Scalar.ofNat), ∃ q : K, g = .finite q ∧ 0 ≤ q ∧ q < 1 := by
  refine ⟨?_, ?_, ?_⟩
  · intro genes
    have sorted := ascending_arranges genes
    exact ⟨ascending genes, decode_sequence kind genes, sorted,
      fun order' arranges => arranges.unique sorted⟩
  · intro genes genes' same
    rw [decode_sequence kind, decode_sequence kind, ascending_congr same]
  · intro order positions small
    constructor
    · rw [decode_sequence ranked, ascending_encode ranked positions small]
    · intro g member
      exact encode_below_one ranked positions small member

/-- An order of four places. -/
def tour (α : Type) [Scalar α] : Variable α := ⟨⟨"tour", .sequence, .vector 4, .unit⟩, 0, 0, 4⟩

/-- Equal genes stand as they are numbered and an undefined one stands last, and no gene needs to
lie in the unit interval. A permutation that is not its own inverse comes back. -/
theorem sequences_sort_and_return_tour :
    (tour Float).kind = .sequence ∧ (tour (Exact ℚ)).kind = .sequence ∧
    (tour Float).decode [0.7, 0.0 / 0.0, 0.2, 0.2] = [2.0, 3.0, 0.0, 1.0] ∧
    (tour Float).decode [5.0, 1.0 / 0.0, -0.0, -0.0] = [2.0, 3.0, 0.0, 1.0] ∧
    (tour (Exact ℚ)).decode ((tour (Exact ℚ)).encode ([2, 0, 3, 1].map Scalar.ofNat)) =
      [2, 0, 3, 1].map Scalar.ofNat := by
  obtain ⟨sorts, alike, back⟩ := sequences_sort_and_return
    (v := tour Float) (w := tour (Exact ℚ)) rfl rfl
  obtain ⟨order, decoded, _, only⟩ := sorts [0.7, 0.0 / 0.0, 0.2, 0.2]
  have given : Arranges [0.7, 0.0 / 0.0, 0.2, 0.2] [2, 3, 0, 1] := by decide +kernel
  have same : SameOrder [0.7, 0.0 / 0.0, 0.2, 0.2] [5.0, 1.0 / 0.0, -0.0, -0.0] := by
    decide +kernel
  have numbers : [2, 3, 0, 1].map Scalar.ofNat = [2.0, 3.0, 0.0, 1.0] := by decide +kernel
  rw [← only _ given, numbers] at decoded
  exact ⟨rfl, rfl, decoded, (alike _ _ same).trans decoded,
    (back [2, 0, 3, 1] (by decide) (by decide)).1⟩

end Metaheuristic.Variable
