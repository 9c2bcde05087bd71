import Mathlib
import Metaheuristic.Proofs.Number.Rounding
import Metaheuristic.Proofs.Space.Ascending

/-! What one variable makes of its genes, and back. Real values come back to the same
genes. Whole values need not: a value that was rounded out of the bound is clamped,
but it rounds to itself again. A permutation comes back to its ranks, which sort into
the same permutation. So decoding, encoding and decoding is decoding. -/
namespace Metaheuristic

section Lengths

variable {α : Type} [Scalar α]

theorem Variable.length_rankGenes (length : Nat) (items : List α) (rank : Nat) (genes : List α) :
    (Variable.rankGenes length items rank genes).length = genes.length := by
  induction items generalizing rank genes with
  | nil => rfl
  | cons item items ih => rw [Variable.rankGenes, ih, List.length_set]

theorem Variable.length_decode (v : Variable α) (genes : List α) :
    (v.decode genes).length = genes.length := by
  unfold Variable.decode
  split
  · exact List.length_map ..
  · exact List.length_map ..
  · exact List.length_map ..
  · exact List.length_map ..
  · rw [List.length_map, (Variable.ascending_perm genes).length_eq, List.length_range]

theorem Variable.length_encode (v : Variable α) (values : List α) :
    (v.encode values).length = values.length := by
  unfold Variable.encode
  split
  · rw [Variable.length_rankGenes, List.length_replicate]
  · exact List.length_map ..

theorem Variable.decode_sequence {v : Variable α} (kind : v.kind = .sequence) (genes : List α) :
    v.decode genes = (Variable.ascending genes).map Scalar.ofNat := by
  simp only [Variable.decode, kind]

end Lengths

variable {K : Type} [Field K] [LinearOrder K] [FloorRing K] [Elementary K] [IsStrictOrderedRing K]

/-- The interval between two finite numbers. -/
def Bound.between (lo hi : K) : Bound (Exact K) := ⟨.finite lo, .finite hi⟩

/-- An interval with finite ends, in order. -/
def Bound.Proper (b : Bound (Exact K)) : Prop := ∃ lo hi : K, b = .between lo hi ∧ lo ≤ hi

namespace Variable

section Affine

variable {lo hi : K}

omit [IsStrictOrderedRing K] in
theorem stretch_finite (lo hi g : K) :
    stretch (.between lo hi) (.finite g) = .finite (lo + g * (hi - lo)) := by
  rw [stretch, Bound.between, Bound.width, Exact.finite_sub, Exact.finite_mul, Exact.finite_add]

omit [FloorRing K] [Elementary K] in
/-- A number of the unit interval is stretched into the bound. -/
theorem stretched_within (ordered : lo ≤ hi) {g : K} (lower : 0 ≤ g) (upper : g ≤ 1) :
    lo ≤ lo + g * (hi - lo) ∧ lo + g * (hi - lo) ≤ hi := by
  have width : 0 ≤ hi - lo := sub_nonneg.mpr ordered
  exact ⟨by nlinarith, by nlinarith⟩

theorem squeeze_finite (wide : lo < hi) (x : K) :
    squeeze (.between lo hi) (.finite x) =
      .finite (max 0 (min 1 ((x - lo) / (hi - lo)))) := by
  have positive : 0 < hi - lo := sub_pos.mpr wide
  have width : (Bound.between lo hi).width = .finite (hi - lo) := Exact.finite_sub ..
  rw [squeeze, width, Exact.zero_eq, Exact.lt_eq, if_pos (by simpa [Exact.below] using wide),
    Bound.between, Exact.finite_sub, Exact.finite_div positive.ne', Exact.clampUnit_finite]

omit [IsStrictOrderedRing K] in
theorem squeeze_narrow (lo : K) (x : Exact K) :
    squeeze (.between lo lo) x = .finite 0 := by
  have width : (Bound.between lo lo).width = .finite (lo - lo) := Exact.finite_sub ..
  rw [squeeze, width, Exact.zero_eq, Exact.lt_eq, if_neg (by simp [Exact.below])]

/-- Genes of real values come back. -/
theorem squeeze_stretch (wide : lo < hi) {g : K} (lower : 0 ≤ g) (upper : g ≤ 1) :
    squeeze (.between lo hi) (stretch (.between lo hi) (.finite g)) =
      .finite g := by
  have width : hi - lo ≠ 0 := (sub_pos.mpr wide).ne'
  rw [stretch_finite, squeeze_finite wide, add_sub_cancel_left, mul_div_cancel_right₀ g width,
    min_eq_right upper, max_eq_right lower]

/-- A value comes back when it lies in the bound, and otherwise as the nearer end. -/
theorem stretch_squeeze (ordered : lo ≤ hi) (x : K) :
    stretch (.between lo hi) (squeeze (.between lo hi) (.finite x)) =
      .finite (max lo (min hi x)) := by
  rcases ordered.lt_or_eq with wide | rfl
  · have positive : 0 < hi - lo := sub_pos.mpr wide
    have rising : Monotone fun g : K => lo + g * (hi - lo) := fun a b le =>
      add_le_add_right (mul_le_mul_of_nonneg_right le positive.le) lo
    have ends : lo + (x - lo) / (hi - lo) * (hi - lo) = x := by
      rw [div_mul_cancel₀ _ positive.ne', add_sub_cancel]
    rw [squeeze_finite wide, stretch_finite]
    refine congrArg Exact.finite ?_
    calc lo + max 0 (min 1 ((x - lo) / (hi - lo))) * (hi - lo)
        = max (lo + 0 * (hi - lo)) (min (lo + 1 * (hi - lo))
            (lo + (x - lo) / (hi - lo) * (hi - lo))) := by
          rw [rising.map_max, rising.map_min]
      _ = max lo (min hi x) := by rw [zero_mul, add_zero, one_mul, add_sub_cancel, ends]
  · rw [squeeze_narrow, stretch_finite, zero_mul, add_zero, max_eq_left (min_le_left _ _)]

end Affine

section Permutations

omit [IsStrictOrderedRing K] in
/-- Keys that increase along an order of the positions sort into this order. -/
theorem ascending_eq {keys : List (Exact K)} {order : List Nat} {f : Nat → K}
    (positions : order.Perm (List.range keys.length))
    (ranked : ∀ (r i : Nat), order[r]? = some i → keys[i]? = some (.finite (f r)))
    (increasing : StrictMono f) : ascending keys = order := by
  refine (ascending_arranges keys).unique ⟨positions, ?_⟩
  rw [List.pairwise_iff_getElem]
  intro r r' inside inside' earlier
  exact ⟨_, ranked r _ (List.getElem?_eq_getElem inside), _,
    ranked r' _ (List.getElem?_eq_getElem inside'),
    .inl (compare_lt_iff_lt.mpr (increasing earlier))⟩

/-- Each listed position gets its rank, the others keep what they have. -/
theorem rankGenes_getElem? {length rank : Nat} {items : List Nat} {genes : List (Exact K)}
    (distinct : items.Nodup) (inside : ∀ i ∈ items, i < genes.length)
    (small : genes.length ≤ wordCount) :
    (∀ (r i : Nat), items[r]? = some i →
      (rankGenes length (items.map Scalar.ofNat) rank genes)[i]? =
        some (Scalar.ratio (rank + r) length)) ∧
    ∀ i ∉ items, (rankGenes length (items.map Scalar.ofNat) rank genes)[i]? = genes[i]? := by
  induction items generalizing rank genes with
  | nil => exact ⟨nofun, fun _ _ => rfl⟩
  | cons item items ih =>
    obtain ⟨fresh, distinct⟩ := List.nodup_cons.mp distinct
    have below : item < genes.length := inside item List.mem_cons_self
    have word : Scalar.toWord (Scalar.ofNat item : Exact K) = item :=
      Exact.toWord_ofNat (by omega)
    simp only [List.map_cons, rankGenes, word]
    have kept : (genes.set item (Scalar.ratio rank length)).length = genes.length :=
      List.length_set ..
    obtain ⟨listed, others⟩ := @ih (rank + 1) (genes.set item (Scalar.ratio rank length)) distinct
      (fun i member => kept ▸ inside i (List.mem_cons_of_mem _ member)) (kept ▸ small)
    refine ⟨fun r i place => ?_, fun i absent => ?_⟩
    · cases r with
      | zero =>
        cases place
        rw [others item fresh, List.getElem?_set_self below]
        rfl
      | succ r =>
        have shifted : rank + 1 + r = rank + (r + 1) := by omega
        rw [← shifted]
        exact listed r i place
    · obtain ⟨other, later⟩ := not_or.mp (mt List.mem_cons.mpr absent)
      rw [others i later, List.getElem?_set_ne (Ne.symm other)]

variable {v : Variable (Exact K)} {order : List Nat}

/-- Each position of a permutation gets its rank as a fraction of the length. -/
theorem encode_ranks (kind : v.kind = .sequence)
    (positions : order.Perm (List.range order.length)) (small : order.length ≤ wordCount)
    {r i : Nat} (place : order[r]? = some i) :
    (v.encode (order.map Scalar.ofNat))[i]? = some (.finite ((r : K) / order.length)) := by
  have below : r < order.length := (List.getElem?_eq_some_iff.mp place).1
  have length : Nat.max order.length 1 = order.length := Nat.max_eq_left (by omega)
  have many : (order.length : K) ≠ 0 := Nat.cast_ne_zero.mpr (by omega)
  have unfolded : v.encode (order.map Scalar.ofNat) = rankGenes order.length
      (order.map Scalar.ofNat) 0 (List.replicate order.length Scalar.zero) := by
    simp only [encode, kind, List.length_map, length]
  have blank : (List.replicate order.length (Scalar.zero : Exact K)).length = order.length :=
    List.length_replicate
  have listed : (rankGenes order.length (order.map Scalar.ofNat) 0
      (List.replicate order.length (Scalar.zero : Exact K)))[i]? =
        some (Scalar.ratio (0 + r) order.length) :=
    (rankGenes_getElem? (positions.nodup_iff.mpr List.nodup_range)
      (fun j member => (List.mem_range.mp (positions.mem_iff.mp member)).trans_eq blank.symm)
      (blank.trans_le small)).1 r i place
  rw [unfolded, listed, Nat.zero_add, Scalar.ratio, Exact.ofNat_eq, Exact.ofNat_eq,
    Exact.finite_div many]

/-- Ranks sort into the permutation that they come from. -/
theorem ascending_encode (kind : v.kind = .sequence)
    (positions : order.Perm (List.range order.length)) (small : order.length ≤ wordCount) :
    ascending (v.encode (order.map Scalar.ofNat)) = order := by
  by_cases none : order = []
  · simp [none, encode, kind, rankGenes, ascending]
  · have some : 0 < order.length := List.length_pos_iff.mpr none
    refine ascending_eq (f := fun r => (r : K) / order.length) ?_ ?_ ?_
    · rwa [length_encode, List.length_map]
    · intro r i place
      exact encode_ranks kind positions small place
    · intro r r' earlier
      exact div_lt_div_of_pos_right (Nat.cast_lt.mpr earlier) (Nat.cast_pos.mpr some)

end Permutations

variable {v : Variable (Exact K)} {genes : List (Exact K)}

/-- Decoding, encoding and decoding again is decoding, whatever the kind. -/
theorem decode_encode_decode (proper : v.bound.Proper)
    (unit : ∀ g ∈ genes, ∃ x, g = .finite x ∧ 0 ≤ x ∧ x ≤ 1) (small : genes.length ≤ wordCount) :
    v.decode (v.encode (v.decode genes)) = v.decode genes := by
  obtain ⟨lo, hi, bound, ordered⟩ := proper
  have real (g : Exact K) (member : g ∈ genes) :
      stretch v.bound (squeeze v.bound (stretch v.bound g)) = stretch v.bound g := by
    obtain ⟨x, rfl, lower, upper⟩ := unit g member
    obtain ⟨above, below⟩ := stretched_within ordered lower upper
    rw [bound, stretch_finite, stretch_squeeze ordered, min_eq_right below, max_eq_right above]
  have whole (g : Exact K) (member : g ∈ genes) :
      Scalar.round (stretch v.bound (squeeze v.bound (Scalar.round (stretch v.bound g)))) =
        Scalar.round (stretch v.bound g) := by
    obtain ⟨x, rfl, lower, upper⟩ := unit g member
    obtain ⟨above, below⟩ := stretched_within ordered lower upper
    rw [bound, stretch_finite, Exact.round_finite, stretch_squeeze ordered, Exact.round_finite,
      Exact.nearest_clamp above below]
  cases kind : v.kind with
  | continuous | positive =>
    simp only [decode, encode, kind, List.map_map]
    exact List.map_congr_left real
  | integer | binary =>
    simp only [decode, encode, kind, List.map_map]
    exact List.map_congr_left whole
  | sequence =>
    have positions := ascending_perm genes
    have length : (ascending genes).length = genes.length := by
      rw [positions.length_eq, List.length_range]
    rw [decode_sequence kind, decode_sequence kind,
      ascending_encode kind (by rwa [length]) (by rwa [length])]

/-- A real variable whose bound is not a point gets its genes back. -/
theorem encode_decode {lo hi : K} (real : v.kind = .continuous ∨ v.kind = .positive)
    (bound : v.bound = .between lo hi) (wide : lo < hi)
    (unit : ∀ g ∈ genes, ∃ x, g = .finite x ∧ 0 ≤ x ∧ x ≤ 1) :
    v.encode (v.decode genes) = genes := by
  have back : genes.map (squeeze v.bound ∘ stretch v.bound) = genes.map id := by
    refine List.map_congr_left fun g member => ?_
    obtain ⟨x, rfl, lower, upper⟩ := unit g member
    rw [bound, Function.comp_apply, squeeze_stretch wide lower upper, id]
  rcases real with kind | kind <;>
  · simp only [decode, encode, kind, List.map_map]
    rw [back, List.map_id]

end Variable
end Metaheuristic
