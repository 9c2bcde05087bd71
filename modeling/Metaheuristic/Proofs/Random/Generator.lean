import Metaheuristic.Proofs.Random.Answers
import Metaheuristic.Random.Generator

/-! The word stream keeps to its ranges. The high half of a product with the bound is
below the bound, and it is only corrected upwards where it is not the last number. A
sample replaces or exchanges numbers of its range by others of it. Samples from more than
a hundred and sixty-two numbers may be drawn again word by word, which is left out here:
how many words that takes depends on the stream. -/
namespace Metaheuristic.Generator

variable {α : Type}

theorem wordOf_lt (wide : Bool) (g : Generator α) : (g.wordOf wide).1 < wordSpan wide := by
  cases wide with
  | false => exact UInt32.toNat_lt g.word32.1
  | true => exact UInt64.toNat_lt g.word64.1

/-- The correction never leaves the range: it is made only where the low half is large,
and beside the last number it is not. -/
theorem below_lt (wide : Bool) {n : Nat} (positive : 0 < n) (g : Generator α) :
    (g.below wide n).1 < n := by
  have word := wordOf_lt wide g
  have spanned : 0 < wordSpan wide := Nat.zero_lt_of_lt word
  have high : (g.wordOf wide).1 * n / wordSpan wide < n := by
    rw [Nat.div_lt_iff_lt_mul spanned, Nat.mul_comm n]
    exact Nat.mul_lt_mul_of_pos_right word positive
  -- beside the last number the low half is at most what the span has over the bound
  have inner (biased : wordSpan wide - n < (g.wordOf wide).1 * n % wordSpan wide) :
      (g.wordOf wide).1 * n / wordSpan wide + 1 < n := by
    refine Nat.lt_of_le_of_ne high fun last => ?_
    have whole := Nat.div_add_mod ((g.wordOf wide).1 * n) (wordSpan wide)
    have top : (g.wordOf wide).1 * n / wordSpan wide = n - 1 := by omega
    have most : (g.wordOf wide).1 * n ≤ (wordSpan wide - 1) * n :=
      Nat.mul_le_mul_right n (by omega)
    rw [top, Nat.mul_sub, Nat.mul_one] at whole
    rw [Nat.sub_mul, Nat.one_mul] at most
    have room : wordSpan wide ≤ wordSpan wide * n := Nat.le_mul_of_pos_right _ positive
    omega
  unfold below
  dsimp only
  split
  · rename_i biased
    dsimp only
    split
    · exact inner biased
    · exact high
  · exact high

/-- Picks below the end stay there, and each round adds one. -/
theorem sampleByReplacement_spec (bound count next : Nat) {picks : List Nat}
    (g : Generator α) (room : next + count ≤ bound) (below : ∀ k ∈ picks, k < bound) :
    (sampleByReplacement count next picks g).1.length = picks.length + count ∧
      ∀ k ∈ (sampleByReplacement count next picks g).1, k < bound := by
  induction count generalizing next picks g with
  | zero => exact ⟨rfl, below⟩
  | succ count ih =>
    have newest : (g.below false (next + 1)).1 < next + 1 := below_lt false (Nat.succ_pos next) g
    have kept : ∀ k ∈ picks.map (fun p => if p = (g.below false (next + 1)).1 then next else p) ++
        [(g.below false (next + 1)).1], k < bound := by
      intro k member
      rcases List.mem_append.mp member with earlier | last
      · obtain ⟨p, inside, rfl⟩ := List.mem_map.mp earlier
        split
        · omega
        · exact below p inside
      · rw [List.mem_singleton.mp last]
        omega
    obtain ⟨length, inside⟩ := ih (next + 1) (g.below false (next + 1)).2 (by omega) kept
    refine ⟨length.trans ?_, inside⟩
    rw [List.length_append, List.length_map, List.length_singleton]
    omega

/-- Exchanging places keeps the numbers of a range. -/
theorem shuffleHead_spec {n : Nat} (count i : Nat) {a : Array Nat} (g : Generator α)
    (size : a.size = n) (below : ∀ k ∈ a, k < n) :
    (shuffleHead count i a g).1.size = n ∧ ∀ k ∈ (shuffleHead count i a g).1, k < n := by
  induction count generalizing i a g with
  | zero => exact ⟨size, below⟩
  | succ count ih =>
    have swapped : (swap a i (i + (g.below false (a.size - i)).1)).size = n := by
      simp [swap, size]
    refine ih (i + 1) (g.below false (a.size - i)).2 swapped fun k member => ?_
    have someone : 0 < n := swapped ▸ Array.size_pos_of_mem member
    have read (j : Nat) : a.getD j 0 < n := by
      rw [Array.getD_eq_getD_getElem?]
      cases held : a[j]? with
      | none => exact someone
      | some x => exact below x (Array.mem_of_getElem? held)
    rcases Array.mem_or_eq_of_mem_setIfInBounds member with earlier | rfl
    · rcases Array.mem_or_eq_of_mem_setIfInBounds earlier with old | rfl
      · exact below k old
      · exact read _
    · exact read _

theorem sampleByShuffle_spec {n count : Nat} (enough : count ≤ n) (g : Generator α) :
    (sampleByShuffle n count g).1.length = count ∧
      ∀ k ∈ (sampleByShuffle n count g).1, k < n := by
  obtain ⟨size, below⟩ := shuffleHead_spec count 0 g (Array.size_range (n := n))
    fun k member => Array.mem_range.mp member
  refine ⟨?_, fun k member => below k (Array.mem_def.mpr (List.mem_of_mem_take member))⟩
  have length : (shuffleHead count 0 (Array.range n) g).1.toList.length = n := size
  exact (List.length_take ..).trans (by omega)

/-- The draws of the word stream, for populations of at most a hundred and sixty-two. -/
theorem inRange [Scalar α] : RandomSource.InRange (Generator α) 162 where
  index g positive := below_lt _ positive g
  sample {bound count} g small enough := by
    have narrow : ¬wordSpan false ≤ bound := by
      have span : wordSpan false = 4294967296 := rfl
      omega
    have short : count < 163 := by omega
    have unfolded : (RandomSource.sample bound count g : List Nat × Generator α) =
        if denseSmall bound count then sampleByShuffle bound count g
        else sampleByReplacement count (bound - count) [] g := by
      change sample bound count g = _
      rw [sample, if_neg narrow, if_pos short]
    rw [unfolded]
    split
    · exact sampleByShuffle_spec enough g
    · obtain ⟨length, below⟩ := sampleByReplacement_spec bound count (bound - count) g
        (by omega) fun k (member : k ∈ []) => nomatch member
      exact ⟨length.trans (Nat.zero_add count), below⟩

end Metaheuristic.Generator
