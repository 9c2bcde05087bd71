import Mathlib.Data.List.Nodup
import Metaheuristic.Proofs.Random.Generator

/-! Samples of different numbers. Each way of sampling keeps its picks apart: a repeated pick gives
way to a candidate that is newer than all, shuffling only exchanges the numbers of the range, and
whatever was picked before is drawn again. -/
namespace Metaheuristic

/-- A source that repeats nothing in a sample of no more numbers than there are. -/
structure RandomSource.Distinct (ρ : Type) {α : Type} [RandomSource ρ α] : Prop where
  sample : ∀ {bound count : Nat} (s : ρ), count ≤ bound →
    (RandomSource.sample bound count s).1.Nodup

/-- A sample has as many numbers as it was asked for, all of them below the bound and none
twice. -/
theorem Draw.Answers.sample_distinct {ρ α : Type} [RandomSource ρ α] {limit bound count : Nat}
    (inRange : RandomSource.InRange ρ limit) (distinct : RandomSource.Distinct ρ)
    (small : bound ≤ limit) (enough : count ≤ bound) :
    Draw.Answers (Draw.sample bound count : Draw ρ (List Nat)) fun picks =>
      picks.length = count ∧ (∀ k ∈ picks, k < bound) ∧ picks.Nodup := by
  have apart : Draw.Yields (Draw.sample bound count : Draw ρ (List Nat)) List.Nodup := by
    intro s picks s' _ ran
    rw [Draw.sample, if_neg (Nat.not_lt.mpr enough)] at ran
    cases ran
    exact distinct.sample s enough
  exact ((Draw.Answers.sample inRange small enough).and_yields apart).weaken
    fun picks both => ⟨both.1.1, both.1.2, both.2⟩

namespace Generator

variable {α : Type}

/-- Picks below the next candidate stay apart when a repeated one gives way to the candidate. -/
theorem replaced_apart {next t : Nat} {picks : List Nat} (newest : t ≤ next)
    (below : ∀ k ∈ picks, k < next) (apart : picks.Nodup) :
    (∀ k ∈ picks.map (fun p => if p = t then next else p) ++ [t], k < next + 1) ∧
      (picks.map (fun p => if p = t then next else p) ++ [t]).Nodup := by
  constructor
  · intro k member
    rcases List.mem_append.mp member with moved | last
    · obtain ⟨p, inside, rfl⟩ := List.mem_map.mp moved
      have earlier := below p inside
      split <;> omega
    · rw [List.mem_singleton.mp last]
      omega
  · refine (List.Nodup.map_on (fun p insideP q insideQ same => ?_) apart).append
      (List.pairwise_singleton _ t) ?_
    · have belowP := below p insideP
      have belowQ := below q insideQ
      split at same <;> split at same <;> omega
    · rw [List.disjoint_singleton]
      intro member
      obtain ⟨p, inside, same⟩ := List.mem_map.mp member
      have earlier := below p inside
      split at same
      · omega
      · contradiction

theorem sampleByReplacement_nodup (count next : Nat) {picks : List Nat} (g : Generator α)
    (below : ∀ k ∈ picks, k < next) (apart : picks.Nodup) :
    (sampleByReplacement count next picks g).1.Nodup := by
  induction count generalizing next picks g with
  | zero => exact apart
  | succ count ih =>
    have newest := below_lt false (Nat.succ_pos next) g
    obtain ⟨below', apart'⟩ := replaced_apart (Nat.le_of_lt_succ newest) below apart
    exact ih (next + 1) _ below' apart'

/-- Exchanging two places of an array exchanges its numbers. -/
theorem swap_eq {a : Array Nat} {i j : Nat} (left : i < a.size) (right : j < a.size) :
    swap a i j = a.swap i j := by
  rw [swap, Array.swap_def, Array.getD_eq_getD_getElem?, Array.getD_eq_getD_getElem?,
    Array.getElem?_eq_getElem left, Array.getElem?_eq_getElem right]
  simp [Array.setIfInBounds, left, right]

theorem swap_perm {a : Array Nat} {i j : Nat} (left : i < a.size) (right : j < a.size) :
    (swap a i j).Perm a := by
  rw [swap_eq left right]
  exact Array.swap_perm left right

theorem shuffleHead_perm (count i : Nat) {a : Array Nat} (g : Generator α)
    (room : i + count ≤ a.size) : (shuffleHead count i a g).1.Perm a := by
  induction count generalizing i a g with
  | zero => exact .refl a
  | succ count ih =>
    have place : (g.below false (a.size - i)).1 < a.size - i := below_lt false (by omega) g
    have exchanged : (swap a i (i + (g.below false (a.size - i)).1)).Perm a :=
      swap_perm (by omega) (by omega)
    have room' : i + 1 + count ≤ (swap a i (i + (g.below false (a.size - i)).1)).size := by
      rw [exchanged.size_eq]
      omega
    exact (ih (i + 1) _ room').trans exchanged

theorem sampleByShuffle_nodup {n count : Nat} (enough : count ≤ n) (g : Generator α) :
    (sampleByShuffle n count g).1.Nodup := by
  have shuffled := shuffleHead_perm count 0 (a := Array.range n) g (by simpa using enough)
  have apart : (shuffleHead count 0 (Array.range n) g).1.toList.Nodup := by
    rw [shuffled.toList.nodup_iff, Array.toList_range]
    exact List.nodup_range
  exact apart.sublist (List.take_sublist count _)

theorem sampleByRejection_nodup (wide : Bool) (n count fuel : Nat) {picks : List Nat}
    (g : Generator α) (apart : picks.Nodup) :
    (sampleByRejection wide n count fuel picks g).1.Nodup := by
  induction fuel generalizing picks g with
  | zero => exact List.nodup_reverse.mpr apart
  | succ fuel ih =>
    rw [sampleByRejection]
    split
    · exact List.nodup_reverse.mpr apart
    · dsimp only
      split
      · exact ih _ apart
      · rename_i fresh
        refine ih _ (List.nodup_cons.mpr ⟨fun member => fresh ?_, apart⟩)
        exact Bool.or_eq_true_iff.mpr (.inr (List.contains_iff_mem.mpr member))

/-- The word stream repeats nothing in a sample, whichever way it is drawn. -/
theorem distinct [Scalar α] : RandomSource.Distinct (Generator α) where
  sample {bound count} g enough := by
    change (sample bound count g).1.Nodup
    unfold sample
    split
    · exact sampleByRejection_nodup true bound count rejectionFuel g List.nodup_nil
    · split
      · split
        · exact sampleByShuffle_nodup enough g
        · exact sampleByReplacement_nodup count (bound - count) g nofun List.nodup_nil
      · split
        · exact sampleByShuffle_nodup enough g
        · exact sampleByRejection_nodup false bound count rejectionFuel g List.nodup_nil

end Generator
end Metaheuristic
