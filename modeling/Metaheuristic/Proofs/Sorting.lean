import Mathlib.Data.List.Nodup
import Mathlib.Order.Defs.LinearOrder

/-! Sorting by a comparison. Whatever a comparison looks at, a sorted list is a rearrangement in
which nothing stands behind what it comes before. Positions that compare as equal keep their
order, so an order of positions is fixed by its comparison alone. -/
namespace Metaheuristic.Sorting

variable {β γ : Type} {cmp : β → β → Ordering}

/-- Comparing what belongs to positions. -/
theorem transCmp_on (cmp : β → β → Ordering) [Std.TransCmp cmp] (f : γ → β) :
    Std.TransCmp fun a b => cmp (f a) (f b) where
  eq_swap := Std.OrientedCmp.eq_swap
  isLE_trans := Std.TransCmp.isLE_trans

theorem isLE_eq (o : Ordering) : (o != .gt) = o.isLE := by cases o <;> rfl

section Ordered

variable [Std.TransCmp cmp]

theorem ordered_trans (a b c : β) (first : (cmp a b != .gt) = true)
    (second : (cmp b c != .gt) = true) : (cmp a c != .gt) = true := by
  rw [isLE_eq] at *
  exact Std.TransCmp.isLE_trans first second

theorem ordered_total (a b : β) : ((cmp a b != .gt) || (cmp b a != .gt)) = true := by
  rw [(Std.OrientedCmp.eq_swap : cmp a b = (cmp b a).swap)]
  cases cmp b a <;> rfl

/-- Nothing stands behind what it comes before. -/
theorem pairwise_mergeSort (cmp : β → β → Ordering) [Std.TransCmp cmp] (xs : List β) :
    (xs.mergeSort fun a b => cmp a b != .gt).Pairwise fun a b => cmp a b ≠ .gt :=
  (List.pairwise_mergeSort ordered_trans ordered_total xs).imp bne_iff_ne.mp

/-- A rearrangement in which everything stands strictly before what it comes before is what
sorting leads to. -/
theorem mergeSort_eq (cmp : β → β → Ordering) [Std.TransCmp cmp] {xs ys : List β}
    (perm : ys.Perm xs) (strict : ys.Pairwise fun a b => cmp a b = .lt) :
    (xs.mergeSort fun a b => cmp a b != .gt) = ys := by
  have given : ys.Pairwise fun a b => cmp a b ≠ .gt := strict.imp fun before => by simp [before]
  -- of two different entries one stands strictly before the other
  have linear : ∀ a ∈ ys, ∀ b ∈ ys, cmp a b ≠ .gt → cmp b a ≠ .gt → a = b := by
    refine List.Pairwise.forall_of_forall_of_flip (fun _ _ _ _ => rfl) ?_ ?_
    · exact strict.imp fun before _ notBehind => absurd (Std.OrientedCmp.gt_of_lt before) notBehind
    · exact strict.imp fun before notBehind _ => absurd (Std.OrientedCmp.gt_of_lt before) notBehind
  refine List.Perm.eq_of_pairwise (fun a b first second => ?_) (pairwise_mergeSort cmp xs) given
    ((List.mergeSort_perm ..).trans perm.symm)
  rw [(List.mergeSort_perm ..).mem_iff, ← perm.mem_iff] at first
  exact linear a first b second

end Ordered

/-- Of two entries of a list without repetitions one comes first. -/
theorem not_sublist_of_sublist {xs : List β} (once : xs.Nodup) {a b : β}
    (before : [a, b].Sublist xs) : ¬[b, a].Sublist xs := by
  intro behind
  induction xs with
  | nil => cases before
  | cons x xs ih =>
    obtain ⟨fresh, once⟩ := List.nodup_cons.mp once
    rw [List.cons_sublist_cons'] at before behind
    rcases before with before | ⟨rfl, before⟩ <;> rcases behind with behind | ⟨rfl, behind⟩
    · exact ih once before behind
    · exact fresh (before.subset (by simp))
    · exact fresh (behind.subset (by simp))
    · exact fresh (before.subset (by simp))

/-- Positions in order of a comparison: the one that compares as lower stands first, and of two
that compare as equal the lower position does. -/
theorem pairwise_positions (cmp : Nat → Nat → Ordering) [Std.TransCmp cmp] (n : Nat) :
    ((List.range n).mergeSort fun a b => cmp a b != .gt).Pairwise
      fun a b => cmp a b = .lt ∨ cmp a b = .eq ∧ a < b := by
  have perm := List.mergeSort_perm (List.range n) fun a b => cmp a b != .gt
  have sorted := pairwise_mergeSort cmp (List.range n)
  have once := perm.nodup_iff.mpr List.nodup_range
  rw [List.pairwise_iff_forall_sublist] at sorted ⊢
  intro a b before
  cases compared : cmp a b with
  | lt => exact .inl rfl
  | gt => exact absurd compared (sorted before)
  | eq =>
    refine .inr ⟨rfl, Nat.lt_of_not_le fun below => ?_⟩
    have apart : a ≠ b := by
      rintro rfl
      exact not_sublist_of_sublist once before before
    have inside : a < n := List.mem_range.mp (perm.mem_iff.mp (before.subset (by simp)))
    have first : [b, a].Sublist (List.range n) := by
      have lower : b < a := Nat.lt_of_le_of_ne below apart.symm
      have pair := (List.singleton_sublist.mpr (List.mem_range.mpr lower)).append
        (List.Sublist.refl [a])
      rw [← List.range_succ] at pair
      exact pair.trans (List.range_sublist.mpr inside)
    have back : cmp b a = .eq := Std.OrientedCmp.eq_symm compared
    have kept : [b, a].Sublist ((List.range n).mergeSort fun a b => cmp a b != .gt) :=
      List.pair_sublist_mergeSort ordered_trans ordered_total (by rw [back]; rfl) first
    exact not_sublist_of_sublist once before kept

end Metaheuristic.Sorting
