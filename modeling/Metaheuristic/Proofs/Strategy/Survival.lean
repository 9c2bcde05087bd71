import Mathlib.Data.List.Range
import Mathlib.Data.List.Perm.Subperm
import Metaheuristic.Proofs.Random.Distinct
import Metaheuristic.Proofs.Strategy.Answers

/-! Selection keeps rows that rank well. A fraction of the rows stands for a number of them. With
so many survivors the other places are filled from them; in tournaments of so many different rows
the winner has the others behind it, so the worst rows never win. Settling ranks the rows and
copies them whole to the places of the order. -/
namespace Metaheuristic

variable {ρ α : Type} [Scalar α] [RandomSource ρ α] {l : Layout} {n : Nat} {p : Population α}

namespace Selection

omit [RandomSource ρ α] in
/-- A fraction of the rows is rounded to whole rows, at least one and at most all. -/
theorem sizeOf_eq (positive : 0 < n) (fraction : α) : sizeOf n fraction =
    max 1 (min n (Scalar.toWord (Scalar.round (fraction * Scalar.ofNat n)))) := by
  unfold sizeOf
  dsimp only
  generalize Scalar.toWord (Scalar.round (fraction * Scalar.ofNat n)) = size
  split
  · omega
  · change min size (max n 1) = _
    omega

/-- What an order of the rows is when the selection works with that many of them: rows that stay,
or winners of tournaments. -/
structure Selects (s : Selection) (n size : Nat) (order : List Nat) : Prop where
  length : order.length = n
  below : ∀ row ∈ order, row < n
  random : s = .random → ∀ i row : Nat, order[i]? = some row →
    if i < size then row = i else row < size
  tournament : s = .tournament → ∀ row ∈ order, row + size ≤ n

/-- The least of several different numbers has the others between itself and the bound. -/
theorem min_add_length_le {picks : List Nat} {winner : Nat} (apart : picks.Nodup)
    (below : ∀ k ∈ picks, k < n) (least : picks.min? = some winner) :
    winner + picks.length ≤ n := by
  obtain ⟨member, smallest⟩ := List.min?_eq_some_iff.mp least
  have between : picks ⊆ List.range' winner (n - winner) := by
    intro k inside
    have above := smallest k inside
    have under := below k inside
    rw [List.mem_range'_1]
    omega
  have fits := (List.subperm_of_subset apart between).length_le
  rw [List.length_range'] at fits
  have won := below winner member
  omega

omit [Scalar α] [RandomSource ρ α] in
theorem entry_of_fills {keep i entry : Nat} {order : List Nat}
    (fills : List.Forall₂ (Fills keep) (List.range n) order) (place : order[i]? = some entry) :
    if i < keep then entry = i else entry < keep := by
  obtain ⟨inside, rfl⟩ := List.getElem?_eq_some_iff.mp place
  have fill := fills.get (fills.length_eq.symm ▸ inside) inside
  rw [List.get_eq_getElem, List.get_eq_getElem, List.getElem_range] at fill
  rcases fill with ⟨stays, same⟩ | ⟨leaves, drawn⟩
  · rwa [if_pos stays]
  · rwa [if_neg (Nat.not_lt.mpr leaves)]

section Order

variable (inRange : RandomSource.InRange ρ n)

include inRange

omit [Scalar α] in
/-- Tournaments of different rows are won by rows that have the others behind them. -/
theorem tournaments_spare {size : Nat} (distinct : RandomSource.Distinct ρ) (positive : 0 < size)
    (enough : size ≤ n) (count : Nat) :
    Draw.Answers (tournaments n size count : Draw ρ (List Nat)) fun order =>
      ∀ row ∈ order, row + size ≤ n := by
  refine tournaments_answers (.sample_distinct inRange distinct (Nat.le_refl n) enough)
    (fun picks drawn => ?_) count
  obtain ⟨length, below, apart⟩ := drawn
  obtain ⟨winner, least, _⟩ := exists_winner positive length
  have fits := min_add_length_le apart below least
  rwa [least, ← length]

theorem order_selects (s : Selection) (distinct : RandomSource.Distinct ρ) (positive : 0 < n)
    (fraction : α) :
    Draw.Answers (s.order n fraction : Draw ρ (List Nat)) (s.Selects n (sizeOf n fraction)) := by
  obtain ⟨some, enough⟩ := sizeOf_bounds positive fraction
  have ordered := order_answers (α := α) inRange s positive fraction
  cases s with
  | random =>
    exact (ordered.and (survivors_answers inRange some (List.range n))).weaken
      fun order ⟨⟨length, below⟩, fills⟩ =>
        ⟨length, below, fun _ i row place => entry_of_fills fills place, nofun⟩
  | tournament =>
    exact (ordered.and (tournaments_spare inRange distinct some enough n)).weaken
      fun order ⟨⟨length, below⟩, spare⟩ => ⟨length, below, nofun, fun _ => spare⟩

end Order
end Selection

namespace Genetic

/-- The row at place `i` is a whole copy of the row that comes to place `k` in a ranking. -/
def Copies (ranked : List Nat) (p q : Population α) (i k : Nat) : Prop :=
  ∃ row r, ranked[k]? = some row ∧ p.rows[row]? = some r ∧ q.rows[i]? = some r

variable [Scalar.LawfulUnit α] {directions : List Direction} {s : State α}

/-- Settling always succeeds. It draws a fraction, and then an order by which the ranked rows are
copied. -/
theorem settle_selects (inRange : RandomSource.InRange ρ n) (distinct : RandomSource.Distinct ρ)
    (valid : s.settings.validate = .ok ()) (positive : 0 < n)
    (objectives : l.objectives = directions.length) (sized : p.Sized l n) (random : ρ) :
    ∃ fraction drawn ranked order q settled,
      (survivingFraction s.settings : Draw ρ α).run.run random = (.ok fraction, drawn) ∧
      p.ranking .trial directions = .ok ranked ∧ ranked.Perm (List.range n) ∧
      s.settings.selection.Selects n (Selection.sizeOf n fraction) order ∧
      (settle directions s p).run.run random = (.ok (s, q), settled) ∧ q.Sized l n ∧
      ∀ i k : Nat, order[i]? = some k → Copies ranked p q i k := by
  obtain ⟨ranked, named, placed⟩ := sized.exists_ranking objectives .trial
  obtain ⟨sorted, sorting, kept⟩ := sized.exists_sortBestFirst objectives .trial
  obtain ⟨fraction, drawn, spanned, _⟩ := survivingFraction_answers valid random
  obtain ⟨order, settled, chosen, selects⟩ :=
    Selection.order_selects inRange s.settings.selection distinct positive fraction drawn
  obtain ⟨q, reordered, kept'⟩ := kept.exists_reorder selects.length selects.below
  refine ⟨fraction, drawn, ranked, order, q, settled, spanned, named, placed, selects, ?_, kept',
    fun i k place => ?_⟩
  · rw [settle, Draw.run_ofExcept sorting, run_bind_of_ok spanned, kept.count,
      run_bind_of_ok chosen, Draw.run_ofExcept reordered]
    rfl
  · rw [Population.sortBestFirst, named] at sorting
    obtain ⟨_, _, length, first⟩ := Population.reorder_moved sorting
    obtain ⟨_, _, _, second⟩ := Population.reorder_moved reordered
    obtain ⟨r, here, there⟩ := second i k place
    have below := (List.getElem?_eq_some_iff.mp here).1
    rw [length] at below
    obtain ⟨r', held, found⟩ := first k _ (List.getElem?_eq_getElem below)
    rw [here] at found
    cases found
    exact ⟨_, r, List.getElem?_eq_getElem below, held, there⟩

end Genetic
end Metaheuristic
