import Metaheuristic.Proofs.Number.Ends
import Metaheuristic.Proofs.Quality.Direction
import Metaheuristic.Search.Statistics

/-! Statistics of columns. The extreme values of a column are entries of it, and no finite entry
lies beyond them. So when no entry of a column gets worse, its best value does not either, and a
column that has had a finite entry keeps one. -/
namespace Metaheuristic

variable {α : Type} [Scalar α]

namespace Direction

/-- The value that no other is better than. -/
def unbeatable : Direction → α
  | minimize => -Scalar.infinity
  | maximize => Scalar.infinity

/-- The better of two numbers, the second one of two equal numbers. -/
def pick : Direction → α → α → α
  | minimize => Scalar.min
  | maximize => Scalar.max

variable {d : Direction} {x y start : α} {xs : List α}

section Ends

variable [Scalar.LawfulEnds α]

/-- The worst value is better than nothing. -/
theorem not_worst_isBetter (x : α) : d.isBetter d.worst x = false := by
  cases d with
  | minimize => exact Scalar.LawfulEnds.not_infinity_lt x
  | maximize => exact Scalar.LawfulEnds.not_lt_neg_infinity x

theorem not_isBetter_unbeatable (x : α) : d.isBetter x d.unbeatable = false := by
  cases d with
  | minimize => exact Scalar.LawfulEnds.not_lt_neg_infinity x
  | maximize => exact Scalar.LawfulEnds.not_infinity_lt x

end Ends

variable [Scalar.LawfulOrder α]

/-- The finite values are those between the worst and the unbeatable one. -/
theorem finite_iff :
    Scalar.isFinite x = true ↔ d.isBetter x d.worst = true ∧ d.isBetter d.unbeatable x = true := by
  cases d with
  | minimize => exact Scalar.LawfulOrder.finite_iff.trans and_comm
  | maximize => exact Scalar.LawfulOrder.finite_iff

theorem unbeatable_defined : Scalar.isNaN (d.unbeatable : α) = false := by
  cases d with
  | minimize => exact Scalar.LawfulOrder.neg_infinity_defined
  | maximize => exact Scalar.LawfulOrder.infinity_defined

/-- A number that is no worse than a finite one is finite, unless it is the unbeatable one. -/
theorem finite_of_not_worse [Scalar.LawfulEnds α] (finite : Scalar.isFinite x = true)
    (defined : Scalar.isNaN y = false) (notWorse : d.isBetter x y = false)
    (beatable : (y == d.unbeatable) = false) : Scalar.isFinite y = true := by
  refine (finite_iff (d := d)).mpr ⟨?_, ?_⟩
  · rcases isBetter_or_isBetter y defined (finite_iff.mp finite).1 with worse | better
    · rw [notWorse] at worse
      contradiction
    · exact better
  · by_contra beyond
    have same := (eq_iff_not_isBetter defined unbeatable_defined).mpr
      ⟨not_isBetter_unbeatable y, Bool.eq_false_iff.mpr beyond⟩
    rw [beatable] at same
    contradiction

theorem not_isBetter_of_eq_worst [Scalar.LawfulEnds α] (same : (x == d.worst) = true) (y : α) :
    d.isBetter x y = false := by
  rw [isBetter_congr_left same]
  exact not_worst_isBetter y

/-- The picked number is one of the two, and neither is better. -/
theorem pick_spec (left : Scalar.isNaN x = false) (right : Scalar.isNaN y = false) :
    (d.pick x y = x ∨ d.pick x y = y) ∧
      d.isBetter x (d.pick x y) = false ∧ d.isBetter y (d.pick x y) = false := by
  have unfolded : d.pick x y = if d.isBetter x y then x else y := by
    cases d <;> simp only [pick, Scalar.min, Scalar.max, left, right, Bool.false_eq_true, if_false]
      <;> rfl
  rw [unfolded]
  split
  · rename_i better
    exact ⟨.inl rfl, isBetter_irrefl, isBetter_asymm better⟩
  · rename_i notBetter
    exact ⟨.inr rfl, Bool.eq_false_iff.mpr notBetter, isBetter_irrefl⟩

/-- By induction on the numbers that are picked from, with any number to start with. -/
theorem foldl_pick (first : Scalar.isNaN start = false)
    (defined : ∀ x ∈ xs, Scalar.isNaN x = false) :
    (xs.foldl d.pick start = start ∨ xs.foldl d.pick start ∈ xs) ∧
      d.isBetter start (xs.foldl d.pick start) = false ∧
      ∀ x ∈ xs, d.isBetter x (xs.foldl d.pick start) = false := by
  induction xs generalizing start with
  | nil => exact ⟨.inl rfl, isBetter_irrefl, nofun⟩
  | cons x xs ih =>
    obtain ⟨number, rest⟩ := List.forall_mem_cons.mp defined
    obtain ⟨one, notStart, notX⟩ := pick_spec (d := d) first number
    have picked : Scalar.isNaN (d.pick start x) = false := by
      rcases one with same | same <;> rw [same] <;> assumption
    obtain ⟨among, unbeaten, all⟩ := ih picked rest
    rw [List.foldl_cons]
    refine ⟨?_, not_isBetter_trans picked unbeaten notStart, List.forall_mem_cons.mpr
      ⟨not_isBetter_trans picked unbeaten notX, all⟩⟩
    rcases among with same | later
    · rcases one with start' | x'
      · exact .inl (same.trans start')
      · rw [same, x']
        exact .inr List.mem_cons_self
    · exact .inr (List.mem_cons_of_mem _ later)

/-- Picked from finite numbers, the best is one of them. -/
theorem foldl_pick_worst (some : xs ≠ []) (finite : ∀ x ∈ xs, Scalar.isFinite x = true) :
    xs.foldl d.pick d.worst ∈ xs ∧ ∀ x ∈ xs, d.isBetter x (xs.foldl d.pick d.worst) = false := by
  obtain ⟨among, _, unbeaten⟩ := foldl_pick (d := d) worst_defined
    fun x member => Scalar.defined_of_finite (finite x member)
  refine ⟨among.resolve_left fun none => ?_, unbeaten⟩
  obtain ⟨x, member⟩ := List.exists_mem_of_ne_nil xs some
  have better := (finite_iff (d := d).mp (finite x member)).1
  have notBetter := unbeaten x member
  rw [none, better] at notBetter
  contradiction

end Direction

namespace Statistics

variable {d : Direction} {i j : Nat} {xs ys : List α}

/-- Something in the statistics is finite. -/
def Finite (s : Statistics α) : Prop :=
  Scalar.isFinite s.min = true ∨ Scalar.isFinite s.max = true ∨
    Scalar.isFinite s.mean = true ∨ Scalar.isFinite s.std = true

/-- The best value that the statistics know of. -/
def best (d : Direction) (s : Statistics α) : α :=
  match d with
  | .minimize => s.min
  | .maximize => s.max

/-- The later statistics lose nothing that the earlier ones had: they stay finite, and under
their direction they are at least as good. -/
def Keeps (d : Direction) (s t : Statistics α) : Prop :=
  s.Finite → Scalar.isFinite t.min = true ∧ Scalar.isFinite t.max = true ∧
    match d with
    | .minimize => Scalar.le t.min s.min = true
    | .maximize => Scalar.le s.max t.max = true

variable [Scalar.LawfulOrder α]

/-- The best of a column with finite entries is one of these, and no other is better. -/
theorem best_ofColumn (d : Direction) (i : Nat) (some : xs.filter Scalar.isFinite ≠ []) :
    (ofColumn i xs).best d ∈ xs.filter Scalar.isFinite ∧
      ∀ x ∈ xs, Scalar.isFinite x = true → d.isBetter x ((ofColumn i xs).best d) = false := by
  have picked : (ofColumn i xs).best d = (xs.filter Scalar.isFinite).foldl d.pick d.worst := by
    unfold ofColumn
    dsimp only
    rw [if_neg (by simpa using some)]
    cases d <;> rfl
  obtain ⟨member, unbeaten⟩ := Direction.foldl_pick_worst (d := d) some
    fun x member => (List.mem_filter.mp member).2
  rw [picked]
  exact ⟨member, fun x inside finite => unbeaten x (List.mem_filter.mpr ⟨inside, finite⟩)⟩

variable [Scalar.LawfulEnds α]

/-- Statistics of no finite entries are undefined throughout. -/
theorem exists_finite (finite : (ofColumn i xs).Finite) : xs.filter Scalar.isFinite ≠ [] := by
  intro none
  have undefined : Scalar.isFinite (Scalar.notANumber : α) = false := by
    rw [Bool.eq_false_iff]
    intro finite
    have defined := Scalar.defined_of_finite finite
    rw [Scalar.LawfulEnds.notANumber_undefined] at defined
    contradiction
  have empty : ofColumn i xs = ⟨i, Scalar.notANumber, Scalar.notANumber, Scalar.notANumber,
      Scalar.notANumber⟩ := by
    unfold ofColumn
    dsimp only
    rw [none]
    rfl
  rw [empty] at finite
  simp [Finite, undefined] at finite

/-- Entry by entry a column gets no worse, so neither does its best value. -/
theorem keeps_ofColumn
    (notWorse : List.Forall₂ (fun x y => d.isBetter x y = false) xs ys)
    (defined : ∀ y ∈ ys, Scalar.isNaN y = false)
    (beatable : ∀ y ∈ ys, y = d.worst ∨ (y == d.unbeatable) = false) :
    (ofColumn i xs).Keeps d (ofColumn j ys) := by
  intro finite
  obtain ⟨inside, _⟩ := best_ofColumn d i (exists_finite finite)
  obtain ⟨before, finiteX⟩ := List.mem_filter.mp inside
  obtain ⟨y, member, notBetter⟩ : ∃ y ∈ ys, d.isBetter ((ofColumn i xs).best d) y = false := by
    obtain ⟨k, below, place⟩ := List.mem_iff_getElem.mp before
    have below' : k < ys.length := notWorse.length_eq ▸ below
    refine ⟨ys[k], List.getElem_mem below', ?_⟩
    rw [← place]
    exact notWorse.get below below'
  have finiteY : Scalar.isFinite y = true := by
    rcases beatable y member with worst | beatable
    · rw [worst, (Direction.finite_iff.mp finiteX).1] at notBetter
      contradiction
    · exact Direction.finite_of_not_worse finiteX (defined y member) notBetter beatable
  have some : ys.filter Scalar.isFinite ≠ [] :=
    List.ne_nil_of_mem (List.mem_filter.mpr ⟨member, finiteY⟩)
  have among (d : Direction) : Scalar.isFinite ((ofColumn j ys).best d) = true :=
    (List.mem_filter.mp (best_ofColumn d j some).1).2
  have kept : d.isBetter ((ofColumn i xs).best d) ((ofColumn j ys).best d) = false :=
    Direction.not_isBetter_trans (defined y member)
      ((best_ofColumn d j some).2 y member finiteY) notBetter
  refine ⟨among .minimize, among .maximize, ?_⟩
  cases d with
  | minimize =>
    exact Scalar.le_of_not_lt (Scalar.defined_of_finite finiteX)
      (Scalar.defined_of_finite (among .minimize)) kept
  | maximize =>
    exact Scalar.le_of_not_lt (Scalar.defined_of_finite (among .maximize))
      (Scalar.defined_of_finite finiteX) kept

end Statistics
end Metaheuristic
