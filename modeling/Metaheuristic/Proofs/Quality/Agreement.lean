import Metaheuristic.Proofs.Number.Double
import Metaheuristic.Proofs.Quality.Minima

/-! The two tests of dominance. Rewards are compared under their directions where an archive
offers and a trial replaces, and as points to be minimized where a population is ranked. Both
tests look for the same thing, an entry that is strictly better, so they agree on all vectors,
undefined entries included. The order laws are those of a strict order of vectors of numbers that
have one length. -/
namespace Metaheuristic

variable {α : Type} [Scalar α] {ds : List Direction} {a b c : List α}

/-- What the four answers about two points say of the rewards that they stand for. -/
structure Agreement (ds : List Direction) (a b : List α) : Prop where
  dominates : Dominance.compare (toMinima ds a) (toMinima ds b) = .dominates ↔
    dominates ds a b = true
  dominatedBy : Dominance.compare (toMinima ds a) (toMinima ds b) = .dominatedBy ↔
    Metaheuristic.dominates ds b a = true
  equal : Dominance.compare (toMinima ds a) (toMinima ds b) = .equal ↔
    ¬SomewhereBetter ds a b ∧ ¬SomewhereBetter ds b a
  incomparable : Dominance.compare (toMinima ds a) (toMinima ds b) = .incomparable ↔
    SomewhereBetter ds a b ∧ SomewhereBetter ds b a

theorem agreement [Scalar.LawfulSigns α] (ds : List Direction) (a b : List α) :
    Agreement ds a b := by
  have ahead : Dominance.wins (toMinima ds a) (toMinima ds b) = true ↔ SomewhereBetter ds a b :=
    wins_toMinima
  have behind : Dominance.wins (toMinima ds b) (toMinima ds a) = true ↔ SomewhereBetter ds b a :=
    wins_toMinima
  refine ⟨?_, ?_, ?_, ?_⟩
  · exact compare_toMinima
  all_goals
    simp only [dominates_iff_somewhereBetter, ← ahead, ← behind, Dominance.compare]
    cases Dominance.wins (toMinima ds a) (toMinima ds b) <;>
      cases Dominance.wins (toMinima ds b) (toMinima ds a) <;> simp

/-- A vector of so many numbers. -/
structure Numbers (m : Nat) (a : List α) : Prop where
  length : a.length = m
  defined : ∀ x ∈ a, Scalar.isNaN x = false

/-- Dominating is a strict order of the vectors of `m` numbers that does not tell equal ones apart
and leaves some of every nonempty collection undominated. -/
structure StrictOrder (α : Type) [Scalar α] (ds : List Direction) (m : Nat) : Prop where
  irrefl {a : List α} : Numbers m a → dominates ds a a = false
  asymm {a b : List α} : Numbers m a → Numbers m b → dominates ds a b = true →
    dominates ds b a = false
  trans {a b c : List α} : Numbers m a → Numbers m b → Numbers m c → dominates ds a b = true →
    dominates ds b c = true → dominates ds a c = true
  /-- Vectors of equal numbers compare as equal. -/
  equal_of_same {a b : List α} : Numbers m a → Numbers m b → Scalar.sameList a b = true →
    Dominance.compare (toMinima ds a) (toMinima ds b) = .equal
  /-- Either side may be replaced by a vector that compares as equal. -/
  congr {a b c : List α} : Numbers m a → Numbers m b → Numbers m c →
    Dominance.compare (toMinima ds a) (toMinima ds b) = .equal →
    dominates ds a c = dominates ds b c ∧ dominates ds c a = dominates ds c b
  undominated {vectors : List (List α)} : vectors ≠ [] → (∀ a ∈ vectors, Numbers m a) →
    ∃ a ∈ vectors, ∀ b ∈ vectors, dominates ds b a = false

theorem dominates_irrefl : dominates ds a a = false := by
  rw [Bool.eq_false_iff, ne_eq, dominates_iff]
  exact fun both => both.2 both.1

theorem dominates_asymm (above : dominates ds a b = true) : dominates ds b a = false := by
  rw [Bool.eq_false_iff, ne_eq, dominates_iff]
  exact fun both => (dominates_iff.mp above).2 both.1

theorem sameList_getElem? (same : Scalar.sameList a b = true) {k : Nat} {x y : α}
    (left : a[k]? = some x) (right : b[k]? = some y) : (x == y) = true := by
  induction a generalizing b k with
  | nil => cases left
  | cons v vs ih =>
    cases b with
    | nil => cases right
    | cons w ws =>
      simp only [Scalar.sameList, Bool.and_eq_true] at same
      cases k with
      | zero =>
        cases left
        cases right
        exact same.1
      | succ k => exact ih same.2 left right

section Order

variable [Scalar.LawfulOrder α] {m : Nat}

omit [Scalar.LawfulOrder α] in
/-- A vector of numbers has an entry wherever others of its length are compared. -/
theorem Numbers.covers (long : Numbers m b) (short : Numbers m a) :
    min ds.length a.length ≤ b.length := by
  rw [short.length, long.length]
  exact Nat.min_le_right ..

theorem NoWorse.trans_numbers (left : Numbers m a) (middle : Numbers m b)
    (first : NoWorse ds a b) (second : NoWorse ds b c) : NoWorse ds a c :=
  first.trans_of_defined (middle.covers left) middle.defined second

theorem NoWorse.of_same (same : Scalar.sameList a b = true) : NoWorse ds a b := by
  rw [noWorse_iff_not_somewhereBetter]
  rintro ⟨k, d, y, x, -, right, left, better⟩
  have equal := sameList_getElem? same left right
  obtain ⟨definedX, definedY, -⟩ := Scalar.LawfulOrder.eq_iff.mp equal
  rw [((Direction.eq_iff_not_isBetter definedX definedY).mp equal).2] at better
  contradiction

theorem dominates_trans_numbers (left : Numbers m a) (middle : Numbers m b)
    (right : Numbers m c) (first : dominates ds a b = true) (second : dominates ds b c = true) :
    dominates ds a c = true :=
  dominates_trans_of_defined (middle.covers left) (left.covers right) left.defined middle.defined
    first second

/-- What one of two vectors that are nowhere worse than each other dominates, and what dominates
it, is the same for the other. -/
theorem dominates_congr (left : Numbers m a) (middle : Numbers m b) (right : Numbers m c)
    (down : NoWorse ds a b) (up : NoWorse ds b a) :
    dominates ds a c = dominates ds b c ∧ dominates ds c a = dominates ds c b := by
  have below : NoWorse ds a c ↔ NoWorse ds b c :=
    ⟨up.trans_numbers middle left, down.trans_numbers left middle⟩
  have above : NoWorse ds c a ↔ NoWorse ds c b :=
    ⟨fun first => first.trans_numbers right left down,
      fun first => first.trans_numbers right middle up⟩
  constructor
  · rw [Bool.eq_iff_iff, dominates_iff, dominates_iff, below, above]
  · rw [Bool.eq_iff_iff, dominates_iff, dominates_iff, below, above]

/-- What dominates an undominated vector of the others is undominated itself. -/
theorem exists_undominated {vectors : List (List α)} (nonempty : vectors ≠ [])
    (numbers : ∀ a ∈ vectors, Numbers m a) :
    ∃ a ∈ vectors, ∀ b ∈ vectors, dominates ds b a = false := by
  induction vectors with
  | nil => contradiction
  | cons v vs ih =>
    by_cases alone : vs = []
    · refine ⟨v, List.mem_cons_self, fun b member => ?_⟩
      rw [alone, List.mem_singleton] at member
      rw [member]
      exact dominates_irrefl
    · obtain ⟨top, inside, above⟩ :=
        ih alone fun a member => numbers a (List.mem_cons_of_mem _ member)
      cases beats : dominates ds v top with
      | false =>
        refine ⟨top, List.mem_cons_of_mem _ inside, fun b member => ?_⟩
        rcases List.mem_cons.mp member with rfl | later
        · exact beats
        · exact above b later
      | true =>
        refine ⟨v, List.mem_cons_self, fun b member => ?_⟩
        rcases List.mem_cons.mp member with rfl | later
        · exact dominates_irrefl
        · rw [Bool.eq_false_iff]
          intro beaten
          have higher := dominates_trans_numbers (numbers b member) (numbers v List.mem_cons_self)
            (numbers top (List.mem_cons_of_mem _ inside)) beaten beats
          rw [above b later] at higher
          contradiction

theorem strictOrder [Scalar.LawfulSigns α] (ds : List Direction) (m : Nat) :
    StrictOrder α ds m where
  irrefl _ := dominates_irrefl
  asymm _ _ := dominates_asymm
  trans := dominates_trans_numbers
  equal_of_same _ _ same := (agreement ds _ _).equal.mpr
    ⟨noWorse_iff_not_somewhereBetter.mp (.of_same (Scalar.sameList_symm same)),
      noWorse_iff_not_somewhereBetter.mp (.of_same same)⟩
  congr left middle right equal := by
    obtain ⟨notAhead, notBehind⟩ := (agreement ds _ _).equal.mp equal
    exact dominates_congr left middle right (noWorse_iff_not_somewhereBetter.mpr notBehind)
      (noWorse_iff_not_somewhereBetter.mpr notAhead)
  undominated := exists_undominated

end Order

/-- Under every list of directions the two tests of dominance agree on all vectors, and dominating
strictly orders the vectors of numbers of each length. -/
theorem dominance_tests_agree [Scalar.LawfulOrder α] [Scalar.LawfulSigns α]
    (ds : List Direction) :
    (∀ a b : List α, Agreement ds a b) ∧ ∀ m, StrictOrder α ds m :=
  ⟨agreement ds, strictOrder ds⟩

/-- The undefined entries decide nothing, and of the numbers the second vector is left. -/
theorem dominance_tests_agree_mixed :
    dominates [.minimize, .maximize] [(1 : Float), 0 / 0] [2, 5] = true ∧
      Dominance.compare (toMinima [.minimize, .maximize] [(1 : Float), 0 / 0])
        (toMinima [.minimize, .maximize] [2, 5]) = .dominates ∧
      (∀ a ∈ [[(3 : Float), 5], [2, 5], [2, 4]], Numbers 2 a) ∧
      ∃ a ∈ [[(3 : Float), 5], [2, 5], [2, 4]], ∀ b ∈ [[(3 : Float), 5], [2, 5], [2, 4]],
        dominates [.minimize, .maximize] b a = false := by
  have ahead : dominates [.minimize, .maximize] [(1 : Float), 0 / 0] [2, 5] = true := by
    decide +kernel
  have numbers : ∀ a ∈ [[(3 : Float), 5], [2, 5], [2, 4]], Numbers 2 a := by
    intro a member
    have checked : ∀ a ∈ [[(3 : Float), 5], [2, 5], [2, 4]],
        a.length = 2 ∧ ∀ x ∈ a, Scalar.isNaN x = false := by
      decide +kernel
    exact ⟨(checked a member).1, (checked a member).2⟩
  obtain ⟨agree, orders⟩ := dominance_tests_agree (α := Float) [.minimize, .maximize]
  exact ⟨ahead, (agree _ _).dominates.mpr ahead, numbers,
    (orders 2).undominated (List.cons_ne_nil _ _) numbers⟩

end Metaheuristic
