import Mathlib.Data.List.Forall2
import Metaheuristic.Space.Shape

/-! Offsets and index tuples. In row-major order a tuple stands behind as many tuples as its entries
count, each entry for as many as there are tuples of the dimensions behind it. This numbers the
tuples of a shape from zero on, in lexicographic order, and the digits of a number are the tuple
that has it. Offsets are read with machine words, so an offset is that number modulo the number of
words, and the number itself as long as the product of the dimensions is a machine word. -/
namespace Metaheuristic.Shape

variable {dims index index' : List Nat} {acc flat : Nat}

/-- A tuple with an entry for each dimension, inside of it. -/
def Addresses (index dims : List Nat) : Prop := List.Forall₂ (· < ·) index dims

instance (index dims : List Nat) : Decidable (Addresses index dims) :=
  inferInstanceAs (Decidable (List.Forall₂ (· < ·) index dims))

/-- The number of a tuple in row-major order. -/
def rowMajor : (dims index : List Nat) → Nat
  | _ :: ds, i :: is => i * count ds + rowMajor ds is
  | _, _ => 0

/-- The tuple that has a number. Numbers past the end start over. -/
def tuple : (dims : List Nat) → (flat : Nat) → List Nat
  | [], _ => []
  | d :: ds, flat => flat / count ds % d :: tuple ds flat

theorem rowMajor_lt (inside : Addresses index dims) : rowMajor dims index < count dims := by
  induction inside with
  | nil => exact Nat.one_pos
  | @cons i d index dims below _ ih =>
    rw [rowMajor, count]
    calc i * count dims + rowMajor dims index < (i + 1) * count dims := by
          rw [Nat.succ_mul]
          omega
      _ ≤ d * count dims := Nat.mul_le_mul_right _ below

theorem addresses_tuple (inhabited : count dims ≠ 0) (flat : Nat) :
    Addresses (tuple dims flat) dims := by
  induction dims with
  | nil => exact .nil
  | cons d dims ih =>
    obtain ⟨positive, rest⟩ := Nat.mul_ne_zero_iff.mp inhabited
    exact .cons (Nat.mod_lt _ (Nat.pos_of_ne_zero positive)) (ih rest)

theorem rowMajor_tuple (dims : List Nat) (flat : Nat) :
    rowMajor dims (tuple dims flat) = flat % count dims := by
  induction dims with
  | nil => simp [rowMajor, count, Nat.mod_one]
  | cons d dims ih =>
    rw [tuple, rowMajor, ih, count, Nat.mul_comm d, Nat.mod_mul]
    rw [Nat.mul_comm, Nat.add_comm]

/-- Whole rounds through all tuples do not matter. -/
theorem tuple_rowMajor (inside : Addresses index dims) (rounds : Nat) :
    tuple dims (rounds * count dims + rowMajor dims index) = index := by
  induction inside generalizing rounds with
  | nil => rfl
  | @cons i d index dims below inside ih =>
    have shifted : rounds * count (d :: dims) + rowMajor (d :: dims) (i :: index) =
        (rounds * d + i) * count dims + rowMajor dims index := by
      rw [count, rowMajor, Nat.add_mul, Nat.mul_assoc, Nat.add_assoc]
    have place := rowMajor_lt inside
    rw [shifted, tuple, ih]
    congr 1
    rw [Nat.mul_comm, Nat.mul_add_div (by omega), Nat.div_eq_of_lt place, Nat.add_zero,
      Nat.mul_comm, Nat.mul_add_mod, Nat.mod_eq_of_lt below]

theorem exists_rowMajor (below : flat < count dims) :
    ∃ index, Addresses index dims ∧ rowMajor dims index = flat :=
  ⟨tuple dims flat, addresses_tuple (Nat.ne_zero_of_lt below) flat,
    (rowMajor_tuple dims flat).trans (Nat.mod_eq_of_lt below)⟩

/-- Numbers are in the order of their tuples. -/
theorem rowMajor_lt_iff (inside : Addresses index dims) (inside' : Addresses index' dims) :
    rowMajor dims index < rowMajor dims index' ↔ index < index' := by
  induction inside generalizing index' with
  | nil =>
    cases inside'
    simp [rowMajor]
  | @cons i d index dims below inside ih =>
    cases inside' with
    | @cons j _ index' _ below' inside' =>
      rw [List.cons_lt_cons_iff, ← ih inside', rowMajor, rowMajor]
      have place := rowMajor_lt inside
      have place' := rowMajor_lt inside'
      rcases Nat.lt_trichotomy i j with lower | rfl | higher
      · have whole : (i + 1) * count dims ≤ j * count dims := Nat.mul_le_mul_right _ lower
        rw [Nat.succ_mul] at whole
        simp only [lower, true_or, iff_true]
        omega
      · simp
      · have whole : (j + 1) * count dims ≤ i * count dims := Nat.mul_le_mul_right _ higher
        rw [Nat.succ_mul] at whole
        have other : i ≠ j := by omega
        simp only [Nat.not_lt_of_lt higher, other, false_and, or_false, iff_false]
        omega

theorem digits_eq (inhabited : count dims ≠ 0) (flat : Nat) :
    digits dims flat = .ok (tuple dims flat, flat / count dims) := by
  induction dims with
  | nil => simp [digits, tuple, count]
  | cons d dims ih =>
    obtain ⟨positive, rest⟩ := Nat.mul_ne_zero_iff.mp inhabited
    have left : flat / count (d :: dims) = flat / count dims / d := by
      rw [count, Nat.mul_comm, Nat.div_div_eq_div_mul]
    rw [digits, ih rest, tuple, left]
    simp only [bind, Except.bind, positive, if_false]

theorem tupleAt_eq {s : Shape} (inhabited : count s.dims ≠ 0) (flat : Nat) :
    s.tupleAt flat = .ok (tuple s.dims flat) := by
  rw [tupleAt, digits_eq inhabited]
  rfl

theorem tupleAt_rowMajor {s : Shape} (inside : Addresses index s.dims) :
    s.tupleAt (rowMajor s.dims index) = .ok index := by
  have first := tuple_rowMajor inside 0
  rw [Nat.zero_mul, Nat.zero_add] at first
  rw [tupleAt_eq (Nat.ne_zero_of_lt (rowMajor_lt inside)), first]

theorem addresses_of_offsetFrom (read : offsetFrom dims index acc = some flat) :
    Addresses index dims := by
  induction dims generalizing index acc with
  | nil =>
    cases index with
    | nil => exact .nil
    | cons i index => cases read
  | cons d dims ih =>
    cases index with
    | nil => cases read
    | cons i index =>
      rw [offsetFrom] at read
      split at read
      · rename_i below
        exact .cons below (ih read)
      · cases read

/-- Wrapping at every entry is wrapping once. -/
theorem offsetFrom_eq (inside : Addresses index dims) (word : acc < wordCount) :
    offsetFrom dims index acc = some (wrap (acc * count dims + rowMajor dims index)) := by
  induction inside generalizing acc with
  | nil => simp [offsetFrom, count, rowMajor, wrap_of_lt word]
  | @cons i d index dims below _ ih =>
    rw [offsetFrom, if_pos below, ih (wrap_lt _), count, rowMajor, ← Nat.add_assoc,
      ← Nat.mul_assoc, ← Nat.add_mul]
    congr 1
    simp [wrap, Nat.add_mod, Nat.mul_mod]

/-- Exactly the tuples of the shape have an offset, their number as a machine word. -/
theorem offset?_eq_some_iff {s : Shape} :
    s.offset? index = some flat ↔
      Addresses index s.dims ∧ flat = wrap (rowMajor s.dims index) := by
  have first (inside : Addresses index s.dims) :
      s.offset? index = some (wrap (rowMajor s.dims index)) := by
    rw [offset?, offsetFrom_eq inside (by decide), Nat.zero_mul, Nat.zero_add]
  constructor
  · intro read
    have inside := addresses_of_offsetFrom read
    rw [first inside] at read
    cases read
    exact ⟨inside, rfl⟩
  · rintro ⟨inside, rfl⟩
    exact first inside

theorem offset?_rowMajor {s : Shape} (small : count s.dims ≤ wordCount)
    (inside : Addresses index s.dims) : s.offset? index = some (rowMajor s.dims index) := by
  have word := wrap_of_lt (Nat.lt_of_lt_of_le (rowMajor_lt inside) small)
  exact offset?_eq_some_iff.mpr ⟨inside, word.symm⟩

/-- Every offset below the size is that of its index tuple, even where the product of the
dimensions is not a machine word. -/
theorem exists_tupleAt {s : Shape} (below : flat < s.size) :
    ∃ index, s.tupleAt flat = .ok index ∧ s.offset? index = some flat := by
  have counted : flat < count s.dims := Nat.lt_of_lt_of_le below (Nat.mod_le _ _)
  have word : flat < wordCount := Nat.lt_trans below (wrap_lt _)
  obtain ⟨index, inside, rfl⟩ := exists_rowMajor counted
  exact ⟨index, tupleAt_rowMajor inside, offset?_eq_some_iff.mpr ⟨inside, (wrap_of_lt word).symm⟩⟩

/-- A tuple that addresses an element has an offset below the size. -/
theorem offset?_lt {s : Shape} (small : count s.dims < wordCount)
    (addressed : s.offset? index = some flat) : flat < s.size := by
  obtain ⟨inside, rfl⟩ := offset?_eq_some_iff.mp addressed
  rw [size, wrap_of_lt small]
  exact Nat.lt_of_le_of_lt (Nat.mod_le _ _) (rowMajor_lt inside)

end Metaheuristic.Shape
