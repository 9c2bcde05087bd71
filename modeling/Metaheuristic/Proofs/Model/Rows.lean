import Metaheuristic.Model.Assignment

/-! One agent's share of a batch. A column spans the agents when it has a value
for each of them or one for all of them; then every agent reads exactly one
value. Operations on columns that span the agents never fault, span the agents
again, and do with each share what they do with the whole. -/
namespace Metaheuristic

namespace Column

variable {α : Type} {n i : Nat} {a b c : Column α}

/-- What one agent reads of a column, as a column of its own. -/
def row (i : Nat) (c : Column α) : Column α := ⟨(c.at? i).toList⟩

/-- A value for each of `n` agents, or one for all of them. -/
def Spans (n : Nat) (c : Column α) : Prop := c.size = n ∨ c.size = 1

theorem eq_single (size : c.size = 1) : ∃ x, c = single x := by
  obtain ⟨x, values⟩ := List.length_eq_one_iff.mp size
  exact ⟨x, by rw [single, ← values]⟩

theorem at?_of_lt (below : i < c.size) : c.at? i = c.values[i]? := by
  unfold at?
  split
  · rename_i x only
    have first : i = 0 := by
      rw [size, only] at below
      simpa using below
    rw [only, first]
    rfl
  · rfl

theorem row_single (x : α) : (single x).row i = single x := rfl

theorem row_eq_single {x : α} (read : c.at? i = some x) : c.row i = single x := by
  rw [row, read]
  rfl

theorem Spans.exists_at? (spans : c.Spans n) (below : i < n) : ∃ x, c.at? i = some x := by
  rcases spans with size | size
  · have inside : i < c.values.length := by
      unfold Column.size at size
      omega
    exact ⟨c.values.get ⟨i, inside⟩, (at?_of_lt inside).trans (List.getElem?_eq_getElem inside)⟩
  · obtain ⟨x, rfl⟩ := eq_single size
    exact ⟨x, rfl⟩

theorem spans_single (x : α) : (single x).Spans n := .inr rfl

theorem spans_row (spans : c.Spans n) (below : i < n) : (c.row i).size = 1 := by
  obtain ⟨x, read⟩ := spans.exists_at? below
  rw [row_eq_single read]
  rfl

theorem spans_constant (x : α) : (constant x n).Spans n := .inl (List.length_replicate ..)

theorem row_constant (x : α) (below : i < n) : (constant x n).row i = constant x 1 := by
  refine row_eq_single ?_
  rw [at?_of_lt (by simpa [size, constant] using below)]
  simp [constant, below]

theorem spans_map (f : α → α) (spans : c.Spans n) : (c.map f).Spans n := by
  simpa [Spans, size, map] using spans

theorem row_map (f : α → α) : (c.map f).row i = (c.row i).map f := by
  obtain ⟨values⟩ := c
  rcases values with _ | ⟨x, _ | ⟨y, rest⟩⟩
  · rfl
  · rfl
  · have several : ((x :: y :: rest).map f)[i]?.toList = (x :: y :: rest)[i]?.toList.map f := by
      rw [List.getElem?_map]
      cases (x :: y :: rest)[i]? <;> rfl
    exact congrArg Column.mk several

theorem zipWith_single_left (f : α → α → α) (x : α) (b : Column α) :
    zipWith f (single x) b = .ok (b.map (f x)) := by
  obtain ⟨values⟩ := b
  rcases values with _ | ⟨y, _ | ⟨z, rest⟩⟩ <;> rfl

theorem zipWith_single_right (f : α → α → α) (a : Column α) (y : α) :
    zipWith f a (single y) = .ok (a.map fun x => f x y) := by
  obtain ⟨values⟩ := a
  rcases values with _ | ⟨x, _ | ⟨z, rest⟩⟩ <;> rfl

/-- Columns that span the agents combine, and combining two shares is taking the
share of the combined column. -/
theorem zipWith_row (f : α → α → α) (left : a.Spans n) (right : b.Spans n) :
    ∃ c, zipWith f a b = .ok c ∧ c.Spans n ∧
      ∀ i < n, zipWith f (a.row i) (b.row i) = .ok (c.row i) := by
  rcases left with sizeA | sizeA
  · rcases right with sizeB | sizeB
    · have size : (List.zipWith f a.values b.values).length = n := by
        unfold Column.size at sizeA sizeB
        rw [List.length_zipWith, sizeA, sizeB, Nat.min_self]
      refine ⟨⟨List.zipWith f a.values b.values⟩, if_pos (sizeA.trans sizeB.symm), .inl size, ?_⟩
      intro i below
      obtain ⟨x, readA⟩ := Spans.exists_at? (.inl sizeA) below
      obtain ⟨y, readB⟩ := Spans.exists_at? (.inl sizeB) below
      have read : (⟨List.zipWith f a.values b.values⟩ : Column α).at? i = some (f x y) := by
        rw [at?_of_lt (by omega)] at readA readB
        rw [at?_of_lt (Nat.lt_of_lt_of_eq below size.symm), List.getElem?_zipWith, readA, readB]
      rw [row_eq_single readA, row_eq_single readB, row_eq_single read]
      rfl
    · obtain ⟨y, rfl⟩ := eq_single sizeB
      refine ⟨_, zipWith_single_right f a y, spans_map _ (.inl sizeA), fun i _ => ?_⟩
      rw [row_single, zipWith_single_right, row_map]
  · obtain ⟨x, rfl⟩ := eq_single sizeA
    refine ⟨_, zipWith_single_left f x b, spans_map _ right, fun i _ => ?_⟩
    rw [row_single, zipWith_single_left, row_map]

/-- The same for a sum of columns, whatever it starts from. -/
private theorem foldlM_row [Scalar α] {columns : List (Column α)} (start : a.Spans n)
    (spans : ∀ c ∈ columns, c.Spans n) :
    ∃ c, columns.foldlM (zipWith (· + ·)) a = .ok c ∧ c.Spans n ∧
      ∀ i < n, (columns.map (row i)).foldlM (zipWith (· + ·)) (a.row i) = .ok (c.row i) := by
  induction columns generalizing a with
  | nil => exact ⟨a, rfl, start, fun _ _ => rfl⟩
  | cons b columns ih =>
    obtain ⟨next, combined, spansNext, shares⟩ :=
      zipWith_row (· + ·) start (spans b List.mem_cons_self)
    obtain ⟨c, total, spansC, totals⟩ :=
      ih spansNext fun c member => spans c (List.mem_cons_of_mem _ member)
    refine ⟨c, ?_, spansC, fun i below => ?_⟩
    · rw [List.foldlM_cons, combined]
      exact total
    · rw [List.map_cons, List.foldlM_cons, shares i below]
      exact totals i below

theorem total_row [Scalar α] {columns : List (Column α)} (spans : ∀ c ∈ columns, c.Spans n) :
    ∃ c, total columns = .ok c ∧ c.Spans n ∧
      ∀ i < n, total (columns.map (row i)) = .ok (c.row i) :=
  foldlM_row (spans_single Scalar.zero) spans

/-- Combining loses no length, so both sides span the agents when the result does. -/
theorem spans_of_zipWith {f : α → α → α} (combined : zipWith f a b = .ok c) (spans : c.Spans n) :
    a.Spans n ∧ b.Spans n := by
  unfold zipWith at combined
  split at combined
  · rename_i same
    cases combined
    have size : (List.zipWith f a.values b.values).length = a.size := by
      rw [List.length_zipWith]
      exact Nat.min_eq_left (Nat.le_of_eq same)
    have left : a.Spans n := by
      unfold Spans at spans ⊢
      rwa [← size]
    refine ⟨left, ?_⟩
    rwa [Spans, ← same]
  · split at combined
    · rename_i only
      cases combined
      refine ⟨?_, .inr (congrArg List.length only)⟩
      simpa [Spans, size] using spans
    · rename_i only _
      cases combined
      refine ⟨.inr (congrArg List.length only), ?_⟩
      simpa [Spans, size] using spans
    · cases combined

/-- What an agent reads of two columns that were combined. -/
theorem at?_zipWith {f : α → α → α} (combined : zipWith f a b = .ok c) (spans : c.Spans n)
    (below : i < n) : ∃ x y, a.at? i = some x ∧ b.at? i = some y ∧ c.at? i = some (f x y) := by
  obtain ⟨left, right⟩ := spans_of_zipWith combined spans
  obtain ⟨x, readA⟩ := left.exists_at? below
  obtain ⟨y, readB⟩ := right.exists_at? below
  obtain ⟨c', combined', _, shares⟩ := zipWith_row f left right
  rw [combined] at combined'
  cases combined'
  have share := shares i below
  rw [row_eq_single readA, row_eq_single readB, zipWith_single_left] at share
  refine ⟨x, y, readA, readB, Option.toList_eq_singleton_iff.mp ?_⟩
  exact (congrArg Column.values (Except.ok.inj share)).symm

end Column

namespace Assignment

variable {α : Type} {n i : Nat} {v : Assignment α}

/-- The values of one agent. -/
def row (i : Nat) (v : Assignment α) : Assignment α := { v with rows := (v.rows[i]?).toList }

@[simp] theorem width_row : (v.row i).width = v.width := rfl

/-- Reading all agents and then one of them is reading one of them. -/
private theorem row_rows (f : List α → α) (below : i < v.agents) :
    (⟨v.rows.map f⟩ : Column α).row i = ⟨(v.row i).rows.map f⟩ := by
  have read : (⟨v.rows.map f⟩ : Column α).at? i = some (f (v.rows.get ⟨i, below⟩)) := by
    rw [Column.at?_of_lt (Nat.lt_of_lt_of_eq below (List.length_map _).symm), List.getElem?_map,
      List.getElem?_eq_getElem below]
    rfl
  rw [Column.row_eq_single read, row, List.getElem?_eq_getElem below]
  rfl

variable [Scalar α]

theorem spans_columnAt (agents : v.agents = n) (flat : Nat) : (v.columnAt flat).Spans n :=
  .inl ((List.length_map _).trans agents)

theorem spans_sum (agents : v.agents = n) : v.sum.Spans n :=
  .inl ((List.length_map _).trans agents)

theorem columnAt_row (below : i < v.agents) (flat : Nat) :
    (v.columnAt flat).row i = (v.row i).columnAt flat :=
  row_rows _ below

theorem sum_row (below : i < v.agents) : v.sum.row i = (v.row i).sum := row_rows _ below

theorem element_row (below : i < v.agents) (flat : Nat) :
    (v.row i).element flat = (v.element flat).map (Column.row i) := by
  unfold element
  rw [width_row]
  split
  · rw [← columnAt_row below]
    rfl
  · rfl

theorem get?_row (below : i < v.agents) (index : List Nat) :
    (v.row i).get? index = (v.get? index).map (Option.map (Column.row i)) := by
  unfold get?
  cases offset : v.shape.offset? index with
  | none => simp only [row, offset]; rfl
  | some flat =>
    have element := element_row below flat
    simp only [row, offset] at element ⊢
    rw [element]
    cases v.element flat <;> rfl

theorem elements_row (below : i < v.agents) : (v.row i).elements = v.elements.map (Column.row i) := by
  simp only [elements, width_row, List.map_map]
  refine List.map_congr_left fun flat _ => ?_
  exact (columnAt_row below flat).symm

end Assignment
end Metaheuristic
