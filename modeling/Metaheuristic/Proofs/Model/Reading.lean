import Metaheuristic.Model.Pass
import Metaheuristic.Proofs.Model.Discovery
import Metaheuristic.Proofs.Model.Rows
import Metaheuristic.Proofs.Number.Negation
import Metaheuristic.Proofs.Space.Codec
import Metaheuristic.Proofs.Space.Shape

/-! What a model sees in a pass against what is reported of a chromosome. The pass decodes
one variable for all agents, a solution decodes all variables of one agent; both cut the
same stretch out of a row and decode it in the same way, so every agent, entry and column
of the one is found in the other. The values of all agents lie one agent after the other:
an agent is a slice of them, and a column is every so many of them. -/
namespace Metaheuristic

variable {α : Type}

/-- The first item and every so many items after it. -/
def everyNth (step : Nat) : List α → List α
  | [] => []
  | x :: xs => x :: everyNth step (xs.drop (step - 1))
termination_by xs => xs.length

section Rows

variable {rows : List (List α)} {row : List α} {width : Nat}

/-- A row is a slice of the rows back to back. -/
theorem slice_flatten (uniform : ∀ row ∈ rows, row.length = width) {i : Nat}
    (place : rows[i]? = some row) : (rows.flatten.drop (i * width)).take width = row := by
  induction rows generalizing i with
  | nil => cases place
  | cons first rows ih =>
    have length : first.length = width := uniform first List.mem_cons_self
    have rest : ∀ row ∈ rows, row.length = width :=
      fun row later => uniform row (List.mem_cons_of_mem _ later)
    rw [List.flatten_cons]
    cases i with
    | zero =>
      cases place
      rw [Nat.zero_mul, List.drop_zero, ← length, List.take_left]
    | succ i =>
      rw [Nat.succ_mul, Nat.add_comm, ← List.drop_drop, ← length, List.drop_left, length]
      exact ih rest place

/-- A column is every so many items of the rows back to back. -/
theorem everyNth_flatten (uniform : ∀ row ∈ rows, row.length = width) {flat : Nat}
    (below : flat < width) (default : α) :
    everyNth width (rows.flatten.drop flat) = rows.map fun row => row.getD flat default := by
  induction rows with
  | nil => simp [everyNth]
  | cons row rows ih =>
    have length : row.length = width := uniform row List.mem_cons_self
    have inside : flat < row.length := by omega
    -- What is left of this row and the step past it end in the next row, at the same place.
    have next : ((row.drop (flat + 1)) ++ rows.flatten).drop (width - 1) =
        rows.flatten.drop flat := by
      have used : width - 1 - (row.drop (flat + 1)).length = flat := by
        rw [List.length_drop]
        omega
      rw [List.drop_append, used, List.drop_drop, List.drop_eq_nil_of_le (by omega),
        List.nil_append]
    rw [List.flatten_cons, List.drop_append_of_le_length inside.le,
      List.drop_eq_getElem_cons inside, List.cons_append, everyNth, next,
      ih fun row later => uniform row (List.mem_cons_of_mem _ later), List.map_cons]
    simp [List.getElem?_eq_getElem inside]

/-- Folding over the places of a row is folding over the row. -/
theorem foldl_range_getD {β : Type} (f : β → α → β) (start : β) (row : List α) (default : α) :
    (List.range row.length).foldl (fun acc k => f acc (row.getD k default)) start =
      row.foldl f start := by
  have whole : (List.range row.length).map (fun k => row.getD k default) = row := by
    refine List.ext_getElem? fun k => ?_
    rw [List.getElem?_map]
    by_cases below : k < row.length
    · simp [below]
    · simp [below]
  conv_rhs => rw [← whole, List.foldl_map]

end Rows

namespace View

theorem slice_ok {data genes : List α} {start length : Nat}
    (read : slice data start length = .ok genes) :
    genes = (data.drop start).take length ∧ genes.length = length := by
  unfold slice at read
  split at read
  · rename_i inside
    cases read
    refine ⟨rfl, ?_⟩
    rw [List.length_take, List.length_drop]
    omega
  · cases read

/-- A view over data has the rows that lie a stride apart from one another, and all of
them have the same length. -/
theorem strided_ok {data : List α} {rows stride offset genes : Nat} {view : View α}
    (read : strided data rows stride offset genes = .ok view) :
    view.rows.length = rows ∧
    (∀ (i : Nat) row, view.rows[i]? = some row →
      row = (data.drop (wrap (i * stride + offset))).take genes) ∧
    ∀ row ∈ view.rows, row.length = genes := by
  unfold strided at read
  split at read
  · cases read
  · obtain ⟨parts, sliced, read⟩ := bind_ok.mp read
    cases read
    obtain ⟨length, items⟩ := mapM_ok sliced
    refine ⟨length.trans List.length_range, fun i row place => ?_, fun row member => ?_⟩
    · have below : i < rows := by
        have inside := (List.getElem?_eq_some_iff.mp place).1
        rwa [length, List.length_range] at inside
      obtain ⟨part, here, cut⟩ := items i i (List.getElem?_range below)
      rw [place] at here
      cases here
      exact (slice_ok cut).1
    · obtain ⟨i, _, cut⟩ := mem_mapM_ok sliced member
      exact (slice_ok cut).2

end View

namespace Declaration

variable [Scalar α] {known issued : Declaration α}

theorem same_of_agrees (agrees : known.agrees issued = true) :
    known.name = issued.name ∧ known.kind = issued.kind ∧ known.shape = issued.shape := by
  simp only [Declaration.agrees, Bool.and_eq_true, beq_iff_eq] at agrees
  exact ⟨agrees.1.1.1, agrees.1.1.2, agrees.1.2⟩

end Declaration

namespace Assignment

/-- The values of all agents, one agent after the other. -/
def values (x : Assignment α) : List α := x.rows.flatten

/-- Every agent has a value for each element. -/
def Full (x : Assignment α) : Prop := ∀ row ∈ x.rows, row.length = x.width

/-- What one agent of an assignment is shown is what a solution holds under a name. -/
structure Shows (x : Assignment α) [Scalar α] (i : Nat) (s : Solution α) (name : String) :
    Prop where
  agent : ∃ values, x.agent? i = some values ∧ s.var? name = some ⟨x.kind, x.shape, values⟩
  /-- An index tuple finds a column exactly when it finds a value. -/
  found : ∀ index, (∃ column, x.get? index = .ok (some column)) ↔ (s.get? name index).isSome = true
  /-- The value is the agent's entry of the column. -/
  entry : ∀ index column, x.get? index = .ok (some column) →
    column.values[i]? = s.get? name index

/-- The ways to read an assignment agree: by agent, by element and by index tuple. -/
structure Coherent [Scalar α] (x : Assignment α) : Prop where
  /-- An agent is a slice of the values. -/
  slice : ∀ i row, x.agent? i = some row → (x.values.drop (i * x.width)).take x.width = row
  count : x.elements.length = x.width
  /-- An element is the column of its index tuple, with every so many of the values. -/
  element : ∀ flat < x.width, ∃ index column, x.shape.tupleAt flat = .ok index ∧
    x.get? index = .ok (some column) ∧ x.element flat = .ok column ∧
    x.elements[flat]? = some column ∧ column.values = everyNth x.width (x.values.drop flat)
  /-- No index tuple faults where the product of the dimensions is a machine word. -/
  total : ∀ index, Shape.count x.shape.dims < wordCount → ∃ found, x.get? index = .ok found

variable [Scalar α] {x : Assignment α}

theorem get?_ok_iff {index : List Nat} {column : Column α} :
    x.get? index = .ok (some column) ↔
      ∃ flat, x.shape.offset? index = some flat ∧ flat < x.width ∧ column = x.columnAt flat := by
  unfold get? element
  cases x.shape.offset? index with
  | none => simp
  | some flat =>
    by_cases below : flat < x.width
    · simp [below, Except.map, eq_comm]
    · simp [below, Except.map]

theorem coherent (full : x.Full) : x.Coherent := by
  refine ⟨fun i row place => slice_flatten full place, by simp [elements], ?_, ?_⟩
  · intro flat below
    obtain ⟨index, tuple, offset⟩ := Shape.exists_tupleAt below
    refine ⟨index, x.columnAt flat, tuple, get?_ok_iff.mpr ⟨flat, offset, below, rfl⟩,
      if_pos below, ?_, (everyNth_flatten full below Scalar.zero).symm⟩
    rw [elements, List.getElem?_map, List.getElem?_range below]
    rfl
  · intro index small
    cases offset : x.shape.offset? index with
    | none => exact ⟨none, by rw [get?, offset]⟩
    | some flat =>
      exact ⟨some _, get?_ok_iff.mpr ⟨flat, offset, Shape.offset?_lt small offset, rfl⟩⟩

/-- An agent that has the values of a solution is shown what the solution holds. -/
theorem shows {i : Nat} {s : Solution α} {name : String} {row : List α} (full : x.Full)
    (place : x.rows[i]? = some row) (held : s.var? name = some ⟨x.kind, x.shape, row⟩) :
    x.Shows i s name := by
  have length : row.length = x.width := full row (List.mem_of_getElem? place)
  have read (index : List Nat) :
      s.get? name index = x.shape.offset? index >>= fun flat => row[flat]? := by
    rw [Solution.get?, held]
    rfl
  refine ⟨⟨row, place, held⟩, fun index => ?_, fun index column found => ?_⟩
  · rw [read]
    simp only [get?_ok_iff]
    cases x.shape.offset? index with
    | none => simp
    | some flat => simp [length]
  · obtain ⟨flat, offset, below, rfl⟩ := get?_ok_iff.mp found
    have inside : flat < row.length := by omega
    rw [read, offset, columnAt, List.getElem?_map, place]
    simp [inside]

/-- Adding columns to a column is adding their values agent by agent. -/
private theorem foldlM_columns (offsets : List Nat) (f : List α → α) :
    (offsets.map x.columnAt).foldlM (Column.zipWith (· + ·)) ⟨x.rows.map f⟩ =
      .ok ⟨x.rows.map fun row =>
        offsets.foldl (fun acc flat => acc + row.getD flat Scalar.zero) (f row)⟩ := by
  induction offsets generalizing f with
  | nil => rfl
  | cons flat offsets ih =>
    have added : Column.zipWith (· + ·) ⟨x.rows.map f⟩ (x.columnAt flat) =
        .ok ⟨x.rows.map fun row => f row + row.getD flat Scalar.zero⟩ := by
      rw [Column.zipWith, if_pos (by simp [Column.size, columnAt]), columnAt,
        List.zipWith_map, List.zipWith_self]
    rw [List.map_cons, List.foldlM_cons, added]
    exact ih _

/-- Where zero has no sign, adding up the columns is adding up each agent's values. -/
theorem total_elements (full : x.Full) (wide : 0 < x.width)
    (unsigned : -(Scalar.zero : α) = Scalar.zero) : Column.total x.elements = .ok x.sum := by
  obtain ⟨width, more⟩ := Nat.exists_eq_succ_of_ne_zero wide.ne'
  have first : Column.zipWith (· + ·) (Column.single Scalar.zero) (x.columnAt 0) =
      .ok ⟨x.rows.map fun row => Scalar.zero + row.getD 0 Scalar.zero⟩ := by
    rw [Column.zipWith_single_left, columnAt, Column.map, List.map_map]
    rfl
  have whole (row : List α) (member : row ∈ x.rows) :
      ((List.range width).map Nat.succ).foldl (fun acc flat => acc + row.getD flat Scalar.zero)
        (Scalar.zero + row.getD 0 Scalar.zero) = Scalar.sum row := by
    have length : row.length = width + 1 := (full row member).trans more
    rw [Scalar.sum, unsigned, ← foldl_range_getD _ _ row Scalar.zero, length,
      List.range_succ_eq_map, List.foldl_cons]
  rw [Column.total, elements, more, List.range_succ_eq_map, List.map_cons, List.foldlM_cons, first]
  refine (foldlM_columns _ _).trans ?_
  rw [sum, List.map_congr_left whole]

end Assignment

namespace Pass

variable [Scalar α] {schema : Schema α} {view : View α} {p q : Pass α} {d : Declaration α}
  {v : Variable α} {x : Assignment α}

/-- What an answered declaration answers: the decoded stretch of every row. -/
theorem declare_ok (ran : declare schema view p d = .ok (x, q)) :
    ∃ v rows, schema.registry.get? p.declared = some v ∧ v.toDeclaration.agrees d = true ∧
      view.rows.mapM (fun row => (v.stretchOf row).map v.decode) = .ok rows ∧
      x = ⟨p.declared, d.kind, v.shape, rows⟩ ∧ q = { p with declared := p.declared + 1 } := by
  unfold declare at ran
  cases known : schema.registry.get? p.declared with
  | none =>
    rw [known] at ran
    cases ran
  | some v =>
    simp only [known] at ran
    split at ran
    · rename_i agrees
      cases decoded : view.rows.mapM fun row => (v.stretchOf row).map v.decode with
      | error cause =>
        rw [decoded] at ran
        cases ran
      | ok rows =>
        rw [decoded] at ran
        cases ran
        exact ⟨v, rows, rfl, agrees, decoded, rfl, rfl⟩
    · cases ran

/-- The rows of an answer are the decoded stretches, each as long as the shape. -/
theorem declare_rows (laid : schema.registry.Laid) (ran : declare schema view p d = .ok (x, q)) :
    x.agents = view.rows.length ∧ x.Full ∧ ∃ v ∈ schema.registry.declared,
      schema.registry.get? p.declared = some v ∧ v.toDeclaration.agrees d = true ∧
      x.kind = v.kind ∧ x.shape = v.shape ∧ x.position = p.declared ∧
      ∀ (i : Nat) row, view.rows[i]? = some row → ∃ genes, v.stretchOf row = .ok genes ∧
        x.rows[i]? = some (v.decode genes) := by
  obtain ⟨v, rows, known, agrees, decoded, rfl, rfl⟩ := declare_ok ran
  have member : v ∈ schema.registry.declared := List.mem_of_getElem? known
  obtain ⟨length, items⟩ := mapM_ok decoded
  refine ⟨length, fun values inside => ?_, v, member, known, agrees,
    (Declaration.same_of_agrees agrees).2.1.symm, rfl, rfl, fun i row place => ?_⟩
  · obtain ⟨row, _, read⟩ := mem_mapM_ok decoded inside
    obtain ⟨genes, stretch, rfl⟩ := map_ok.mp read
    obtain ⟨forward, _, own, _⟩ := Variable.stretchOf_ok stretch
    have stop := laid.chained.stop_eq (by decide) member forward
    rw [Variable.length_decode, own, Variable.width, stop, Nat.add_sub_cancel_left]
    rfl
  · obtain ⟨values, here, read⟩ := items i row place
    obtain ⟨genes, stretch, rfl⟩ := map_ok.mp read
    exact ⟨genes, stretch, here⟩

/-- What a variable reads out of every row of a view. -/
def answer (view : View α) (position : Nat) (v : Variable α) (d : Declaration α) : Assignment α :=
  ⟨position, d.kind, v.shape, view.rows.map fun row => v.decode ((row.drop v.start).take v.width)⟩

/-- A pass answers a variable that says what the schema says when every row can be cut. -/
theorem declare_eq (known : schema.registry.get? p.declared = some v)
    (agrees : v.toDeclaration.agrees d = true)
    (cut : ∀ row ∈ view.rows, ∃ genes, v.stretchOf row = .ok genes) :
    declare schema view p d =
      .ok (answer view p.declared v d, { p with declared := p.declared + 1 }) := by
  have each : ∀ row ∈ view.rows, (v.stretchOf row).map v.decode =
      .ok (v.decode ((row.drop v.start).take v.width)) := by
    intro row member
    obtain ⟨genes, read⟩ := cut row member
    rw [read, ← Variable.stretchOf_eq read]
    rfl
  simp only [declare, known, agrees, if_true, mapM_eq_ok each]
  rfl

end Pass

namespace Schema

variable [Scalar α]

/-- What a model sees is what is reported. In a pass over any rows of the right length, a
variable that says what was discovered is answered with the values that the solutions of
the rows hold under its name, agent by agent and index tuple by index tuple; its elements,
columns and sums are those values. The pass answers and the rows decode unless the
variables are longer than all words together. -/
theorem pass_shows_solutions {program : Program α} {schema : Schema α}
    (discovered : (discover program).1 = .ok schema) {view : View α}
    (uniform : ∀ row ∈ view.rows, row.length = schema.genes) {p : Pass α} {v : Variable α}
    {d : Declaration α} (known : schema.registry.get? p.declared = some v)
    (agrees : v.toDeclaration.agrees d = true) :
    (schema.registry.demand < wordCount →
      (∃ x q, Pass.declare schema view p d = .ok (x, q)) ∧
      ∀ row ∈ view.rows, ∃ s, schema.decode row = .ok s) ∧
    ∀ x q, Pass.declare schema view p d = .ok (x, q) →
      x.agents = view.rows.length ∧ x.shape = d.shape ∧
      (∀ (i : Nat) row s, view.rows[i]? = some row → schema.decode row = .ok s →
        x.Shows i s d.name) ∧
      x.Coherent ∧
      (-(Scalar.zero : α) = Scalar.zero → Column.total x.elements = .ok x.sum) := by
  obtain ⟨_, laid, _, _⟩ := discover_ok discovered
  obtain ⟨name, _, shape⟩ := Declaration.same_of_agrees agrees
  have decodes (fits : schema.registry.demand < wordCount) :
      ∀ row ∈ view.rows, ∃ s, schema.decode row = .ok s :=
    fun row member => laid.exists_decode fits (uniform row member)
  refine ⟨fun fits => ⟨⟨_, _, Pass.declare_eq known agrees fun row member => ?_⟩, decodes fits⟩,
    fun x q ran => ?_⟩
  · obtain ⟨s, decoded⟩ := decodes fits row member
    obtain ⟨genes, read, _⟩ := laid.decode_ok decoded v (List.mem_of_getElem? known)
    exact ⟨genes, read⟩
  obtain ⟨agents, full, v', member, known', _, kind, own, _, rows⟩ := Pass.declare_rows laid ran
  rw [known] at known'
  cases known'
  refine ⟨agents, own.trans shape, fun i row s place decoded => ?_, Assignment.coherent full, ?_⟩
  · obtain ⟨genes, read, values⟩ := rows i row place
    obtain ⟨genes', read', _, _, held⟩ := laid.decode_ok decoded v member
    rw [read] at read'
    cases read'
    rw [name, ← kind, ← own] at held
    exact Assignment.shows full values held
  · have wide : x.width = v.shape.size := congrArg Shape.size own
    exact Assignment.total_elements full (wide ▸ laid.inhabited member)

/-- Two rows of two amounts. -/
def grid : Declaration (Exact ℚ) := ⟨"grid", .continuous, ⟨[2, 2]⟩, .between 0 10⟩

/-- A model of a whole number and a grid, which minimizes the sum of the grid. -/
def gridProgram : Program (Exact ℚ) :=
  .declare Registry.squeezed (.require fun _ =>
    .declare grid (.require fun x => .optimize .minimize x.sum (.require fun _ => .done)))

/-- What the model of the grid declares. -/
def gridSchema : Schema (Exact ℚ) :=
  ⟨(Registry.empty.extended Registry.squeezed Registry.squeezed.bound).extended grid grid.bound,
    [], [.minimize]⟩

theorem grid_discovered : (discover gridProgram).1 = .ok gridSchema := by
  have first : Registry.declare Schema.empty.registry Registry.squeezed =
      .ok (Registry.empty.variableFor Registry.squeezed Registry.squeezed.bound,
        Registry.empty.extended Registry.squeezed Registry.squeezed.bound) :=
    Registry.declare_accepted (by simp [Schema.empty, Registry.empty])
      (Registry.checkedBound_of_proper rfl (.inr rfl) ⟨1 / 5, 2 / 5, rfl, by norm_num⟩)
  have second := Registry.declare_accepted
    (r := Registry.empty.extended Registry.squeezed Registry.squeezed.bound) (d := grid)
    (by simp [Registry.empty, Registry.extended, Registry.squeezed, grid])
    (Registry.checkedBound_of_proper rfl (.inl rfl) ⟨0, 10, rfl, by norm_num⟩)
  have extended : extend gridProgram .empty = (.ok gridSchema, []) := by
    rw [gridProgram, extend, first]
    simp only [Program.require_ok, extend, second]
    rfl
  rw [discover, extended]
  rfl

/-- Two chromosomes, the second one after a gap. -/
def gridView : View (Exact ℚ) :=
  ⟨5, [[0, 0, 0, 0, 0].map .finite, [1, 0, 1 / 4, 1 / 2, 1].map .finite]⟩

/-- The second row of the grid, as the second of two agents has it. -/
theorem pass_shows_solutions_grid :
    View.strided ([0, 0, 0, 0, 0, 7, 1, 0, 1 / 4, 1 / 2, 1].map .finite) 2 6 0 5 = .ok gridView ∧
    ∃ x q s, Pass.declare gridSchema gridView { Pass.start 2 with declared := 1 } grid =
        .ok (x, q) ∧
      gridSchema.decode ([1, 0, 1 / 4, 1 / 2, 1].map .finite) = .ok s ∧
      x.Shows 1 s "grid" ∧ x.Coherent ∧ Column.total x.elements = .ok x.sum ∧
      s.get? "grid" [1, 0] = some (.finite 5) := by
  have strided : View.strided ([0, 0, 0, 0, 0, 7, 1, 0, 1 / 4, 1 / 2, 1].map Exact.finite) 2 6 0 5 =
      .ok gridView := rfl
  obtain ⟨answered, shown⟩ := pass_shows_solutions grid_discovered (View.strided_ok strided).2.2
    (p := { Pass.start 2 with declared := 1 }) (d := grid) (v := ⟨grid, 1, 1, 5⟩) rfl
    (by decide +kernel)
  obtain ⟨⟨x, q, ran⟩, decodes⟩ := answered (by decide +kernel)
  obtain ⟨_, _, shows, coherent, sums⟩ := shown x q ran
  obtain ⟨s, decoded⟩ := decodes ([1, 0, 1 / 4, 1 / 2, 1].map .finite) (.tail _ (.head _))
  refine ⟨strided, x, q, s, ran, decoded, shows 1 _ s rfl decoded, coherent,
    sums Scalar.LawfulNegation.neg_zero, ?_⟩
  obtain ⟨_, laid, _, _⟩ := discover_ok grid_discovered
  obtain ⟨genes, read, _, _, held⟩ := laid.decode_ok decoded ⟨grid, 1, 1, 5⟩ (.tail _ (.head _))
  cases Variable.stretchOf_eq read
  have found : s.var? "grid" = some ⟨.continuous, ⟨[2, 2]⟩, _⟩ := held
  simp only [Solution.get?, found]
  decide +kernel

end Schema
end Metaheuristic
