import Metaheuristic.Model.Pass
import Metaheuristic.Proofs.Model.Rowwise

/-! The requests of a program in a pass over many rows against the same requests
in the passes over each row alone. Declaring, constraining, optimizing and closing
all split: the batch is granted what each row is granted, and what it keeps for a
row is what that row keeps alone. A constraint or an objective whose column does
not fit is refused, but it has been counted. -/
namespace Metaheuristic

variable {α : Type} {n : Nat}

namespace Constraint

/-- The violation of one agent. -/
def row (i : Nat) (c : Constraint α) : Constraint α := { c with violation := c.violation.row i }

end Constraint

namespace Evaluation

/-- The outcome for one agent. -/
def row (i : Nat) (e : Evaluation α) : Evaluation α :=
  ⟨e.objectives.map (Column.row i), (e.penalty[i]?).toList⟩

/-- A penalty for each of `n` agents, and in an evaluation one full column for
each objective. -/
structure Spans (mode : Mode) (n objectives : Nat) (e : Evaluation α) : Prop where
  penalty : e.penalty.length = n
  columns : ∀ c ∈ e.objectives, c.size = n
  count : mode = .evaluate → e.objectives.length = objectives

end Evaluation

namespace Pass

/-- The progress of a pass as one agent sees it. -/
def row (i : Nat) (p : Pass α) : Pass α :=
  { p with objectives := p.objectives.map (Column.row i), penalty := (p.penalty[i]?).toList }

/-- A penalty for each of `n` agents, and in an evaluation one full column for
each direction. -/
structure Spans (mode : Mode) (n : Nat) (p : Pass α) : Prop where
  penalty : p.penalty.length = n
  columns : ∀ c ∈ p.objectives, c.size = n
  count : mode = .evaluate → p.objectives.length = p.directions.length

variable {mode : Mode} {schema : Schema α} {view : View α} {p : Pass α}

/-- The pass that goes on when a request was granted. -/
def granted (x : Except (Error α) Unit × Pass α) : Except (Error α) (Pass α) :=
  x.1.map fun _ => x.2

theorem fits_of_spans (what : Registered) {c : Column α} (spans : c.Spans n) :
    fits what c n = .ok () := by
  unfold fits
  rw [if_pos]
  simpa [Column.Spans] using spans

theorem fits_of_not_spans (what : Registered) {c : Column α} (short : ¬c.Spans n) :
    fits what c n = .error (.columnLength what c.size n) := by
  unfold fits
  rw [if_neg]
  simpa [Column.Spans] using short

/-- Outside an evaluation nobody looks at the column. -/
theorem optimize_other (other : mode ≠ .evaluate) (agents : Nat) (q : Pass α) (d : Direction)
    (c : Column α) :
    optimize mode agents q d c = (.ok (), { q with directions := q.directions ++ [d] }) :=
  if_neg other

/-- Repeating a single value for every agent changes nothing that an agent reads. -/
theorem optimize_evaluate (q : Pass α) (d : Direction) {c : Column α} (column : c.Spans n) :
    ∃ full : Column α, full.size = n ∧ (∀ i < n, full.row i = c.row i) ∧
      optimize .evaluate n q d c = (.ok (), { q with
        directions := q.directions ++ [d], objectives := q.objectives ++ [full] }) := by
  by_cases single : c.size = 1
  · obtain ⟨x, rfl⟩ := Column.eq_single single
    refine ⟨.constant x n, List.length_replicate .., fun i below => Column.row_constant x below, ?_⟩
    simp only [optimize, if_true, fits_of_spans _ column]
    rfl
  · refine ⟨c, column.resolve_right single, fun _ _ => rfl, ?_⟩
    simp only [optimize, if_true, fits_of_spans _ column]
    obtain ⟨values⟩ := c
    rcases values with _ | ⟨x, _ | ⟨y, rest⟩⟩
    · rfl
    · exact absurd rfl single
    · rfl

/-- The direction of an objective that is refused has been counted. -/
theorem optimize_refused (q : Pass α) (d : Direction) {c : Column α} (short : ¬c.Spans n) :
    optimize .evaluate n q d c =
      (.error (.columnLength (.objective q.directions.length) c.size n),
        { q with directions := q.directions ++ [d] }) := by
  simp only [optimize, if_true, fits_of_not_spans _ short]

private theorem optimize_single (q : Pass α) (d : Direction) (x : α) :
    optimize .evaluate 1 q d (Column.single x) = (.ok (), { q with
      directions := q.directions ++ [d], objectives := q.objectives ++ [Column.single x] }) := rfl

theorem optimize_splits (spans : p.Spans mode n) (d : Direction) {c : Column α}
    (column : c.Spans n) :
    Splits n (Spans mode n) row (granted (optimize mode n p d c))
      fun i => granted (optimize mode 1 (p.row i) d (c.row i)) := by
  by_cases evaluates : mode = .evaluate
  · subst evaluates
    obtain ⟨full, size, shares, accepted⟩ := optimize_evaluate p d column
    rw [accepted]
    refine Splits.congr (Splits.ok ⟨spans.penalty, ?_, ?_⟩) fun i below => ?_
    · intro c' member
      rcases List.mem_append.mp member with earlier | last
      · exact spans.columns c' earlier
      · rw [List.mem_singleton.mp last]
        exact size
    · intro _
      rw [List.length_append, List.length_append, spans.count rfl]
      rfl
    · obtain ⟨x, only⟩ := Column.eq_single (Column.spans_row column below)
      have own : full.row i = Column.single x := (shares i below).trans only
      rw [only, optimize_single]
      simp [granted, Except.map, row, own]
  · rw [optimize_other evaluates]
    refine Splits.congr (Splits.ok ⟨spans.penalty, spans.columns, ?_⟩) fun i _ =>
      congrArg granted (optimize_other evaluates 1 (p.row i) d _)
    exact fun evaluate => absurd evaluate evaluates

theorem close_splits (schema : Schema α) (spans : p.Spans mode n) :
    Splits n (Evaluation.Spans mode n schema.objectives) Evaluation.row (p.close schema)
      fun i => (p.row i).close schema := by
  unfold close
  have declared (i : Nat) : (p.row i).declared = p.declared := rfl
  have directions (i : Nat) : (p.row i).directions = p.directions := rfl
  have constraints (i : Nat) : (p.row i).constraints = p.constraints := rfl
  simp only [declared, directions, constraints]
  cases schema.registry.get? p.declared with
  | some v => exact Splits.error _
  | none =>
    by_cases objectives : p.directions.length = schema.objectives
    · by_cases count : p.constraints = schema.constraints.length
      · simp only [objectives, count, ne_eq, not_true, if_false]
        exact Splits.ok ⟨spans.penalty, spans.columns,
          fun evaluate => (spans.count evaluate).trans objectives⟩
      · simp only [objectives, count, ne_eq, not_true, not_false_eq_true, if_true, if_false]
        exact Splits.error _
    · simp only [objectives, ne_eq, not_false_eq_true, if_true]
      exact Splits.error _

variable [Scalar α]

/-- Every row is cut at the same places, so decoding fails for all rows or none. -/
private theorem decode_splits {rows : List (List α)} {genes : Nat} (v : Variable α)
    (inhabited : rows ≠ []) (uniform : ∀ row ∈ rows, row.length = genes) :
    Splits rows.length (fun decoded => decoded.length = rows.length)
      (fun i decoded => (decoded[i]?).toList)
      (rows.mapM fun row => (v.stretchOf row).map v.decode)
      fun i => [rows.getD i []].mapM fun row => (v.stretchOf row).map v.decode := by
  have member {i : Nat} (below : i < rows.length) : rows.getD i [] ∈ rows := by
    rw [List.getD_eq_getElem?_getD, List.getElem?_eq_getElem below]
    exact List.getElem_mem below
  by_cases fits : v.start ≤ v.stop ∧ v.stop ≤ genes
  · have cut (part : List (List α)) (included : ∀ row ∈ part, row ∈ rows) :
        (part.mapM fun row => (v.stretchOf row).map v.decode) =
          .ok (part.map fun row => v.decode ((row.drop v.start).take v.width)) := by
      induction part with
      | nil => rfl
      | cons row part ih =>
        have length := uniform row (included row List.mem_cons_self)
        rw [List.mapM_cons, ih fun row later => included row (List.mem_cons_of_mem _ later),
          Variable.stretchOf, length, if_pos (by simpa using fits)]
        rfl
    rw [cut rows fun _ inside => inside]
    refine Splits.congr (Splits.ok (List.length_map _)) fun i below => ?_
    rw [cut [rows.getD i []] fun row only => List.mem_singleton.mp only ▸ member below]
    simp [List.getElem?_eq_getElem below]
  · have short (row : List α) (length : row.length = genes) :
        v.stretchOf row = .error .outOfRange := by
      rw [Variable.stretchOf, length, if_neg (by simpa using fits)]
    cases rows with
    | nil => exact absurd rfl inhabited
    | cons row rest =>
      rw [List.mapM_cons, short row (uniform row List.mem_cons_self)]
      refine (Splits.error Fault.outOfRange).congr fun i below => ?_
      rw [List.mapM_cons, short _ (uniform _ (member below))]
      rfl

theorem declare_splits (inhabited : view.rows ≠ [])
    (uniform : ∀ row ∈ view.rows, row.length = view.genes) (spans : p.Spans mode view.rows.length)
    (d : Declaration α) :
    Splits view.rows.length
      (fun x => x.1.agents = view.rows.length ∧ x.2.Spans mode view.rows.length)
      (fun i x => (x.1.row i, x.2.row i)) (declare schema view p d)
      fun i => declare schema (View.single (view.rows.getD i [])) (p.row i) d := by
  cases known : schema.registry.get? p.declared with
  | none =>
    have fails (view : View α) (q : Pass α) (same : q.declared = p.declared) :
        declare schema view q d = .error (.error (.schema (.divergent p.declared none (some d)))) := by
      simp only [declare, same, known]
    rw [fails view p rfl]
    exact (Splits.error _).congr fun i _ => fails _ (p.row i) rfl
  | some v =>
    cases agrees : v.toDeclaration.agrees d with
    | false =>
      have fails (view : View α) (q : Pass α) (same : q.declared = p.declared) :
          declare schema view q d = .error (.error (.schema
            (.divergent p.declared (some v.toDeclaration) (some d)))) := by
        simp only [declare, same, known, agrees, Bool.false_eq_true, if_false]
      rw [fails view p rfl]
      exact (Splits.error _).congr fun i _ => fails _ (p.row i) rfl
    | true =>
      have answers (view : View α) (q : Pass α) (same : q.declared = p.declared) :
          declare schema view q d =
            ((view.rows.mapM fun row => (v.stretchOf row).map v.decode).mapError .fault).map
              fun rows => (⟨p.declared, d.kind, v.shape, rows⟩,
                { q with declared := p.declared + 1 }) := by
        simp only [declare, same, known, agrees, if_true]
        cases view.rows.mapM fun row => (v.stretchOf row).map v.decode <;> rfl
      have decoded := (decode_splits v inhabited uniform).mapError (Failure.fault (α := α))
      rw [answers view p rfl]
      refine Splits.congr (decoded.map ?_ ?_) fun i _ => answers _ (p.row i) rfl
      · intro rows agents
        exact ⟨agents, spans.penalty, spans.columns, spans.count⟩
      · intro i rows
        rfl

theorem addViolation_single (penalty : List α) (x : α) :
    addViolation penalty (Column.single x) = penalty.map (· + charge x) := rfl

/-- Each agent is charged its own violation, or the one that all of them share. -/
theorem addViolation_row {penalty : List α} {c : Column α} (length : penalty.length = n)
    (spans : c.Spans n) :
    (addViolation penalty c).length = n ∧ ∀ i < n,
      addViolation (penalty[i]?).toList (c.row i) = ((addViolation penalty c)[i]?).toList := by
  rcases spans with size | size
  · by_cases single : c.size = 1
    · obtain ⟨x, rfl⟩ := Column.eq_single single
      refine ⟨(List.length_map _).trans length, fun i below => ?_⟩
      rw [Column.row_single, addViolation_single, addViolation_single, List.getElem?_map]
      cases penalty[i]? <;> rfl
    · have zipped : addViolation penalty c =
          List.zipWith (fun p v => p + charge v) penalty c.values := by
        obtain ⟨values⟩ := c
        unfold addViolation
        split
        · rename_i only
          exact absurd (congrArg List.length only) single
        · rfl
      unfold Column.size at size
      refine ⟨by rw [zipped, List.length_zipWith, length, size, Nat.min_self], fun i below => ?_⟩
      obtain ⟨x, read⟩ := Column.Spans.exists_at? (.inl size) below
      rw [Column.row_eq_single read, addViolation_single, zipped, List.getElem?_zipWith]
      rw [Column.at?_of_lt (by unfold Column.size; omega)] at read
      rw [read, List.getElem?_eq_getElem (by omega)]
      rfl
  · obtain ⟨x, rfl⟩ := Column.eq_single size
    refine ⟨(List.length_map _).trans length, fun i below => ?_⟩
    rw [Column.row_single, addViolation_single, addViolation_single, List.getElem?_map]
    cases penalty[i]? <;> rfl

/-- What a constraint adds when it is granted. -/
theorem constrain_granted (q : Pass α) {c : Constraint α} (violation : c.violation.Spans n) :
    constrain n q c = (.ok (), { q with
      constraints := q.constraints + 1, penalty := addViolation q.penalty c.violation }) := by
  simp only [constrain, fits_of_spans _ violation]

/-- A constraint that is refused has been counted. -/
theorem constrain_refused (q : Pass α) {c : Constraint α} (short : ¬c.violation.Spans n) :
    constrain n q c = (.error (.columnLength (constraintName q.constraints c) c.violation.size n),
      { q with constraints := q.constraints + 1 }) := by
  simp only [constrain, fits_of_not_spans _ short]

theorem constrain_splits (spans : p.Spans mode n) {c : Constraint α} (violation : c.violation.Spans n) :
    Splits n (Spans mode n) row (granted (constrain n p c))
      fun i => granted (constrain 1 (p.row i) (c.row i)) := by
  obtain ⟨length, charged⟩ := addViolation_row spans.penalty violation
  rw [constrain_granted p violation]
  refine Splits.congr (Splits.ok ⟨length, spans.columns, spans.count⟩) fun i below => ?_
  have alone : (c.row i).violation.Spans 1 := .inl (Column.spans_row violation below)
  rw [constrain_granted (p.row i) alone]
  have own : addViolation (p.row i).penalty (c.row i).violation =
      ((addViolation p.penalty c.violation)[i]?).toList := charged i below
  rw [own]
  rfl

end Pass
end Metaheuristic
