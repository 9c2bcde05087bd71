import Metaheuristic.Model.Script
import Metaheuristic.Number.Double
import Metaheuristic.Proofs.Model.Pass

/-! A pass over many rows against the passes over each row alone. A script whose
steps treat the agents alike takes the same turns in all of them, so the batch
succeeds exactly when every row does, fails with the failure of any row, and
holds for each row what that row yields alone. -/
namespace Metaheuristic

variable {α : Type} [Scalar α] {n : Nat}

namespace Relation

/-- Both sides treat the agents alike. -/
def Rowwise (rel : Relation α) : Prop := rel.left.Rowwise ∧ rel.right.Rowwise

private theorem combine_splits (rel : Relation α) {l r : Column α} (left : l.Spans n)
    (right : r.Spans n) :
    Splits n (fun c => c.violation.Spans n) Constraint.row (rel.combine l r)
      fun i => rel.combine (l.row i) (r.row i) := by
  cases rel <;>
    exact (Column.zipWith_splits _ left right).map (fun _ spans => spans) fun _ _ => rfl

theorem eval_splits {rel : Relation α} {env : Environment α} (rowwise : rel.Rowwise)
    (spans : env.Spans n) (label : Option String) :
    Splits n (fun c => c.violation.Spans n) Constraint.row (rel.eval n env label)
      fun i => rel.eval 1 (env.row i) label := by
  refine (Formula.eval_splits rowwise.1 spans).bind fun l spansL =>
    (Formula.eval_splits rowwise.2 spans).bind fun r spansR =>
      ((combine_splits rel spansL spansR).mapError Failure.fault).bind fun c spansC => ?_
  exact Splits.ok spansC

end Relation

/-- Steps in which an agent cannot see the others. -/
def Step.Rowwise : Step α → Prop
  | .constrain relation _ => relation.Rowwise
  | .optimize _ formula | .observe formula => formula.Rowwise
  | .declare _ | .fail _ | .describe _ => True

/-- Scripts that do the same in every pass and treat the agents alike. -/
def Script.Rowwise (script : Script α) : Prop :=
  ∀ line ∈ script, line.isUnconditional = true ∧ line.step.Rowwise

namespace Pass

variable {mode : Mode} {schema : Schema α} {view : View α} {p : Pass α}

theorem follow_agents (next : Nat → Program α) :
    follow mode schema view (.agents next) p =
      follow mode schema view (next view.rows.length) p := rfl

theorem follow_mode (next : Mode → Program α) :
    follow mode schema view (.mode next) p = follow mode schema view (next mode) p := rfl

theorem follow_proceed {β : Type} (r : Except (Failure α) β) (next : β → Program α) :
    (follow mode schema view (.proceed r next) p).1 =
      r >>= fun x => (follow mode schema view (next x) p).1 := by
  cases r <;> rfl

/-- Whatever becomes of a constraint, the program is told and goes on behind it. -/
theorem follow_constrain (c : Constraint α) (next : Except (Error α) Unit → Program α) :
    follow mode schema view (.constrain c next) p =
      follow mode schema view (next (constrain view.rows.length p c).1)
        (constrain view.rows.length p c).2 := rfl

theorem follow_optimize (d : Direction) (c : Column α)
    (next : Except (Error α) Unit → Program α) :
    follow mode schema view (.optimize d c next) p =
      follow mode schema view (next (optimize mode view.rows.length p d c).1)
        (optimize mode view.rows.length p d c).2 := rfl

/-- A program that requires what it declares goes on when it is granted. -/
theorem follow_declare_require (d : Declaration α) (next : Assignment α → Program α) :
    (follow mode schema view (.declare d (.require next)) p).1 =
      declare schema view p d >>= fun x => (follow mode schema view (next x.1) x.2).1 := by
  rw [follow]
  rcases declare schema view p d with (_ | _) | _ <;> rfl

theorem follow_constrain_require (c : Constraint α) (next : Unit → Program α) :
    (follow mode schema view (.constrain c (.require next)) p).1 =
      (granted (constrain view.rows.length p c)).mapError .error >>=
        fun p => (follow mode schema view (next ()) p).1 := by
  rw [follow]
  obtain ⟨_ | _, q⟩ := constrain view.rows.length p c <;> rfl

theorem follow_optimize_require (d : Direction) (c : Column α) (next : Unit → Program α) :
    (follow mode schema view (.optimize d c (.require next)) p).1 =
      (granted (optimize mode view.rows.length p d c)).mapError .error >>=
        fun p => (follow mode schema view (next ()) p).1 := by
  rw [follow]
  obtain ⟨_ | _, q⟩ := optimize mode view.rows.length p d c <;> rfl

theorem follow_note (note : Note α) (next : Program α) :
    (follow mode schema view (.note note next) p).1 = (follow mode schema view next p).1 := rfl

theorem start_spans (mode : Mode) (n : Nat) : (start n : Pass α).Spans mode n :=
  ⟨List.length_replicate .., nofun, fun _ => rfl⟩

theorem start_row {i : Nat} (below : i < n) : (start n : Pass α).row i = start 1 := by
  simp [start, row, below]

/-- One step in the batch and in the pass of each agent, given that what follows
it takes the same turns. -/
private theorem issue_splits (inhabited : view.rows ≠ [])
    (uniform : ∀ row ∈ view.rows, row.length = view.genes) {step : Step α}
    (rowwise : step.Rowwise) {env : Environment α} (values : env.Spans view.rows.length)
    (spans : p.Spans mode view.rows.length) {next : Environment α → Program α}
    {next' : Nat → Environment α → Program α}
    (after : ∀ env (q : Pass α), env.Spans view.rows.length → q.Spans mode view.rows.length →
      Splits view.rows.length (Spans mode view.rows.length) row
        (follow mode schema view (next env) q).1
        fun i => (follow mode schema (View.single (view.rows.getD i []))
          (next' i (env.row i)) (q.row i)).1) :
    Splits view.rows.length (Spans mode view.rows.length) row
      (follow mode schema view (step.issue env next) p).1
      fun i => (follow mode schema (View.single (view.rows.getD i []))
        (step.issue (env.row i) (next' i)) (p.row i)).1 := by
  cases step with
  | declare d =>
    simp only [Step.issue, follow_declare_require]
    refine (declare_splits inhabited uniform spans d).bind fun x good => ?_
    refine after _ x.2 (fun e member => ?_) good.2
    rcases List.mem_cons.mp member with rfl | earlier
    · exact good.1
    · exact values e earlier
  | constrain relation label =>
    simp only [Step.issue, follow_agents, follow_proceed, follow_constrain_require]
    exact (Relation.eval_splits rowwise values label).bind fun c violation =>
      ((constrain_splits spans violation).mapError Failure.error).bind fun q good =>
        after env q values good
  | optimize d formula =>
    simp only [Step.issue, follow_agents, follow_proceed, follow_optimize_require]
    exact (Formula.eval_splits rowwise values).bind fun c column =>
      ((optimize_splits spans d column).mapError Failure.error).bind fun q good =>
        after env q values good
  | fail text => exact Splits.error _
  | observe formula =>
    simp only [Step.issue, follow_agents, follow_proceed, follow_mode, follow_note]
    exact (Formula.eval_splits rowwise values).bind fun _ _ => after env p values spans
  | describe name =>
    simp only [Step.issue, follow_proceed, follow_mode, follow_note]
    exact (env.find_splits values name).bind fun _ _ => after env p values spans

/-- By induction on the script: each step keeps the batch and the passes of the
single agents together. The numbers of the passes do not matter. -/
theorem follow_splits (schema : Schema α) (inhabited : view.rows ≠ [])
    (uniform : ∀ row ∈ view.rows, row.length = view.genes) {script : Script α}
    (rowwise : script.Rowwise) {env : Environment α} (values : env.Spans view.rows.length)
    (spans : p.Spans mode view.rows.length) (evaluations : Nat) (others : Nat → Nat) :
    Splits view.rows.length (Spans mode view.rows.length) row
      (follow mode schema view (script.program evaluations env) p).1
      fun i => (follow mode schema (View.single (view.rows.getD i []))
        (script.program (others i) (env.row i)) (p.row i)).1 := by
  induction script generalizing env p with
  | nil => exact Splits.ok spans
  | cons line script ih =>
    obtain ⟨always, step⟩ := rowwise line List.mem_cons_self
    have rest : Script.Rowwise script := fun l member => rowwise l (List.mem_cons_of_mem _ member)
    simp only [Script.program, always, if_true]
    exact issue_splits inhabited uniform step values spans fun env q => ih rest

theorem run_eq (mode : Mode) (schema : Schema α) (program : Program α) (view : View α) :
    (run mode schema program view).1 =
      (follow mode schema view program (start view.rows.length)).1 >>=
        fun p => (p.close schema).mapError .error := rfl

theorem run_splits (mode : Mode) (schema : Schema α) (inhabited : view.rows ≠ [])
    (uniform : ∀ row ∈ view.rows, row.length = view.genes) {script : Script α}
    (rowwise : script.Rowwise) (evaluations : Nat) (others : Nat → Nat) :
    Splits view.rows.length (Evaluation.Spans mode view.rows.length schema.objectives)
      Evaluation.row (run mode schema (script.model evaluations) view).1
      fun i => (run mode schema (script.model (others i)) (View.single (view.rows.getD i []))).1 := by
  have values : Environment.Spans view.rows.length ([] : Environment α) :=
    fun _ none => by cases none
  have followed := follow_splits schema inhabited uniform rowwise values
    (start_spans mode view.rows.length) evaluations others
  simp only [run_eq]
  refine Splits.bind (followed.congr fun i below => ?_) fun p spans =>
    (close_splits schema spans).mapError Failure.error
  rw [start_row below]
  rfl

end Pass

namespace Schema

/-- What a row yields alone is its share of what the batch yields. -/
theorem evaluate_row {script : Script α} (rowwise : script.Rowwise) (schema : Schema α)
    {view : View α} (uniform : ∀ row ∈ view.rows, row.length = view.genes) {i : Nat}
    {row : List α} (place : view.rows[i]? = some row) (evaluations number : Nat) :
    (schema.evaluate (script.model number) (View.single row)).1 =
      (schema.evaluate (script.model evaluations) view).1.map (Evaluation.row i) := by
  obtain ⟨below, _⟩ := List.getElem?_eq_some_iff.mp place
  have inhabited : view.rows ≠ [] := List.ne_nil_of_length_pos (Nat.zero_lt_of_lt below)
  obtain ⟨_, shares⟩ := Pass.run_splits .evaluate schema inhabited uniform rowwise evaluations
    fun _ => number
  have share := shares i below
  simp only [List.getD_eq_getElem?_getD, place, Option.getD_some] at share
  exact share

/-- A script that treats the agents alike evaluates a batch as it evaluates each
row alone: with the same success or the same failure, and with the same penalty
and objective values. -/
theorem evaluate_batch_eq_rows {script : Script α} (rowwise : script.Rowwise) (schema : Schema α)
    {view : View α} (inhabited : view.rows ≠ [])
    (uniform : ∀ row ∈ view.rows, row.length = view.genes) (evaluations others : Nat) :
    ((∃ e, (schema.evaluate (script.model evaluations) view).1 = .ok e) ↔
      ∀ row ∈ view.rows, ∃ e, (schema.evaluate (script.model others) (View.single row)).1 = .ok e) ∧
    (∀ row ∈ view.rows, ∀ failure,
      (schema.evaluate (script.model evaluations) view).1 = .error failure ↔
        (schema.evaluate (script.model others) (View.single row)).1 = .error failure) ∧
    ∀ e, (schema.evaluate (script.model evaluations) view).1 = .ok e →
      e.penalty.length = view.rows.length ∧
      e.objectives.length = schema.objectives ∧
      (∀ c ∈ e.objectives, c.size = view.rows.length) ∧
      ∀ (i : Nat) (row : List α), view.rows[i]? = some row →
        ∃ alone, (schema.evaluate (script.model others) (View.single row)).1 = .ok alone ∧
          alone.objectives.length = schema.objectives ∧
          (∃ penalty, e.penalty[i]? = some penalty ∧ alone.penalty = [penalty]) ∧
          ∀ (k : Nat) (c : Column α), e.objectives[k]? = some c →
            ∃ x : α, c.values[i]? = some x ∧ alone.objectives[k]? = some ⟨[x]⟩ := by
  obtain ⟨good, _⟩ := Pass.run_splits .evaluate schema inhabited uniform rowwise evaluations
    fun _ => others
  have alone {i : Nat} {row : List α} (place : view.rows[i]? = some row) :=
    evaluate_row rowwise schema uniform place evaluations others
  refine ⟨⟨?_, ?_⟩, ?_, ?_⟩
  · rintro ⟨e, ran⟩ row member
    obtain ⟨i, place⟩ := List.mem_iff_getElem?.mp member
    exact ⟨e.row i, by rw [alone place, ran]; rfl⟩
  · intro each
    obtain ⟨row, member⟩ := List.exists_mem_of_ne_nil _ inhabited
    obtain ⟨i, place⟩ := List.mem_iff_getElem?.mp member
    obtain ⟨e, ran⟩ := each row member
    rw [alone place] at ran
    cases whole : (schema.evaluate (script.model evaluations) view).1 with
    | error failure =>
      rw [whole] at ran
      cases ran
    | ok e => exact ⟨e, rfl⟩
  · intro row member failure
    obtain ⟨i, place⟩ := List.mem_iff_getElem?.mp member
    rw [alone place]
    cases (schema.evaluate (script.model evaluations) view).1 with
    | error failure => simp [Except.map]
    | ok e => simp [Except.map]
  · intro e ran
    have spans := good e ran
    refine ⟨spans.penalty, spans.count rfl, spans.columns, fun i row place => ?_⟩
    obtain ⟨below, _⟩ := List.getElem?_eq_some_iff.mp place
    refine ⟨e.row i, by rw [alone place, ran]; rfl, ?_, ?_, ?_⟩
    · exact (List.length_map _).trans (spans.count rfl)
    · have inside : i < e.penalty.length := Nat.lt_of_lt_of_eq below spans.penalty.symm
      refine ⟨e.penalty.get ⟨i, inside⟩, List.getElem?_eq_getElem inside, ?_⟩
      simp [Evaluation.row, List.getElem?_eq_getElem inside]
    · intro k c objective
      have size := spans.columns c (List.mem_of_getElem? objective)
      obtain ⟨x, read⟩ := Column.Spans.exists_at? (.inl size) below
      refine ⟨x, ?_, ?_⟩
      · rwa [Column.at?_of_lt (Nat.lt_of_lt_of_eq below size.symm)] at read
      · rw [Evaluation.row, List.getElem?_map, objective, Option.map_some,
          Column.row_eq_single read]
        rfl

/-- Two amounts with a budget of nine for their sum; the first one counts twice. -/
def budget : Script Float := [
  ⟨none, none, .declare ⟨"x", .continuous, .vector 2, ⟨0.0, 10.0⟩⟩⟩,
  ⟨none, none, .constrain (.atMost (.sum "x") (.scalar 9.0)) none⟩,
  ⟨none, none, .optimize .maximize (.zip (· * ·) (.element "x" 0) (.constant 2.0))⟩]

/-- What the budget script declares. -/
def budgetSchema : Schema Float :=
  ⟨⟨[⟨⟨"x", .continuous, .vector 2, ⟨0.0, 10.0⟩⟩, 0, 0, 2⟩],
    (∅ : Std.HashMap String Nat).insert "x" 0, 2⟩, ["c0"], [.maximize]⟩

theorem budget_declared : Registry.declare Schema.empty.registry
    (⟨"x", .continuous, .vector 2, ⟨0.0, 10.0⟩⟩ : Declaration Float) =
      .ok (⟨⟨"x", .continuous, .vector 2, ⟨0.0, 10.0⟩⟩, 0, 0, 2⟩, budgetSchema.registry) := by
  have fresh : (Registry.empty : Registry Float).positions.contains "x" = false :=
    Std.HashMap.contains_empty
  have bound : Registry.checkedBound (⟨"x", .continuous, .vector 2, ⟨0.0, 10.0⟩⟩ :
      Declaration Float) = .ok ⟨0.0, 10.0⟩ := rfl
  rw [Registry.declare, if_neg (by simp [Schema.empty, fresh]), bound]
  rfl

theorem budget_discovered : (Schema.discover (budget.model 0)).1 = .ok budgetSchema := by
  have extended : Schema.extend (budget.model 0) .empty = (.ok budgetSchema, []) := by
    have issued : budget.model 0 = .declare ⟨"x", .continuous, .vector 2, ⟨0.0, 10.0⟩⟩
        (.require fun values => Script.program 0 (budget.drop 1) [("x", values)]) := rfl
    rw [issued, Schema.extend, budget_declared]
    rfl
  rw [Schema.discover, extended]
  rfl

theorem budget_rowwise : budget.Rowwise := by
  intro line member
  simp only [budget, List.mem_cons, List.not_mem_nil, or_false] at member
  rcases member with rfl | rfl | rfl
  · exact ⟨rfl, trivial⟩
  · exact ⟨rfl, .sum "x", .scalar 9.0⟩
  · exact ⟨rfl, .zip _ (.element "x" 0) (.constant 2.0)⟩

/-- The second agent exceeds the budget, in the batch and alone. -/
theorem evaluate_batch_eq_rows_budget :
    budget.Rowwise ∧
    (∃ e, (budgetSchema.evaluate (budget.model 0) ⟨2, [[0.25, 0.5], [0.5, 1.0]]⟩).1 = .ok e ∧
      e.objectives = [⟨[5.0, 10.0]⟩] ∧ e.penalty = [0.0, 6.0]) ∧
    ∃ alone, (budgetSchema.evaluate (budget.model 7) (View.single [0.5, 1.0])).1 = .ok alone ∧
      alone.penalty = [6.0] ∧ alone.objectives[0]? = some ⟨[10.0]⟩ := by
  have computed : ((budgetSchema.evaluate (budget.model 0)
      ⟨2, [[0.25, 0.5], [0.5, 1.0]]⟩).1.map fun e => (e.objectives, e.penalty)).toOption =
        some ([⟨[5.0, 10.0]⟩], [0.0, 6.0]) := by
    decide +kernel
  cases ran : (budgetSchema.evaluate (budget.model 0) ⟨2, [[0.25, 0.5], [0.5, 1.0]]⟩).1 with
  | error failure =>
    rw [ran] at computed
    cases computed
  | ok e =>
    rw [ran] at computed
    obtain ⟨columns, penalties⟩ := Prod.mk.inj (Option.some.inj computed)
    obtain ⟨_, _, shares⟩ := @evaluate_batch_eq_rows _ _ _ budget_rowwise budgetSchema
      ⟨2, [[0.25, 0.5], [0.5, 1.0]]⟩ (by simp) (by simp) 0 7
    obtain ⟨_, _, _, rows⟩ := shares e ran
    obtain ⟨alone, ranAlone, _, ⟨penalty, read, only⟩, objectives⟩ := rows 1 [0.5, 1.0] rfl
    obtain ⟨x, value, column⟩ := objectives 0 ⟨[5.0, 10.0]⟩ (by rw [columns]; rfl)
    rw [penalties] at read
    cases read
    cases value
    exact ⟨budget_rowwise, ⟨e, rfl, columns, penalties⟩, alone, ranAlone, only, column⟩

end Schema
end Metaheuristic
