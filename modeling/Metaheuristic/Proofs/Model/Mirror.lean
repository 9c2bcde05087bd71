import Metaheuristic.Proofs.Model.Delivery
import Metaheuristic.Proofs.Quality.Mirror

/-! Mirroring one objective of a model: where the model minimizes a column as that
objective, the mirrored model maximizes the negated column, and the other way
round. It declares the same space, and a pass over it has the outcome of the pass
over the model, with the column of that objective negated. -/
namespace Metaheuristic

variable {α : Type}

/-- The negated column. -/
def Column.negate [Neg α] (c : Column α) : Column α := c.map fun x => -x

variable [Scalar α]

/-- The program whose objective `k` is mirrored. The next objective is number `i`. -/
def Program.mirror (k : Nat) : (i : Nat) → Program α → Program α
  | _, .done => .done
  | _, .stop failure => .stop failure
  | i, .mode next => .mode fun mode => (next mode).mirror k i
  | i, .agents next => .agents fun n => (next n).mirror k i
  | i, .declare declaration next => .declare declaration fun answer => (next answer).mirror k i
  | i, .constrain constraint next => .constrain constraint fun answer => (next answer).mirror k i
  | i, .optimize direction column next =>
    if i = k then
      .optimize direction.opposite column.negate fun answer => (next answer).mirror k (i + 1)
    else .optimize direction column fun answer => (next answer).mirror k (i + 1)
  | i, .note entry next => .note entry (next.mirror k i)

/-- The model whose objective `k` is mirrored in every pass. -/
def Model.mirror (k : Nat) (model : Model α) : Model α := fun passes => (model passes).mirror k 0

def Schema.mirror (k : Nat) (s : Schema α) : Schema α :=
  { s with directions := mirrorDirections k s.directions }

/-- Columns with number `k` negated. -/
def mirrorColumns (k : Nat) (columns : List (Column α)) : List (Column α) :=
  columns.modify k Column.negate

def Evaluation.mirror (k : Nat) (e : Evaluation α) : Evaluation α :=
  { e with objectives := mirrorColumns k e.objectives }

theorem modify_concat {β : Type} (f : β → β) (xs : List β) (x : β) (k : Nat) :
    (xs ++ [x]).modify k f = xs.modify k f ++ [if xs.length = k then f x else x] := by
  induction xs generalizing k with
  | nil => cases k <;> simp
  | cons y ys ih => cases k <;> simp [ih]

namespace Schema

variable {s : Schema α} {k i : Nat}

theorem extend_mirror (program : Program α) (place : s.directions.length = i) :
    extend (program.mirror k i) (s.mirror k) =
      ((extend program s).1.map (Schema.mirror k), (extend program s).2) := by
  induction program generalizing s i with
  | done => rfl
  | stop failure => rfl
  | mode next ih => exact ih .discovery place
  | agents next ih => exact ih 1 place
  | declare declaration next ih =>
    have registry : (s.mirror k).registry = s.registry := rfl
    rw [Program.mirror, extend, extend, registry]
    cases s.registry.declare declaration with
    | error cause => exact ih (.error cause) place
    | ok declared => exact ih (.ok (placeholder declared.1)) (s := ⟨declared.2, _, _⟩) place
  | constrain constraint next ih => exact ih (.ok ()) (s := ⟨_, s.constraints ++ [_], _⟩) place
  | optimize direction column next ih =>
    have rest := ih (.ok ()) (s := { s with directions := s.directions ++ [direction] })
      (i := i + 1) (by simp [place])
    rw [Schema.mirror, mirrorDirections, modify_concat, place] at rest
    rw [Program.mirror]
    split
    · rename_i same
      rw [if_pos same] at rest
      exact rest
    · rename_i other
      rw [if_neg other] at rest
      exact rest
  | note entry next ih =>
    rw [Program.mirror, extend, extend, ih place]

omit [Scalar α] in
theorem objectives_mirror (s : Schema α) (k : Nat) : (s.mirror k).objectives = s.objectives :=
  length_mirrorDirections k s.directions

omit [Scalar α] in
theorem checked_mirror (s : Schema α) (k : Nat) :
    (s.mirror k).checked = s.checked.map (Schema.mirror k) := by
  have none : (s.mirror k).directions.isEmpty = s.directions.isEmpty := by
    cases directions : s.directions <;> cases k <;> simp [Schema.mirror, directions]
  unfold checked
  rw [none]
  have genes : (s.mirror k).genes = s.genes := rfl
  rw [genes]
  split
  · rfl
  · split <;> rfl

theorem discover_mirror (program : Program α) (k : Nat) :
    (discover (program.mirror k 0)).1 = (discover program).1.map (Schema.mirror k) := by
  have blank : (empty : Schema α) = (empty : Schema α).mirror k := by
    simp [empty, mirror]
  have extended := extend_mirror (s := empty) (k := k) (i := 0) program rfl
  rw [← blank] at extended
  unfold discover
  rw [extended]
  obtain ⟨result, notes⟩ := extend program empty
  cases result with
  | error failure => rfl
  | ok s =>
    have checked : (checked (s.mirror k)).mapError Failure.error =
        (s.checked.mapError Failure.error).map (Schema.mirror k) := by
      rw [checked_mirror]
      cases s.checked <;> rfl
    exact checked

end Schema

/-- A pass beside a pass of the mirrored program. While no column is missing, column `k` is
negated; when some are, there are as many on both sides. -/
structure Pass.Reflects (k : Nat) (p q : Pass α) : Prop where
  declared : q.declared = p.declared
  constraints : q.constraints = p.constraints
  directions : q.directions = mirrorDirections k p.directions
  penalty : q.penalty = p.penalty
  count : q.objectives.length = p.objectives.length
  within : p.objectives.length ≤ p.directions.length
  objectives : p.objectives.length = p.directions.length →
    q.objectives = mirrorColumns k p.objectives

/-- The outcome of a pass beside that of the mirrored program, when that many objectives are to be
delivered. -/
structure Evaluation.Reflects (k objectives : Nat) (e e' : Evaluation α) : Prop where
  penalty : e'.penalty = e.penalty
  count : e'.objectives.length = e.objectives.length
  complete : e.objectives.length = objectives → e' = e.mirror k

namespace Pass

variable {p q : Pass α} {k i : Nat} {schema : Schema α} {view : View α} {mode : Mode}

omit [Scalar α] in
private theorem constant_negate [Neg α] (x : α) (agents : Nat) :
    Column.constant (-x) agents = (Column.constant x agents).negate := by
  simp [Column.negate, Column.map, Column.constant]

variable (schema view) in
theorem declare_reflects (reflects : p.Reflects k q) (d : Declaration α) :
    Corresponds (fun x y => y.1 = x.1 ∧ x.2.directions = p.directions ∧ x.2.Reflects k y.2)
      (declare schema view p d) (declare (schema.mirror k) view q d) := by
  have registry : (schema.mirror k).registry = schema.registry := rfl
  unfold declare
  rw [registry, reflects.declared]
  split
  · exact rfl
  · split
    · split
      · exact rfl
      · exact ⟨rfl, rfl, rfl, reflects.constraints, reflects.directions, reflects.penalty,
          reflects.count, reflects.within, reflects.objectives⟩
    · exact rfl

theorem constrain_reflects (reflects : p.Reflects k q) (n : Nat) (c : Constraint α) :
    (constrain n q c).1 = (constrain n p c).1 ∧
      (constrain n p c).2.Reflects k (constrain n q c).2 := by
  have counted : q.constraints + 1 = p.constraints + 1 := congrArg (· + 1) reflects.constraints
  by_cases violation : c.violation.Spans n
  · rw [constrain_granted p violation, constrain_granted q violation]
    refine ⟨rfl, reflects.declared, counted, reflects.directions, ?_, reflects.count,
      reflects.within, reflects.objectives⟩
    exact congrArg (addViolation · c.violation) reflects.penalty
  · rw [constrain_refused p violation, constrain_refused q violation, reflects.constraints]
    exact ⟨rfl, reflects.declared, rfl, reflects.directions, reflects.penalty, reflects.count,
      reflects.within, reflects.objectives⟩

/-- The mirrored objective, when the next one is number `i`. -/
private def mirroredColumn (k i : Nat) (c : Column α) : Column α := if i = k then c.negate else c

private theorem size_mirroredColumn (c : Column α) : (mirroredColumn k i c).size = c.size := by
  unfold mirroredColumn
  split
  · exact List.length_map _
  · rfl

/-- A granted objective, whose column has a value for each agent. -/
private theorem optimize_mirrored (p q : Pass α) {n : Nat} (d d' : Direction) {c : Column α}
    (column : c.Spans n) : ∃ full : Column α,
      optimize .evaluate n p d c = (.ok (), { p with
        directions := p.directions ++ [d], objectives := p.objectives ++ [full] }) ∧
      optimize .evaluate n q d' (mirroredColumn k i c) = (.ok (), { q with
        directions := q.directions ++ [d'],
        objectives := q.objectives ++ [mirroredColumn k i full] }) := by
  have other : (mirroredColumn k i c).Spans n := by
    unfold Column.Spans at column ⊢
    rwa [size_mirroredColumn]
  simp only [optimize, if_true, fits_of_spans _ column, fits_of_spans _ other]
  by_cases same : i = k
  · simp only [mirroredColumn, if_pos same]
    -- a column of length one is repeated before or after it is negated
    obtain ⟨_ | ⟨x, _ | ⟨y, rest⟩⟩⟩ := c
    · exact ⟨⟨[]⟩, rfl, rfl⟩
    · refine ⟨Column.constant x n, rfl, ?_⟩
      rw [← constant_negate]
      rfl
    · exact ⟨⟨x :: y :: rest⟩, rfl, rfl⟩
  · simp only [mirroredColumn, if_neg same]
    exact ⟨_, rfl, rfl⟩

variable (mode) in
theorem optimize_reflects (reflects : p.Reflects k q) (place : p.directions.length = i) (n : Nat)
    (d : Direction) (c : Column α) :
    (optimize mode n q (if i = k then d.opposite else d) (mirroredColumn k i c)).1 =
        (optimize mode n p d c).1 ∧
      (optimize mode n p d c).2.Reflects k
        (optimize mode n q (if i = k then d.opposite else d) (mirroredColumn k i c)).2 := by
  have directions : q.directions ++ [if i = k then d.opposite else d] =
      mirrorDirections k (p.directions ++ [d]) := by
    rw [reflects.directions, mirrorDirections, mirrorDirections, modify_concat, place]
  have within : p.objectives.length ≤ p.directions.length := reflects.within
  by_cases evaluates : mode = .evaluate
  · subst evaluates
    by_cases column : c.Spans n
    · obtain ⟨full, granted, mirrored⟩ := optimize_mirrored (k := k) (i := i) p q d
        (if i = k then d.opposite else d) column
      rw [granted, mirrored]
      refine ⟨rfl, reflects.declared, reflects.constraints, directions, reflects.penalty, ?_, ?_, ?_⟩
      · simp [reflects.count]
      · simpa using within
      · intro complete
        have before : p.objectives.length = p.directions.length := by simpa using complete
        simp only [reflects.objectives before, mirrorColumns, modify_concat, before, place]
        rfl
    · have other : ¬(mirroredColumn k i c).Spans n := by
        unfold Column.Spans at column ⊢
        rwa [size_mirroredColumn]
      have length : q.directions.length = p.directions.length := by
        rw [reflects.directions, length_mirrorDirections]
      rw [optimize_refused p d column, optimize_refused q _ other, length, size_mirroredColumn]
      refine ⟨rfl, reflects.declared, reflects.constraints, directions, reflects.penalty,
        reflects.count, ?_, ?_⟩
      · simp only [List.length_append, List.length_singleton]
        omega
      · simp only [List.length_append, List.length_singleton]
        omega
  · rw [optimize_other evaluates, optimize_other evaluates]
    refine ⟨rfl, reflects.declared, reflects.constraints, directions, reflects.penalty,
      reflects.count, ?_, ?_⟩
    · simp only [List.length_append, List.length_singleton]
      omega
    · simp only [List.length_append, List.length_singleton]
      omega

/-- By induction on the program: both passes are granted and refused the same, so they stay side by
side. -/
theorem follow_reflects (program : Program α) (reflects : p.Reflects k q)
    (place : p.directions.length = i) :
    Corresponds (Reflects k) (follow mode schema view program p).1
      (follow mode (schema.mirror k) view (program.mirror k i) q).1 := by
  induction program generalizing p q i with
  | done => exact reflects
  | stop failure => exact rfl
  | mode next ih => exact ih mode reflects place
  | agents next ih => exact ih _ reflects place
  | declare d next ih =>
    rw [Program.mirror, follow, follow]
    have answers := declare_reflects schema view reflects d
    generalize declare schema view p d = answer at answers
    generalize declare (schema.mirror k) view q d = answer' at answers
    rcases answer with failure | ⟨values, p'⟩
    · rcases answer' with failure' | _
      · obtain rfl : failure = failure' := answers
        cases failure with
        | error cause => exact ih _ reflects place
        | fault cause => exact rfl
      · exact answers.elim
    · rcases answer' with _ | ⟨values', q'⟩
      · exact answers.elim
      · obtain ⟨rfl, same, kept⟩ := answers
        exact ih _ kept (same ▸ place)
  | constrain c next ih =>
    obtain ⟨answer, kept⟩ := constrain_reflects reflects view.rows.length c
    rw [Program.mirror, follow_constrain, follow_constrain, answer]
    exact ih _ kept ((constrain_counts view.rows.length p c).2.2.1 ▸ place)
  | optimize d c next ih =>
    obtain ⟨answer, kept⟩ := optimize_reflects mode reflects place view.rows.length d c
    have mirrored : Program.mirror k i (.optimize d c next) =
        .optimize (if i = k then d.opposite else d) (mirroredColumn k i c)
          fun answer => (next answer).mirror k (i + 1) := by
      rw [Program.mirror, mirroredColumn]
      split <;> rfl
    rw [mirrored, follow_optimize, follow_optimize, answer]
    refine ih _ kept ?_
    rw [(optimize_counts mode view.rows.length p d c).2.2.1, List.length_append, place]
    rfl
  | note entry next ih =>
    rw [Program.mirror, follow_note, follow_note]
    exact ih reflects place

theorem close_reflects (reflects : p.Reflects k q) (schema : Schema α) :
    Corresponds (Evaluation.Reflects k schema.objectives) (p.close schema)
      (q.close (schema.mirror k)) := by
  have registry : (schema.mirror k).registry = schema.registry := rfl
  have constraints : (schema.mirror k).constraints = schema.constraints := rfl
  have directions : q.directions.length = p.directions.length := by
    rw [reflects.directions, length_mirrorDirections]
  unfold close
  rw [registry, reflects.declared, reflects.constraints, constraints, schema.objectives_mirror,
    directions]
  split
  · exact rfl
  · split
    · exact rfl
    · rename_i counted
      split
      · exact rfl
      · refine ⟨reflects.penalty, reflects.count, fun complete => ?_⟩
        rw [Evaluation.mirror, ← reflects.objectives (complete.trans (not_not.mp counted).symm),
          ← reflects.penalty]

theorem run_reflects (mode : Mode) (schema : Schema α) (program : Program α) (view : View α)
    (k : Nat) :
    Corresponds (Evaluation.Reflects k schema.objectives) (run mode schema program view).1
      (run mode (schema.mirror k) (program.mirror k 0) view).1 := by
  have blank : (start view.rows.length : Pass α).Reflects k (start view.rows.length) :=
    ⟨rfl, rfl, (mirrorDirections_nil k).symm, rfl, rfl, Nat.le_refl _, fun _ => by
      simp [start, mirrorColumns]⟩
  rw [run_eq, run_eq]
  exact (follow_reflects program blank rfl).bind fun p q reflects =>
    (close_reflects reflects schema).mapError Failure.error

end Pass

namespace Schema

theorem evaluate_reflects (s : Schema α) (program : Program α) (view : View α) (k : Nat) :
    Corresponds (Evaluation.Reflects k s.objectives) (s.evaluate program view).1
      ((s.mirror k).evaluate (program.mirror k 0) view).1 :=
  Pass.run_reflects .evaluate s program view k

/-- Feasibility does not depend on objectives. -/
theorem classify_mirror (s : Schema α) (program : Program α) (view : View α) (k : Nat) :
    ((s.mirror k).classify (program.mirror k 0) view).1 = (s.classify program view).1 := by
  have checked := Pass.run_reflects .feasibility s program view k
  have result (s : Schema α) (program : Program α) : (s.classify program view).1 =
      (Pass.run .feasibility s program view).1.map fun e =>
        e.penalty.map (Feasibility.classify s.constraints.length) := rfl
  rw [result, result]
  generalize (Pass.run .feasibility s program view).1 = outcome at checked
  generalize (Pass.run .feasibility (s.mirror k) (program.mirror k 0) view).1 = outcome' at checked
  cases outcome with
  | error failure =>
    cases outcome' with
    | error failure' => exact congrArg Except.error checked.symm
    | ok e' => exact checked.elim
  | ok e =>
    cases outcome' with
    | error failure' => exact checked.elim
    | ok e' =>
      have penalty : e'.penalty = e.penalty := checked.penalty
      have counted : (s.mirror k).constraints = s.constraints := rfl
      simp only [Except.map, penalty, counted]

end Schema

/-- A step that registers objective `k` opposes the direction and negates the
formula. The next objective is number `i`. -/
def Step.mirror (k i : Nat) : Step α → Step α
  | .optimize d formula =>
    if i = k then .optimize d.opposite formula.neg else .optimize d formula
  | step => step

/-- The number of objectives that a step registers. -/
def Step.objectives : Step α → Nat
  | .optimize _ _ => 1
  | _ => 0

/-- The script whose objective `k` is mirrored. -/
def Script.mirror (k : Nat) : (i : Nat) → Script α → Script α
  | _, [] => []
  | i, line :: rest =>
    { line with step := line.step.mirror k i } :: mirror k (i + line.step.objectives) rest

namespace Script

private theorem eval_neg (n : Nat) (env : Environment α) (formula : Formula α) :
    formula.neg.eval n env = (formula.eval n env).map Column.negate := by
  rw [Formula.neg, Formula.eval]
  cases formula.eval n env <;> rfl

private theorem mirror_proceed {β : Type} (r : Except (Failure α) β) (next : β → Program α)
    (k i : Nat) :
    (Program.proceed r next).mirror k i = .proceed r fun x => (next x).mirror k i := by
  cases r <;> rfl

private theorem mirror_require {β : Type} {next next' : β → Program α} {k i : Nat}
    (mirrored : ∀ x, next' x = (next x).mirror k i) :
    Program.require next' = fun answer => (Program.require next answer).mirror k i := by
  funext answer
  cases answer with
  | error cause => rfl
  | ok x => exact mirrored x

/-- Mirroring the line of an objective mirrors the objective: a script whose lines
all take place in every pass issues the mirrored program. -/
theorem program_mirror (script : Script α) (passes k i : Nat) (env : Environment α)
    (unconditional : ∀ line ∈ script, line.isUnconditional = true) :
    (script.mirror k i).program passes env = (script.program passes env).mirror k i := by
  induction script generalizing i env with
  | nil => rfl
  | cons line rest ih =>
    have here := unconditional line List.mem_cons_self
    have later (i : Nat) (env : Environment α) :=
      ih i env fun line member => unconditional line (List.mem_cons_of_mem _ member)
    obtain ⟨modes, ranges, step⟩ := line
    have issued (step : Step α) (rest : Script α) :
        program passes (⟨modes, ranges, step⟩ :: rest) env =
          step.issue env (program passes rest) := if_pos here
    have mirrored (step : Step α) : mirror k i (⟨modes, ranges, step⟩ :: rest) =
        ⟨modes, ranges, step.mirror k i⟩ :: mirror k (i + step.objectives) rest := rfl
    cases step with
    | declare d =>
      rw [mirrored, issued, issued]
      exact congrArg (Program.declare d) (mirror_require fun values => later i _)
    | constrain relation label =>
      rw [mirrored, issued, issued]
      refine congrArg Program.agents (funext fun n => ?_)
      rw [mirror_proceed]
      exact congrArg _ (funext fun c =>
        congrArg (Program.constrain c) (mirror_require fun _ => later i env))
    | optimize d formula =>
      have behind := mirror_require fun _ : Unit => later (i + 1) env
      rw [mirrored, issued, issued]
      by_cases same : i = k
      · rw [Step.mirror, if_pos same]
        refine congrArg Program.agents (funext fun n => ?_)
        rw [mirror_proceed, eval_neg]
        cases formula.eval n env with
        | error failure => rfl
        | ok c =>
          have placed : Program.mirror k i
              (.optimize d c (.require fun _ => program passes rest env)) = _ := if_pos same
          exact (congrArg (Program.optimize _ _) behind).trans placed.symm
      · rw [Step.mirror, if_neg same]
        refine congrArg Program.agents (funext fun n => ?_)
        rw [mirror_proceed]
        refine congrArg _ (funext fun c => ?_)
        have placed : Program.mirror k i
            (.optimize d c (.require fun _ => program passes rest env)) = _ := if_neg same
        exact (congrArg (Program.optimize _ _) behind).trans placed.symm
    | fail text =>
      rw [mirrored, issued, issued]
      rfl
    | observe formula =>
      rw [mirrored, issued, issued]
      refine congrArg Program.agents (funext fun n => ?_)
      rw [mirror_proceed]
      refine congrArg _ (funext fun c => ?_)
      refine congrArg Program.mode (funext fun mode => ?_)
      exact congrArg (Program.note _) (later i env)
    | describe name =>
      rw [mirrored, issued, issued]
      refine Eq.trans ?_ (mirror_proceed _ _ k i).symm
      refine congrArg (Program.proceed _) (funext fun values => ?_)
      refine congrArg Program.mode (funext fun mode => ?_)
      exact congrArg (Program.note _) (later i env)

theorem model_mirror (script : Script α) (k : Nat)
    (unconditional : ∀ line ∈ script, line.isUnconditional = true) :
    Script.model (script.mirror k 0) = (script.model).mirror k :=
  funext fun passes => program_mirror script passes k 0 [] unconditional

end Script
end Metaheuristic
