import Metaheuristic.Proofs.Model.Delivery
import Metaheuristic.Proofs.Model.Discovery
import Metaheuristic.Proofs.Number.Double
import Metaheuristic.Proofs.Population.Addressed

/-! The objectives of an accepted pass. A pass counts the objectives that a program registers and
compares the number with that of discovery, but it never looks at their directions again: a program
may register its objectives in any other directions, with the same outcome. So a column is always
scored in the direction that was discovered at its place, which is the one it was registered with
only where the program registers the same directions on every path. -/
namespace Metaheuristic

variable {α : Type} [Scalar α]

namespace Program

/-- Whatever the program is answered, these are the directions it has registered when it is done. -/
def Registers : Program α → List Direction → Prop
  | .done, ds => ds = []
  | .stop _, _ => True
  | .mode next, ds => ∀ mode, (next mode).Registers ds
  | .agents next, ds => ∀ n, (next n).Registers ds
  | .declare _ next, ds => ∀ answer, (next answer).Registers ds
  | .constrain _ next, ds => ∀ answer, (next answer).Registers ds
  | .optimize d _ next, ds => ∃ rest, ds = d :: rest ∧ ∀ answer, (next answer).Registers rest
  | .note _ next, ds => next.Registers ds

/-- The program with other directions: objective number `i` is registered in direction `f i`. -/
def redirect (f : Nat → Direction) : (i : Nat) → Program α → Program α
  | _, .done => .done
  | _, .stop failure => .stop failure
  | i, .mode next => .mode fun mode => (next mode).redirect f i
  | i, .agents next => .agents fun n => (next n).redirect f i
  | i, .declare declaration next => .declare declaration fun answer => (next answer).redirect f i
  | i, .constrain constraint next => .constrain constraint fun answer => (next answer).redirect f i
  | i, .optimize _ column next => .optimize (f i) column fun answer => (next answer).redirect f (i + 1)
  | i, .note entry next => .note entry (next.redirect f i)

end Program

namespace Pass

variable {mode : Mode} {schema : Schema α} {view : View α} {p q : Pass α} {f : Nat → Direction}

/-- The pass with other directions. -/
def redirect (f : Nat → Direction) (p : Pass α) : Pass α :=
  { p with directions := (List.range p.directions.length).map f }

omit [Scalar α] in
@[simp]
theorem length_redirect (f : Nat → Direction) (p : Pass α) :
    (p.redirect f).directions.length = p.directions.length := by
  simp [redirect]

theorem declare_redirect (d : Declaration α) : declare schema view (p.redirect f) d =
    (declare schema view p d).map fun x => (x.1, x.2.redirect f) := by
  unfold declare
  have position : (p.redirect f).declared = p.declared := rfl
  rw [position]
  split
  · rfl
  · split
    · split <;> rfl
    · rfl

theorem constrain_redirect (n : Nat) (c : Constraint α) : constrain n (p.redirect f) c =
    ((constrain n p c).1, (constrain n p c).2.redirect f) := by
  by_cases violation : c.violation.Spans n
  · rw [constrain_granted p violation, constrain_granted (p.redirect f) violation]
    rfl
  · rw [constrain_refused p violation, constrain_refused (p.redirect f) violation]
    rfl

omit [Scalar α] in
/-- One more direction. -/
theorem redirect_append (d : Direction) (columns : List (Column α)) :
    { (p.redirect f) with
      directions := (p.redirect f).directions ++ [f p.directions.length], objectives := columns } =
    redirect f { p with directions := p.directions ++ [d], objectives := columns } := by
  simp [redirect, List.range_succ]

omit [Scalar α] in
theorem optimize_redirect (n : Nat) (d : Direction) (c : Column α) :
    optimize mode n (p.redirect f) (f p.directions.length) c =
      ((optimize mode n p d c).1, (optimize mode n p d c).2.redirect f) := by
  by_cases evaluates : mode = .evaluate
  · subst evaluates
    unfold optimize
    simp only [if_true, length_redirect]
    cases fits (.objective p.directions.length) c n with
    | error cause => exact congrArg (Prod.mk _) (redirect_append d p.objectives)
    | ok => exact congrArg (Prod.mk _) (redirect_append d _)
  · rw [optimize_other evaluates, optimize_other evaluates]
    exact congrArg (Prod.mk _) (redirect_append d p.objectives)

/-- A program goes through a pass, or fails in it, in whatever directions it registers its
objectives. By induction on the program. -/
theorem follow_redirect (program : Program α) {i : Nat} (place : p.directions.length = i) :
    follow mode schema view (program.redirect f i) (p.redirect f) =
      ((follow mode schema view program p).1.map (redirect f),
        (follow mode schema view program p).2) := by
  induction program generalizing p i with
  | done => rfl
  | stop failure => rfl
  | mode next ih => exact ih mode place
  | agents next ih => exact ih _ place
  | declare d next ih =>
    rw [Program.redirect, follow, follow, declare_redirect]
    rcases ran : declare schema view p d with (cause | fault) | answer
    · exact ih _ place
    · rfl
    · obtain ⟨_, _, _, _, _, _, kept⟩ := declare_ok ran
      exact ih (.ok answer.1) (p := answer.2) (by rw [kept]; exact place)
  | constrain c next ih =>
    rw [Program.redirect, follow_constrain, follow_constrain, constrain_redirect]
    exact ih _ ((constrain_counts view.rows.length p c).2.2.1 ▸ place)
  | optimize d c next ih =>
    subst place
    rw [Program.redirect, follow_optimize, follow_optimize, optimize_redirect (d := d)]
    refine ih _ ?_
    rw [(optimize_counts mode view.rows.length p d c).2.2.1, List.length_append,
      List.length_singleton]
  | note entry next ih =>
    rw [Program.redirect, follow, follow, ih place]

omit [Scalar α] in
theorem close_redirect (schema : Schema α) : (p.redirect f).close schema = p.close schema := by
  unfold close
  rw [length_redirect]
  rfl

theorem start_redirect (mode : Mode) (schema : Schema α) (program : Program α) (view : View α)
    (f : Nat → Direction) :
    follow mode schema view (program.redirect f 0) (start view.rows.length) =
      ((follow mode schema view program (start view.rows.length)).1.map (redirect f),
        (follow mode schema view program (start view.rows.length)).2) := by
  have place : (start view.rows.length : Pass α).directions.length = 0 := rfl
  exact follow_redirect program place

/-- The outcome of a pass does not depend on the directions that the program registers. -/
theorem run_redirect (mode : Mode) (schema : Schema α) (program : Program α) (view : View α)
    (f : Nat → Direction) :
    run mode schema (program.redirect f 0) view = run mode schema program view := by
  unfold run
  rw [start_redirect]
  obtain ⟨result, notes⟩ := follow mode schema view program (start view.rows.length)
  cases result with
  | error failure => rfl
  | ok q =>
    have closed : ((q.redirect f).close schema).mapError Failure.error =
        (q.close schema).mapError .error := by
      rw [close_redirect]
    exact congrArg (·, notes) closed

/-- A program that registers the same directions on every path has registered them at its end. By
induction on the program. -/
theorem follow_registers {program : Program α} {ds : List Direction}
    (registers : program.Registers ds)
    (ran : (follow mode schema view program p).1 = .ok q) : q.directions = p.directions ++ ds := by
  induction program generalizing p ds with
  | done =>
    cases ran
    rw [registers, List.append_nil]
  | stop failure => cases ran
  | mode next ih => exact ih _ (registers mode) ran
  | agents next ih => exact ih _ (registers _) ran
  | declare d next ih =>
    rcases follow_declare_ok ran with ⟨values, p', declared, rest⟩ | ⟨cause, _, rest⟩
    · obtain ⟨_, _, _, _, _, _, rfl⟩ := declare_ok declared
      have ended := ih _ (registers _) rest
      exact ended
    · exact ih _ (registers _) rest
  | constrain c next ih =>
    rw [follow_constrain] at ran
    rw [ih _ (registers _) ran, (constrain_counts view.rows.length p c).2.2.1]
  | optimize d c next ih =>
    obtain ⟨others, rfl, later⟩ := registers
    rw [follow_optimize] at ran
    rw [ih _ (later _) ran, (optimize_counts mode view.rows.length p d c).2.2.1,
      List.append_assoc]
    rfl
  | note note next ih => exact ih registers ran

end Pass

namespace Schema

variable {first later : Program α} {schema : Schema α} {view : View α} {e : Evaluation α}

theorem extend_registers {program : Program α} {s s' : Schema α} {ds : List Direction}
    (registers : program.Registers ds) (ran : (extend program s).1 = .ok s') :
    s'.directions = s.directions ++ ds := by
  induction program generalizing s ds with
  | done =>
    cases ran
    rw [registers, List.append_nil]
  | stop failure => cases ran
  | mode next ih => exact ih _ (registers .discovery) ran
  | agents next ih => exact ih _ (registers 1) ran
  | declare d next ih =>
    rw [extend] at ran
    split at ran
    · exact ih _ (registers _) ran
    · rename_i v registry _
      have ended := ih (.ok (placeholder v)) (registers _) ran
      exact ended
  | constrain c next ih =>
    have ended := ih _ (registers (.ok ())) ran
    exact ended
  | optimize d c next ih =>
    obtain ⟨others, rfl, later⟩ := registers
    rw [ih _ (later (.ok ())) ran, List.append_assoc]
    rfl
  | note note next ih => exact ih registers ran

theorem discover_registers {ds : List Direction} (registers : first.Registers ds)
    (discovered : (discover first).1 = .ok schema) : schema.directions = ds := by
  obtain ⟨s, extended, checks⟩ := bind_ok.mp discovered
  rw [mapError_ok] at checks
  unfold checked at checks
  split at checks
  · cases checks
  · split at checks
    · cases checks
    · cases checks
      exact extend_registers registers extended

/-- A pass of the program comes to its end and has registered these directions. -/
def Registered (schema : Schema α) (view : View α) (program : Program α) (ds : List Direction) :
    Prop :=
  ∃ q, (Pass.follow .evaluate schema view program (.start view.rows.length)).1 = .ok q ∧
    q.directions = ds

/-- An accepted pass has registered as many objectives as discovery. -/
theorem evaluate_registered (ran : (schema.evaluate later view).1 = .ok e) :
    ∃ ds, Registered schema view later ds ∧ ds.length = schema.directions.length := by
  obtain ⟨q, followed, closed⟩ := Pass.run_ok ran
  exact ⟨q.directions, ⟨q, followed, rfl⟩, (Pass.close_ok closed).2.1⟩

/-- The same pass in other directions. -/
theorem Registered.redirect {ds : List Direction} (registered : Registered schema view later ds)
    (f : Nat → Direction) :
    Registered schema view (later.redirect f 0) ((List.range ds.length).map f) := by
  obtain ⟨q, followed, rfl⟩ := registered
  refine ⟨q.redirect f, ?_, rfl⟩
  rw [Pass.start_redirect, followed]
  rfl

theorem Registered.eq_of_registers {ds ds' : List Direction}
    (registered : Registered schema view later ds) (registers : later.Registers ds') : ds = ds' := by
  obtain ⟨q, followed, rfl⟩ := registered
  exact Pass.follow_registers registers followed

/-- The objectives of an accepted pass. There are as many as in discovery. A program that registers
the same directions on every path has registered the discovered ones; of any other program nothing
is known but the number: it is accepted with the same outcome in whatever directions it registers
its objectives. When none of them was refused, each has a value for every agent, and fitness is
written for the column at each place in the direction that was discovered there. -/
theorem objectives_scored_as_discovered (discovered : (discover first).1 = .ok schema)
    (ran : (schema.evaluate later view).1 = .ok e) :
    (∃ ds, Registered schema view later ds ∧ ds.length = schema.directions.length ∧
      ∀ ds', first.Registers ds' → later.Registers ds' → ds = schema.directions) ∧
    (∀ f : Nat → Direction, schema.evaluate (later.redirect f 0) view = schema.evaluate later view ∧
      Registered schema view (later.redirect f 0)
        ((List.range schema.directions.length).map f)) ∧
    (Pass.refused .evaluate schema view later (.start view.rows.length) = [] →
      e.Spans .evaluate view.rows.length schema.directions.length ∧
      ∀ (s : Scoring α) (l : Layout) (p : Population α) (region : Region),
        s.directions = schema.directions → l.objectives = schema.directions.length →
        p.Sized l view.rows.length → ∃ q, s.assign e p region = .ok q ∧
          ∀ (row : Nat) r, q.rows[row]? = some r →
            s.Scores e row (r.block region).status (r.block region).rewards) := by
  obtain ⟨ds, registered, length⟩ := evaluate_registered ran
  refine ⟨⟨ds, registered, length, fun ds' before after => ?_⟩, fun f => ⟨?_, ?_⟩, fun none => ?_⟩
  · rw [registered.eq_of_registers after, discover_registers before discovered]
  · exact Pass.run_redirect .evaluate schema later view f
  · rw [← length]
    exact registered.redirect f
  · have spans : e.Spans .evaluate view.rows.length schema.directions.length :=
      Pass.run_spans ran none
    refine ⟨spans, fun s l p region directions objectives sized => ?_⟩
    have objective : l.objectives = s.directions.length := by
      rw [directions, objectives]
    obtain ⟨q, assigned, kept⟩ := Scoring.exists_assign sized objective (objectives ▸ spans) region
    refine ⟨q, assigned, fun row r held => ?_⟩
    have below : row < view.rows.length := by
      rw [← kept.length]
      exact (List.getElem?_eq_some_iff.mp held).1
    exact (Scoring.assign_written sized objective assigned).scored row below r held

end Schema

namespace Script

/-- The directions of a script's objectives. -/
def directions (script : Script α) : List Direction :=
  script.filterMap fun line =>
    match line.step with
    | .optimize d _ => some d
    | _ => none

omit [Scalar α] in
theorem proceed_registers {β : Type} {r : Except (Failure α) β} {next : β → Program α}
    {ds : List Direction} (later : ∀ x, (next x).Registers ds) :
    (Program.proceed r next).Registers ds := by
  cases r with
  | error failure => trivial
  | ok x => exact later x

omit [Scalar α] in
theorem require_registers {β : Type} {next : β → Program α} {ds : List Direction}
    (later : ∀ x, (next x).Registers ds) (answer : Except (Error α) β) :
    (Program.require next answer).Registers ds :=
  proceed_registers later

/-- A script without guards registers the same directions on every path. -/
theorem program_registers {script : Script α}
    (always : ∀ line ∈ script, line.isUnconditional = true) (evaluations : Nat)
    (env : Environment α) : (script.program evaluations env).Registers script.directions := by
  induction script generalizing env with
  | nil => rfl
  | cons line script ih =>
    have rest (env : Environment α) := ih (fun l member => always l (List.mem_cons_of_mem _ member)) env
    obtain ⟨modes, passes, step⟩ := line
    rw [program, if_pos (always _ List.mem_cons_self)]
    cases step with
    | declare d => exact require_registers fun values => rest _
    | constrain relation label =>
      exact fun n => proceed_registers fun c => require_registers fun _ => rest env
    | optimize d formula =>
      exact fun n => proceed_registers fun c => ⟨_, rfl, require_registers fun _ => rest env⟩
    | fail text => trivial
    | observe formula => exact fun n => proceed_registers fun c mode => rest env
    | describe name => exact proceed_registers fun values mode => rest env

end Script

namespace Schema

/-- The first amount of the budget is maximized on every path, and each of two agents has one. -/
theorem objectives_scored_as_discovered_budget :
    (discover (budget.model 0)).1 = .ok budgetSchema ∧
    ∃ e, (budgetSchema.evaluate (budget.model 7) ⟨2, [[0.25, 0.5], [0.5, 1.0]]⟩).1 = .ok e ∧
      Registered budgetSchema ⟨2, [[0.25, 0.5], [0.5, 1.0]]⟩ (budget.model 7) [.maximize] ∧
      e.Spans .evaluate 2 1 := by
  obtain ⟨e, ran⟩ := exists_ok
    (x := (budgetSchema.evaluate (budget.model 7) ⟨2, [[0.25, 0.5], [0.5, 1.0]]⟩).1)
    (by decide +kernel)
  have registers (evaluations : Nat) : (budget.model evaluations).Registers budget.directions :=
    Script.program_registers (fun line member => (budget_rowwise line member).1) evaluations []
  obtain ⟨⟨ds, registered, _, discoveredOnes⟩, _, delivered⟩ :=
    objectives_scored_as_discovered budget_discovered ran
  have same : ds = [.maximize] := discoveredOnes budget.directions (registers 0) (registers 7)
  have strict : (budget.model 7).Strict := budget.program_strict 7 []
  exact ⟨budget_discovered, e, ran, same ▸ registered, (delivered (Pass.run_strict strict ran)).1⟩

/-- A number that is minimized in discovery and maximized afterwards. -/
def flipped : Script Float := [
  ⟨none, none, .declare ⟨"x", .continuous, .scalar, ⟨0.0, 10.0⟩⟩⟩,
  ⟨some [.discovery], none, .optimize .minimize (.element "x" 0)⟩,
  ⟨some [.evaluate, .feasibility], none, .optimize .maximize (.element "x" 0)⟩]

/-- What discovery makes of it. -/
def flippedSchema : Schema Float :=
  ⟨⟨[⟨⟨"x", .continuous, .scalar, ⟨0.0, 10.0⟩⟩, 0, 0, 1⟩],
    (∅ : Std.HashMap String Nat).insert "x" 0, 1⟩, [], [.minimize]⟩

theorem flipped_discovered : (discover (flipped.model 0)).1 = .ok flippedSchema := by
  have declared : Registry.declare Schema.empty.registry
      (⟨"x", .continuous, .scalar, ⟨0.0, 10.0⟩⟩ : Declaration Float) =
        .ok (⟨⟨"x", .continuous, .scalar, ⟨0.0, 10.0⟩⟩, 0, 0, 1⟩, flippedSchema.registry) := by
    have fresh : (Registry.empty : Registry Float).positions.contains "x" = false :=
      Std.HashMap.contains_empty
    have bound : Registry.checkedBound (⟨"x", .continuous, .scalar, ⟨0.0, 10.0⟩⟩ :
        Declaration Float) = .ok ⟨0.0, 10.0⟩ := rfl
    rw [Registry.declare, if_neg (by simp [Schema.empty, fresh]), bound]
    rfl
  have extended : extend (flipped.model 0) .empty = (.ok flippedSchema, []) := by
    have issued : flipped.model 0 = .declare ⟨"x", .continuous, .scalar, ⟨0.0, 10.0⟩⟩
        (.require fun values => Script.program 0 (flipped.drop 1) [("x", values)]) := rfl
    rw [issued, extend, declared]
    rfl
  rw [discover, extended]
  rfl

/-- An accepted pass has registered another direction than discovery. -/
theorem flipped_objective_accepted :
    (discover (flipped.model 0)).1 = .ok flippedSchema ∧
    (∃ e, (flippedSchema.evaluate (flipped.model 0) (View.single [0.5])).1 = .ok e) ∧
    ∃ ds, Registered flippedSchema (View.single [0.5]) (flipped.model 0) ds ∧
      ds ≠ flippedSchema.directions := by
  have accepted : ∃ e, (flippedSchema.evaluate (flipped.model 0) (View.single [0.5])).1 = .ok e :=
    exists_ok (by decide +kernel)
  obtain ⟨q, followed, same⟩ := exists_ok_of_any
    (x := (Pass.follow .evaluate flippedSchema (View.single [0.5]) (flipped.model 0) (.start 1)).1)
    (P := fun q => q.directions == [.maximize]) (by decide +kernel)
  refine ⟨flipped_discovered, accepted, q.directions, ⟨q, followed, rfl⟩, ?_⟩
  rw [eq_of_beq same]
  decide

end Schema
end Metaheuristic
