import Metaheuristic.Proofs.Computation
import Metaheuristic.Proofs.Model.Batch
import Metaheuristic.Proofs.Model.Reading

/-! What a pass delivers when it goes through. It has a penalty for each agent and, in an
evaluation, full columns: however the program asks, and whatever it computes its columns from.
There is a column for each objective unless the program has gone on after an objective was
refused, because a refused objective counts as well; a program that stops at the first refusal
delivers all of them. A finished pass has found the genes of every variable. And where every
variable finds its genes, nothing but the program itself can break off a pass with a fault. -/
namespace Metaheuristic

variable {α : Type} {mode : Mode} {n : Nat}

/-- A program that stops at the first request that is refused. -/
def Program.Strict : Program α → Prop
  | .done | .stop _ => True
  | .mode next => ∀ mode, (next mode).Strict
  | .agents next => ∀ n, (next n).Strict
  | .declare _ next =>
    (∀ cause, ∃ failure, next (.error cause) = .stop failure) ∧ ∀ values, (next (.ok values)).Strict
  | .constrain _ next | .optimize _ _ next =>
    (∀ cause, ∃ failure, next (.error cause) = .stop failure) ∧ (next (.ok ())).Strict
  | .note _ next => next.Strict

namespace Script

variable [Scalar α]

omit [Scalar α] in
theorem strict_proceed {β : Type} {r : Except (Failure α) β} {next : β → Program α}
    (strict : ∀ x, (next x).Strict) : (Program.proceed r next).Strict := by
  cases r with
  | error failure => trivial
  | ok x => exact strict x

/-- A step that is refused is the last one of a script. -/
theorem program_strict (script : Script α) (evaluations : Nat) (env : Environment α) :
    (script.program evaluations env).Strict := by
  have stops {β : Type} (next : β → Program α) (cause : Error α) :
      ∃ failure, Program.require next (.error cause) = .stop failure := ⟨_, rfl⟩
  induction script generalizing env with
  | nil => trivial
  | cons line script ih =>
    have issued : (line.step.issue env (program evaluations script)).Strict := by
      cases line.step with
      | declare d => exact ⟨stops _, fun values => ih _⟩
      | constrain relation label => exact fun n => strict_proceed fun c => ⟨stops _, ih env⟩
      | optimize d formula => exact fun n => strict_proceed fun c => ⟨stops _, ih env⟩
      | fail text => trivial
      | observe formula => exact fun n => strict_proceed fun c mode => ih env
      | describe name => exact strict_proceed fun values mode => ih env
    rw [program]
    split
    · exact issued
    · intro mode
      dsimp only
      split
      · exact issued
      · exact ih env

end Script

namespace Pass

variable {schema : Schema α} {view : View α} {p q : Pass α}

/-- A penalty for each of `n` agents, and columns with a value for each of them. -/
structure Filled (n : Nat) (p : Pass α) : Prop where
  penalty : p.penalty.length = n
  columns : ∀ c ∈ p.objectives, c.size = n

theorem optimize_filled (filled : p.Filled n) (d : Direction) (c : Column α) :
    (optimize mode n p d c).2.Filled n := by
  by_cases evaluates : mode = .evaluate
  · subst evaluates
    by_cases column : c.Spans n
    · obtain ⟨full, size, _, granted⟩ := optimize_evaluate p d column
      rw [granted]
      refine ⟨filled.penalty, fun c' member => ?_⟩
      rcases List.mem_append.mp member with earlier | last
      · exact filled.columns c' earlier
      · rw [List.mem_singleton.mp last]
        exact size
    · rw [optimize_refused p d column]
      exact ⟨filled.penalty, filled.columns⟩
  · rw [optimize_other evaluates]
    exact ⟨filled.penalty, filled.columns⟩

/-- An objective is counted, and nothing but its column is added to the pass. -/
theorem optimize_counts (mode : Mode) (n : Nat) (p : Pass α) (d : Direction) (c : Column α) :
    (optimize mode n p d c).2.declared = p.declared ∧
      (optimize mode n p d c).2.constraints = p.constraints ∧
      (optimize mode n p d c).2.directions = p.directions ++ [d] ∧
      (optimize mode n p d c).2.penalty = p.penalty := by
  by_cases evaluates : mode = .evaluate
  · subst evaluates
    by_cases column : c.Spans n
    · obtain ⟨full, _, _, granted⟩ := optimize_evaluate p d column
      rw [granted]
      exact ⟨rfl, rfl, rfl, rfl⟩
    · rw [optimize_refused p d column]
      exact ⟨rfl, rfl, rfl, rfl⟩
  · rw [optimize_other evaluates]
    exact ⟨rfl, rfl, rfl, rfl⟩

variable [Scalar α]

/-- A constraint is counted, and nothing but its violations is added to the pass. -/
theorem constrain_counts (n : Nat) (p : Pass α) (c : Constraint α) :
    (constrain n p c).2.declared = p.declared ∧
      (constrain n p c).2.constraints = p.constraints + 1 ∧
      (constrain n p c).2.directions = p.directions ∧
      (constrain n p c).2.objectives = p.objectives := by
  by_cases violation : c.violation.Spans n
  · rw [constrain_granted p violation]
    exact ⟨rfl, rfl, rfl, rfl⟩
  · rw [constrain_refused p violation]
    exact ⟨rfl, rfl, rfl, rfl⟩

theorem constrain_filled (filled : p.Filled n) (c : Constraint α) :
    (constrain n p c).2.Filled n := by
  refine ⟨?_, (constrain_counts n p c).2.2.2 ▸ filled.columns⟩
  by_cases violation : c.violation.Spans n
  · rw [constrain_granted p violation]
    exact (addViolation_row filled.penalty violation).1
  · rw [constrain_refused p violation]
    exact filled.penalty

/-- A pass that goes on behind a declaration has answered it, or refused it and stayed where it
was. -/
theorem follow_declare_ok {d : Declaration α}
    {next : Except (Error α) (Assignment α) → Program α}
    (ran : (follow mode schema view (.declare d next) p).1 = .ok q) :
    (∃ values p', declare schema view p d = .ok (values, p') ∧
        (follow mode schema view (next (.ok values)) p').1 = .ok q) ∨
      ∃ cause, declare schema view p d = .error (.error cause) ∧
        (follow mode schema view (next (.error cause)) p).1 = .ok q := by
  rw [follow] at ran
  rcases answer : declare schema view p d with (cause | fault) | ⟨values, p'⟩
  · rw [answer] at ran
    exact .inr ⟨cause, rfl, ran⟩
  · rw [answer] at ran
    cases ran
  · rw [answer] at ran
    exact .inl ⟨values, p', rfl, ran⟩

/-- By induction on the program, whatever it is. -/
theorem follow_filled {program : Program α} (filled : p.Filled view.rows.length)
    (ran : (follow mode schema view program p).1 = .ok q) : q.Filled view.rows.length := by
  induction program generalizing p with
  | done =>
    cases ran
    exact filled
  | stop failure => cases ran
  | mode next ih => exact ih _ filled ran
  | agents next ih => exact ih _ filled ran
  | declare d next ih =>
    rcases follow_declare_ok ran with ⟨values, p', declared, rest⟩ | ⟨cause, _, rest⟩
    · obtain ⟨_, _, _, _, _, _, rfl⟩ := declare_ok declared
      refine ih _ ?_ rest
      exact ⟨filled.penalty, filled.columns⟩
    · exact ih _ filled rest
  | constrain c next ih =>
    rw [follow_constrain] at ran
    exact ih _ (constrain_filled filled c) ran
  | optimize d c next ih =>
    rw [follow_optimize] at ran
    exact ih _ (optimize_filled filled d c) ran
  | note note next ih =>
    rw [follow_note] at ran
    exact ih filled ran

/-- The numbers of the objectives that a pass refuses from some progress on. -/
def refused (mode : Mode) (schema : Schema α) (view : View α) : Program α → Pass α → List Nat
  | .done, _ | .stop _, _ => []
  | .mode next, p => refused mode schema view (next mode) p
  | .agents next, p => refused mode schema view (next view.rows.length) p
  | .declare d next, p =>
    match declare schema view p d with
    | .error (.fault _) => []
    | .error (.error cause) => refused mode schema view (next (.error cause)) p
    | .ok (values, p) => refused mode schema view (next (.ok values)) p
  | .constrain c next, p =>
    let (answer, p) := constrain view.rows.length p c
    refused mode schema view (next answer) p
  | .optimize d c next, p =>
    let (answer, p') := optimize mode view.rows.length p d c
    (if answer.isOk then [] else [p.directions.length]) ++
      refused mode schema view (next answer) p'
  | .note _ next, p => refused mode schema view next p

/-- By induction on the program: an evaluation has a column for each direction that it counts
without refusing the objective. -/
theorem follow_columns {program : Program α}
    (ran : (follow .evaluate schema view program p).1 = .ok q) :
    q.objectives.length + p.directions.length + (refused .evaluate schema view program p).length =
      q.directions.length + p.objectives.length := by
  induction program generalizing p with
  | done =>
    cases ran
    exact congrArg (· + 0) (Nat.add_comm ..)
  | stop failure => cases ran
  | mode next ih => exact ih _ ran
  | agents next ih => exact ih _ ran
  | declare d next ih =>
    rcases follow_declare_ok ran with ⟨values, p', declared, rest⟩ | ⟨cause, declared, rest⟩
    · obtain ⟨_, _, _, _, _, _, rfl⟩ := declare_ok declared
      simp only [refused, declared]
      exact ih _ rest
    · simp only [refused, declared]
      exact ih _ rest
  | constrain c next ih =>
    rw [follow_constrain] at ran
    have counted := ih _ ran
    obtain ⟨_, _, directions, objectives⟩ := constrain_counts view.rows.length p c
    rwa [directions, objectives] at counted
  | optimize d c next ih =>
    rw [follow_optimize] at ran
    have counted := ih _ ran
    rw [refused]
    by_cases column : c.Spans view.rows.length
    · obtain ⟨full, _, _, granted⟩ := optimize_evaluate p d column
      rw [granted] at counted ⊢
      simp only [List.length_append, List.length_singleton] at counted
      simp only [Except.isOk, Except.toBool, if_true, List.nil_append]
      omega
    · rw [optimize_refused p d column] at counted ⊢
      simp only [List.length_append, List.length_singleton] at counted
      simp only [Except.isOk, Except.toBool, Bool.false_eq_true, if_false, List.length_append,
        List.length_singleton]
      omega
  | note note next ih =>
    rw [follow_note] at ran
    exact ih ran

/-- Where a program stops at refusals, it goes on only behind what was granted. -/
theorem granted_of_strict {β : Type} {next : Except (Error α) β → Program α}
    (stops : ∀ cause, ∃ failure, next (.error cause) = .stop failure)
    {answer : Except (Error α) β}
    (ran : (follow mode schema view (next answer) p).1 = .ok q) : ∃ x, answer = .ok x := by
  cases answer with
  | ok x => exact ⟨x, rfl⟩
  | error cause =>
    obtain ⟨failure, stop⟩ := stops cause
    rw [stop] at ran
    cases ran

/-- By induction on the program: where it stops at refusals, what goes through was not refused. -/
theorem refused_of_strict {program : Program α} (strict : program.Strict)
    (ran : (follow mode schema view program p).1 = .ok q) :
    refused mode schema view program p = [] := by
  induction program generalizing p with
  | done => rfl
  | stop failure => rfl
  | mode next ih => exact ih _ (strict mode) ran
  | agents next ih => exact ih _ (strict _) ran
  | declare d next ih =>
    obtain ⟨stops, goes⟩ := strict
    rcases follow_declare_ok ran with ⟨values, p', declared, rest⟩ | ⟨cause, _, rest⟩
    · simp only [refused, declared]
      exact ih _ (goes values) rest
    · obtain ⟨_, ⟨⟩⟩ := granted_of_strict stops rest
  | constrain c next ih =>
    obtain ⟨stops, goes⟩ := strict
    rw [follow_constrain] at ran
    obtain ⟨_, granted⟩ := granted_of_strict stops ran
    simp only [refused, granted] at ran ⊢
    exact ih _ goes ran
  | optimize d c next ih =>
    obtain ⟨stops, goes⟩ := strict
    rw [follow_optimize] at ran
    obtain ⟨_, granted⟩ := granted_of_strict stops ran
    simp only [refused, granted] at ran ⊢
    exact ih _ goes ran
  | note note next ih =>
    rw [follow_note] at ran
    exact ih strict ran

omit [Scalar α] in
/-- What a finished pass has counted. -/
theorem close_ok {e : Evaluation α} (ran : p.close schema = .ok e) :
    schema.registry.get? p.declared = none ∧ p.directions.length = schema.objectives ∧
      p.constraints = schema.constraints.length ∧ e = ⟨p.objectives, p.penalty⟩ := by
  unfold close at ran
  split at ran
  · cases ran
  · rename_i finished
    split at ran
    · cases ran
    · split at ran
      · cases ran
      · rename_i objectives constraints
        cases ran
        exact ⟨finished, not_not.mp objectives, not_not.mp constraints, rfl⟩

/-- A pass that goes through is the finished progress of its program. -/
theorem run_ok {program : Program α} {e : Evaluation α}
    (ran : (run mode schema program view).1 = .ok e) :
    ∃ p, (follow mode schema view program (start view.rows.length)).1 = .ok p ∧
      p.close schema = .ok e := by
  rw [run_eq] at ran
  obtain ⟨p, followed, closed⟩ := bind_ok.mp ran
  exact ⟨p, followed, mapError_ok.mp closed⟩

/-- A pass that goes through delivers a penalty for each agent and full columns, one for each
objective that was not refused. -/
theorem run_delivers {program : Program α} {e : Evaluation α}
    (ran : (run mode schema program view).1 = .ok e) :
    e.penalty.length = view.rows.length ∧ (∀ c ∈ e.objectives, c.size = view.rows.length) ∧
      (mode = .evaluate → e.objectives.length +
        (refused .evaluate schema view program (start view.rows.length)).length =
          schema.objectives) := by
  obtain ⟨p, followed, closed⟩ := run_ok ran
  obtain ⟨_, directions, _, rfl⟩ := close_ok closed
  have blank : (start view.rows.length : Pass α).Filled view.rows.length :=
    ⟨List.length_replicate .., nofun⟩
  obtain ⟨penalty, columns⟩ := follow_filled blank followed
  refine ⟨penalty, columns, ?_⟩
  rintro rfl
  have counted := follow_columns followed
  rw [directions] at counted
  exact counted

/-- Where no objective was refused, there is a column for each of them. -/
theorem run_spans {program : Program α} {e : Evaluation α}
    (ran : (run .evaluate schema program view).1 = .ok e)
    (none : refused .evaluate schema view program (start view.rows.length) = []) :
    e.Spans .evaluate view.rows.length schema.objectives := by
  obtain ⟨penalty, columns, counted⟩ := run_delivers ran
  refine ⟨penalty, columns, fun _ => ?_⟩
  have counted := counted rfl
  rwa [none] at counted

/-- A program that stops at refusals has nothing refused in a pass that goes through. -/
theorem run_strict {program : Program α} (strict : program.Strict) {e : Evaluation α}
    (ran : (run mode schema program view).1 = .ok e) :
    refused mode schema view program (start view.rows.length) = [] := by
  obtain ⟨p, followed, _⟩ := run_ok ran
  exact refused_of_strict strict followed

/-- Every variable that was declared so far found its genes in every row. -/
private def Cuts (schema : Schema α) (view : View α) (p : Pass α) : Prop :=
  ∀ (k : Nat) v, k < p.declared → schema.registry.get? k = some v → ∀ row ∈ view.rows,
    ∃ genes, v.stretchOf row = .ok genes

private theorem declare_cuts (cuts : Cuts schema view p) {d : Declaration α}
    {values : Assignment α} (ran : declare schema view p d = .ok (values, q)) :
    Cuts schema view q := by
  obtain ⟨w, rows, known, _, decoded, _, rfl⟩ := declare_ok ran
  intro k v below held row member
  rcases Nat.lt_succ_iff_lt_or_eq.mp below with earlier | rfl
  · exact cuts k v earlier held row member
  · rw [known] at held
    cases held
    obtain ⟨i, place⟩ := List.mem_iff_getElem?.mp member
    obtain ⟨_, _, read⟩ := (mapM_ok decoded).2 i row place
    obtain ⟨genes, found, _⟩ := map_ok.mp read
    exact ⟨genes, found⟩

/-- By induction on the program: only a declaration moves on to the next variable. -/
private theorem follow_cuts {program : Program α} (cuts : Cuts schema view p)
    (ran : (follow mode schema view program p).1 = .ok q) : Cuts schema view q := by
  induction program generalizing p with
  | done =>
    cases ran
    exact cuts
  | stop failure => cases ran
  | mode next ih => exact ih _ cuts ran
  | agents next ih => exact ih _ cuts ran
  | declare d next ih =>
    rcases follow_declare_ok ran with ⟨values, p', declared, rest⟩ | ⟨cause, _, rest⟩
    · exact ih _ (declare_cuts cuts declared) rest
    · exact ih _ cuts rest
  | constrain c next ih =>
    rw [follow_constrain] at ran
    refine ih _ (fun k v below => cuts k v ?_) ran
    rwa [(constrain_counts view.rows.length p c).1] at below
  | optimize d c next ih =>
    rw [follow_optimize] at ran
    refine ih _ (fun k v below => cuts k v ?_) ran
    rwa [(optimize_counts mode view.rows.length p d c).1] at below
  | note note next ih =>
    rw [follow_note] at ran
    exact ih cuts ran

/-- A pass that goes through has found the genes of every variable in every row. -/
theorem run_cuts {program : Program α} {e : Evaluation α}
    (ran : (run mode schema program view).1 = .ok e) :
    ∀ v ∈ schema.registry.declared, ∀ row ∈ view.rows, ∃ genes, v.stretchOf row = .ok genes := by
  obtain ⟨p, followed, closed⟩ := run_ok ran
  obtain ⟨finished, _, _, _⟩ := close_ok closed
  have nothing : Cuts schema view (start view.rows.length) :=
    fun _ _ below => absurd below (Nat.not_lt_zero _)
  have cuts := follow_cuts nothing followed
  intro v member
  obtain ⟨k, place⟩ := List.mem_iff_getElem?.mp member
  have reached : schema.registry.declared.length ≤ p.declared :=
    List.getElem?_eq_none_iff.mp finished
  have below : k < schema.registry.declared.length := (List.getElem?_eq_some_iff.mp place).1
  exact cuts k v (Nat.lt_of_lt_of_le below reached) place

/-- The program stops with a fault of its own, after requests that the pass has answered or
refused. -/
inductive Halts (mode : Mode) (schema : Schema α) (view : View α) :
    Program α → Pass α → Fault → Prop
  | stop (p : Pass α) (cause : Fault) : Halts mode schema view (.stop (.fault cause)) p cause
  | mode {next : Mode → Program α} {p : Pass α} {cause : Fault}
      (rest : Halts mode schema view (next mode) p cause) :
      Halts mode schema view (.mode next) p cause
  | agents {next : Nat → Program α} {p : Pass α} {cause : Fault}
      (rest : Halts mode schema view (next view.rows.length) p cause) :
      Halts mode schema view (.agents next) p cause
  | declare {d : Declaration α} {next : Except (Error α) (Assignment α) → Program α}
      {values : Assignment α} {p q : Pass α} {cause : Fault}
      (declared : declare schema view p d = .ok (values, q))
      (rest : Halts mode schema view (next (.ok values)) q cause) :
      Halts mode schema view (.declare d next) p cause
  | refuse {d : Declaration α} {next : Except (Error α) (Assignment α) → Program α}
      {reason : Error α} {p : Pass α} {cause : Fault}
      (refused : declare schema view p d = .error (.error reason))
      (rest : Halts mode schema view (next (.error reason)) p cause) :
      Halts mode schema view (.declare d next) p cause
  | constrain {c : Constraint α} {next : Except (Error α) Unit → Program α} {p : Pass α}
      {cause : Fault}
      (rest : Halts mode schema view (next (constrain view.rows.length p c).1)
        (constrain view.rows.length p c).2 cause) :
      Halts mode schema view (.constrain c next) p cause
  | optimize {d : Direction} {c : Column α} {next : Except (Error α) Unit → Program α}
      {p : Pass α} {cause : Fault}
      (rest : Halts mode schema view (next (optimize mode view.rows.length p d c).1)
        (optimize mode view.rows.length p d c).2 cause) :
      Halts mode schema view (.optimize d c next) p cause
  | note {note : Note α} {next : Program α} {p : Pass α} {cause : Fault}
      (rest : Halts mode schema view next p cause) :
      Halts mode schema view (.note note next) p cause

/-- By induction on how the program comes to its fault. -/
theorem follow_of_halts {program : Program α} {cause : Fault}
    (halts : Halts mode schema view program p cause) :
    (follow mode schema view program p).1 = .error (.fault cause) := by
  induction halts with
  | stop p cause => rfl
  | mode rest ih => exact ih
  | agents rest ih => exact ih
  | declare declared rest ih =>
    rw [follow, declared]
    exact ih
  | refuse refused rest ih =>
    rw [follow, refused]
    exact ih
  | constrain rest ih =>
    rw [follow_constrain]
    exact ih
  | optimize rest ih =>
    rw [follow_optimize]
    exact ih
  | note rest ih =>
    rw [follow_note]
    exact ih

theorem run_of_halts {program : Program α} {cause : Fault}
    (halts : Halts mode schema view program (start view.rows.length) cause) :
    (run mode schema program view).1 = .error (.fault cause) := by
  rw [run_eq, follow_of_halts halts]
  rfl

section Faults

variable {cause : Fault} (cut : ∀ v ∈ schema.registry.declared, ∀ row ∈ view.rows,
  ∃ genes, v.stretchOf row = .ok genes)

include cut

/-- Reading genes that are there does not fault. -/
private theorem declare_not_fault {d : Declaration α} :
    declare schema view p d ≠ .error (.fault cause) := by
  unfold declare
  split
  · nofun
  · rename_i v known
    split
    · obtain ⟨rows, read, _⟩ := exists_mapM (Q := fun _ => True)
        (f := fun row => (v.stretchOf row).map v.decode) fun row member => by
          obtain ⟨genes, found⟩ := cut v (List.mem_of_getElem? known) row member
          exact ⟨v.decode genes, map_ok.mpr ⟨genes, found, rfl⟩, trivial⟩
      rw [read]
      nofun
    · nofun

/-- By induction on the program: a request that is refused is answered with the reason. -/
theorem halts_of_follow {program : Program α}
    (ran : (follow mode schema view program p).1 = .error (.fault cause)) :
    Halts mode schema view program p cause := by
  induction program generalizing p with
  | done => cases ran
  | stop failure =>
    cases ran
    exact .stop p cause
  | mode next ih => exact .mode (ih _ ran)
  | agents next ih => exact .agents (ih _ ran)
  | declare d next ih =>
    rw [follow] at ran
    rcases answer : declare schema view p d with (reason | fault) | ⟨values, p'⟩
    · rw [answer] at ran
      exact .refuse answer (ih _ ran)
    · exact absurd answer (declare_not_fault cut)
    · rw [answer] at ran
      exact .declare answer (ih _ ran)
  | constrain c next ih =>
    rw [follow_constrain] at ran
    exact .constrain (ih _ ran)
  | optimize d c next ih =>
    rw [follow_optimize] at ran
    exact .optimize (ih _ ran)
  | note note next ih =>
    rw [follow_note] at ran
    exact .note (ih ran)

theorem halts_of_run {program : Program α}
    (ran : (run mode schema program view).1 = .error (.fault cause)) :
    Halts mode schema view program (start view.rows.length) cause := by
  rw [run_eq] at ran
  rcases bind_error.mp ran with followed | ⟨p, _, closed⟩
  · exact halts_of_follow cut followed
  · obtain ⟨_, _, ⟨⟩⟩ := mapError_error.mp closed

end Faults

end Pass
end Metaheuristic
