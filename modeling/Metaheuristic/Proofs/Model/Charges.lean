import Metaheuristic.Proofs.Model.Delivery

/-! What a pass charges its agents. Each constraint that is registered on the way with a violation
for every agent adds a charge to the penalty of each of them, and nothing else touches a penalty,
so the penalty of an agent at the end is the sum of its charges. A constraint without enough
violations is refused: it counts, but it charges nobody. -/
namespace Metaheuristic

variable {α : Type} [Scalar α] {mode : Mode} {n i : Nat}

/-- What a constraint adds to the penalty of an agent. -/
def Constraint.chargeOf (i : Nat) (c : Constraint α) : α :=
  Pass.charge ((c.violation.at? i).getD Scalar.notANumber)

namespace Pass

/-- The constraints that a pass registers from some progress on, in order, whether they are
granted or refused. -/
def registered (mode : Mode) (schema : Schema α) (view : View α) :
    Program α → Pass α → List (Constraint α)
  | .done, _ | .stop _, _ => []
  | .mode next, p => registered mode schema view (next mode) p
  | .agents next, p => registered mode schema view (next view.rows.length) p
  | .declare d next, p =>
    match declare schema view p d with
    | .error (.fault _) => []
    | .error (.error cause) => registered mode schema view (next (.error cause)) p
    | .ok (values, p) => registered mode schema view (next (.ok values)) p
  | .constrain c next, p =>
    let (answer, p) := constrain view.rows.length p c
    c :: registered mode schema view (next answer) p
  | .optimize d c next, p =>
    let (answer, p) := optimize mode view.rows.length p d c
    registered mode schema view (next answer) p
  | .note _ next, p => registered mode schema view next p

/-- The constraints with a violation for each of `n` agents. -/
def fitting (n : Nat) (cs : List (Constraint α)) : List (Constraint α) :=
  cs.filter fun c => c.violation.size = n || c.violation.size = 1

omit [Scalar α] in
theorem mem_fitting {cs : List (Constraint α)} {c : Constraint α} :
    c ∈ fitting n cs ↔ c ∈ cs ∧ c.violation.Spans n := by
  simp [fitting, Column.Spans]

omit [Scalar α] in
theorem fitting_eq_self {cs : List (Constraint α)} (spans : ∀ c ∈ cs, c.violation.Spans n) :
    fitting n cs = cs :=
  List.filter_eq_self.mpr fun c member => by simpa [Column.Spans] using spans c member

variable {schema : Schema α} {view : View α} {p q : Pass α}

/-- By induction on the program: the constraints that are counted are those registered, and the
penalties grow by the violations of those that fit. -/
theorem follow_registered {program : Program α}
    (ran : (follow mode schema view program p).1 = .ok q) :
    q.constraints = p.constraints + (registered mode schema view program p).length ∧
      q.penalty = (fitting view.rows.length (registered mode schema view program p)).foldl
        (fun penalty c => addViolation penalty c.violation) p.penalty := by
  induction program generalizing p with
  | done =>
    cases ran
    exact ⟨rfl, rfl⟩
  | stop failure => cases ran
  | mode next ih => exact ih _ ran
  | agents next ih => exact ih _ ran
  | declare d next ih =>
    rcases follow_declare_ok ran with ⟨values, p', declared, rest⟩ | ⟨cause, declared, rest⟩
    · obtain ⟨_, _, _, _, _, _, rfl⟩ := declare_ok declared
      simp only [registered, declared]
      exact ih _ rest
    · simp only [registered, declared]
      exact ih _ rest
  | constrain c next ih =>
    rw [follow_constrain] at ran
    obtain ⟨count, penalty⟩ := ih _ ran
    rw [registered]
    by_cases violation : c.violation.Spans view.rows.length
    · rw [constrain_granted p violation] at count penalty ⊢
      refine ⟨count.trans (Nat.succ_add_eq_add_succ ..), ?_⟩
      rw [fitting, List.filter_cons_of_pos (by simpa [Column.Spans] using violation)]
      exact penalty
    · rw [constrain_refused p violation] at count penalty ⊢
      refine ⟨count.trans (Nat.succ_add_eq_add_succ ..), ?_⟩
      rw [fitting, List.filter_cons_of_neg (by simpa [Column.Spans] using violation)]
      exact penalty
  | optimize d c next ih =>
    rw [follow_optimize] at ran
    obtain ⟨count, penalty⟩ := ih _ ran
    obtain ⟨_, constraints, _, charged⟩ := optimize_counts mode view.rows.length p d c
    rw [constraints] at count
    rw [charged] at penalty
    exact ⟨count, penalty⟩
  | note note next ih => exact ih ran

/-- By induction on the program: one that stops at refusals has a violation for every agent in each
constraint of a pass that goes through. -/
theorem registered_of_strict {program : Program α} (strict : program.Strict)
    (ran : (follow mode schema view program p).1 = .ok q) :
    ∀ c ∈ registered mode schema view program p, c.violation.Spans view.rows.length := by
  induction program generalizing p with
  | done | stop failure => nofun
  | mode next ih => exact ih _ (strict mode) ran
  | agents next ih => exact ih _ (strict _) ran
  | declare d next ih =>
    obtain ⟨stops, goes⟩ := strict
    rcases follow_declare_ok ran with ⟨values, p', declared, rest⟩ | ⟨cause, _, rest⟩
    · simp only [registered, declared]
      exact ih _ (goes values) rest
    · obtain ⟨_, ⟨⟩⟩ := granted_of_strict stops rest
  | constrain c next ih =>
    obtain ⟨stops, goes⟩ := strict
    rw [follow_constrain] at ran
    obtain ⟨_, granted⟩ := granted_of_strict stops ran
    have violation : c.violation.Spans view.rows.length := by
      by_contra short
      rw [constrain_refused p short] at granted
      cases granted
    simp only [registered, granted] at ran ⊢
    exact List.forall_mem_cons.mpr ⟨violation, ih _ goes ran⟩
  | optimize d c next ih =>
    obtain ⟨stops, goes⟩ := strict
    rw [follow_optimize] at ran
    obtain ⟨_, granted⟩ := granted_of_strict stops ran
    simp only [registered, granted] at ran ⊢
    exact ih _ goes ran
  | note note next ih => exact ih strict ran

/-- An agent is charged its own violation, or the one that all of them share. -/
theorem getElem?_addViolation {penalty : List α} {c : Constraint α} {x : α}
    (length : penalty.length = n) (spans : c.violation.Spans n) (place : penalty[i]? = some x) :
    (addViolation penalty c.violation)[i]? = some (x + c.chargeOf i) := by
  have below : i < n := length ▸ (List.getElem?_eq_some_iff.mp place).1
  obtain ⟨v, read⟩ := spans.exists_at? below
  have own := (addViolation_row length spans).2 i below
  rw [place, Column.row_eq_single read, addViolation_single] at own
  cases added : (addViolation penalty c.violation)[i]? with
  | none =>
    rw [added] at own
    cases own
  | some total =>
    rw [added] at own
    rw [Constraint.chargeOf, read]
    exact congrArg some (List.singleton_inj.mp own).symm

/-- The charges of an agent add up from left to right. -/
theorem getElem?_foldl_addViolation {cs : List (Constraint α)} {penalty : List α} {x : α}
    (length : penalty.length = n) (spans : ∀ c ∈ cs, c.violation.Spans n)
    (place : penalty[i]? = some x) :
    (cs.foldl (fun penalty c => addViolation penalty c.violation) penalty)[i]? =
      some ((cs.map (Constraint.chargeOf i)).foldl (· + ·) x) := by
  induction cs generalizing penalty x with
  | nil => exact place
  | cons c cs ih =>
    obtain ⟨own, others⟩ := List.forall_mem_cons.mp spans
    exact ih (addViolation_row length own).1 others (getElem?_addViolation length own place)

/-- A pass that goes through counts as many constraints as the schema, and the penalty of each
agent is the sum of its charges. -/
theorem run_charges {program : Program α} {e : Evaluation α}
    (ran : (run mode schema program view).1 = .ok e) :
    (registered mode schema view program (start view.rows.length)).length =
        schema.constraints.length ∧
      e.penalty.length = view.rows.length ∧
      ∀ i < view.rows.length, e.penalty[i]? =
        some (((fitting view.rows.length
          (registered mode schema view program (start view.rows.length))).map
            (Constraint.chargeOf i)).foldl (· + ·) Scalar.zero) := by
  obtain ⟨length, _, _⟩ := run_delivers ran
  obtain ⟨p, followed, closed⟩ := run_ok ran
  obtain ⟨_, _, constraints, rfl⟩ := close_ok closed
  obtain ⟨count, penalty⟩ := follow_registered followed
  refine ⟨?_, length, fun i below => ?_⟩
  · rw [constraints] at count
    exact (count.trans (Nat.zero_add _)).symm
  · have place : (start view.rows.length : Pass α).penalty[i]? = some Scalar.zero := by
      simp [start, below]
    rw [penalty]
    exact getElem?_foldl_addViolation (List.length_replicate ..)
      (fun c member => (mem_fitting.mp member).2) place

end Pass
end Metaheuristic
