import Metaheuristic.Proofs.Model.Charges
import Metaheuristic.Proofs.Number.Amount

/-! Feasibility is satisfaction. A constraint that compares two columns demands a relation between
the values that each agent reads of them, and its violation is the distance by which the relation
is missed. Over exact numbers an agent is charged nothing exactly when the relation holds, and
charges are amounts, so none of them is hidden by another: an agent is feasible exactly when
everything demanded of it holds. Values that are undefined satisfy nothing. -/
namespace Metaheuristic

/-- A relation that a model demands between two columns. -/
inductive Demand (α : Type) where
  | atMost (l r : Column α)
  | atLeast (l r : Column α)
  | equal (l r : Column α)
  | equalWithin (tolerance : α) (l r : Column α)

namespace Demand

section Reading

variable {α : Type}

def left : Demand α → Column α
  | atMost l _ | atLeast l _ | equal l _ | equalWithin _ l _ => l

def right : Demand α → Column α
  | atMost _ r | atLeast _ r | equal _ r | equalWithin _ _ r => r

variable [Scalar α]

/-- How far apart the sides may be at most when they should be equal. -/
def tolerance : Demand α → α
  | equalWithin tolerance _ _ => tolerance
  | atMost .. | atLeast .. | equal .. => Scalar.zero

/-- The constraint that is registered for it. -/
def constraint : Demand α → Except Fault (Constraint α)
  | atMost l r => Constraint.atMost l r
  | atLeast l r => Constraint.atLeast l r
  | equal l r => Constraint.equal l r
  | equalWithin tolerance l r => Constraint.equalWithin tolerance l r

/-- The constraint comes from the demand; its name does not matter. -/
def Makes (d : Demand α) (c : Constraint α) : Prop :=
  d.constraint.map Constraint.violation = .ok c.violation

instance [DecidableEq α] (d : Demand α) (c : Constraint α) : Decidable (d.Makes c) :=
  inferInstanceAs (Decidable (d.constraint.map Constraint.violation = .ok c.violation))

/-- Whether two values are related as demanded. -/
def relates : Demand α → (x y : α) → Bool
  | atMost .., x, y => Scalar.le x y
  | atLeast .., x, y => Scalar.le y x
  | equal .., x, y => x == y
  | equalWithin tolerance _ _, x, y => Scalar.le (Scalar.abs (x - y)) tolerance

/-- Whether the demand holds for the values that an agent reads. -/
def holds (i : Nat) (d : Demand α) : Bool :=
  match d.left.at? i, d.right.at? i with
  | some x, some y => d.relates x y
  | _, _ => false

/-- What becomes of an agent of which all that is demanded. -/
def verdict (i : Nat) (demands : List (Demand α)) : Feasibility :=
  if demands.isEmpty then .unconstrained
  else if demands.all (holds i) then .feasible
  else .infeasible

/-- The tolerance is finite, and the agent does not read the same infinity on both sides. -/
structure Regular (i : Nat) (d : Demand α) : Prop where
  tolerance : Scalar.isFinite d.tolerance = true
  distinct : ∀ x ∈ d.left.at? i, ∀ y ∈ d.right.at? i, (x == y) = true → Scalar.isFinite x = true

instance (i : Nat) (d : Demand α) : Decidable (d.Regular i) :=
  decidable_of_iff (Scalar.isFinite d.tolerance = true ∧ ∀ x ∈ d.left.at? i, ∀ y ∈ d.right.at? i,
    (x == y) = true → Scalar.isFinite x = true) ⟨fun ⟨t, d⟩ => ⟨t, d⟩, fun ⟨t, d⟩ => ⟨t, d⟩⟩

/-- The agent reads an undefined value on one of the sides. -/
def Undefined (i : Nat) (d : Demand α) : Prop :=
  ∃ x, (x ∈ d.left.at? i ∨ x ∈ d.right.at? i) ∧ Scalar.isNaN x = true

/-- The violation of two values. -/
def missedBy : Demand α → (x y : α) → α
  | atMost .., x, y => Constraint.excess (x - y)
  | atLeast .., x, y => Constraint.excess (y - x)
  | equal .., x, y => Scalar.abs (x - y)
  | equalWithin tolerance _ _, x, y => Constraint.excess (Scalar.abs (x - y) - tolerance)

theorem constraint_eq (d : Demand α) :
    d.constraint = (Column.zipWith d.missedBy d.left d.right).map .ofViolation := by
  cases d <;> rfl

variable {d : Demand α} {c : Constraint α} {n i : Nat}

/-- Each agent is charged for the distance between what it reads on the two sides. -/
theorem Makes.charge (makes : d.Makes c) (spans : c.violation.Spans n) (below : i < n) :
    ∃ x y, d.left.at? i = some x ∧ d.right.at? i = some y ∧
      c.chargeOf i = Pass.charge (d.missedBy x y) := by
  rw [Makes, constraint_eq, map_ok] at makes
  obtain ⟨c', made, same⟩ := makes
  obtain ⟨violation, combined, rfl⟩ := map_ok.mp made
  obtain rfl : violation = c.violation := same
  obtain ⟨x, y, readA, readB, read⟩ := Column.at?_zipWith combined spans below
  refine ⟨x, y, readA, readB, ?_⟩
  rw [Constraint.chargeOf, read]
  rfl

end Reading

variable {K : Type} [Field K] [LinearOrder K] [FloorRing K] [Elementary K] {d : Demand (Exact K)}
  {x y : Exact K}

/-- A violation as it is charged, where an undefined one counts as infinite. -/
theorem charge_eq (v : Exact K) :
    Pass.charge v = match v with
      | .finite a => .finite (max a 0)
      | .negInfinity => .finite 0
      | .infinity | .undefined => .infinity := by
  cases v with
  | finite a => simp [Pass.charge, Exact.max_zero]
  | negInfinity => simp [Pass.charge, Scalar.max, Exact.zero_eq, Exact.lt_eq, Exact.below]
  | infinity => simp [Pass.charge, Scalar.max, Exact.zero_eq, Exact.lt_eq, Exact.below]
  | undefined => rfl

theorem charge_amount (v : Exact K) : (Pass.charge v).Amount := by
  rw [charge_eq]
  cases v <;> simp

/-- Nothing is charged for a violation that is defined and not positive. -/
theorem charge_beq_zero (v : Exact K) :
    (Pass.charge v == Scalar.zero) = Scalar.le v Scalar.zero := by
  rw [charge_eq, Bool.eq_iff_iff, Exact.le_eq, Exact.zero_eq]
  cases v with
  | finite a => simp [Exact.beq_eq, Exact.same, Exact.below, le_iff_lt_or_eq]
  | infinity | negInfinity | undefined => simp [Exact.beq_eq, Exact.same, Exact.below]

theorem missedBy_undefined (undefined : Scalar.isNaN x = true ∨ Scalar.isNaN y = true) :
    d.missedBy x y = .undefined := by
  rw [Exact.isNaN_iff, Exact.isNaN_iff] at undefined
  rcases undefined with rfl | rfl
  · cases d <;> cases y <;> rfl
  · cases d <;> cases x <;> rfl

/-- An undefined value on either side costs infinitely much. -/
theorem Undefined.charge {c : Constraint (Exact K)} {n i : Nat} (undefined : d.Undefined i)
    (makes : d.Makes c) (spans : c.violation.Spans n) (below : i < n) :
    c.chargeOf i = .infinity := by
  obtain ⟨x, y, readA, readB, charge⟩ := makes.charge spans below
  obtain ⟨z, read, nan⟩ := undefined
  rw [readA, readB, Option.mem_some, Option.mem_some] at read
  rw [charge, missedBy_undefined]
  · rfl
  · rcases read with rfl | rfl
    · exact .inl nan
    · exact .inr nan

theorem excess_le_zero (v : Exact K) :
    Scalar.le (Constraint.excess v) Scalar.zero = Scalar.le v Scalar.zero := by
  cases v with
  | finite a =>
    rw [Constraint.excess, Exact.isNaN_finite, if_neg Bool.false_ne_true, Exact.max_zero,
      Bool.eq_iff_iff, Exact.zero_eq, Exact.le_finite, Exact.le_finite, max_le_iff]
    simp
  | negInfinity | infinity | undefined =>
    simp [Constraint.excess, Scalar.max, Exact.le_eq, Exact.lt_eq, Exact.zero_eq, Exact.below,
      Exact.same]

variable [IsStrictOrderedRing K]

/-- A relation holds exactly when it is missed by nothing. Undefined values miss every relation. -/
theorem missedBy_le_zero (tolerance : Scalar.isFinite d.tolerance = true)
    (distinct : (x == y) = true → Scalar.isFinite x = true) :
    Scalar.le (d.missedBy x y) Scalar.zero = d.relates x y := by
  cases d with
  | atMost l r => exact (excess_le_zero _).trans (Exact.sub_le_zero distinct)
  | atLeast l r =>
    refine (excess_le_zero _).trans (Exact.sub_le_zero fun same => ?_)
    rw [Exact.isFinite_congr same]
    exact distinct (Scalar.eq_symm same)
  | equal l r => exact Exact.abs_sub_le_zero distinct
  | equalWithin t l r =>
    refine (excess_le_zero _).trans (Exact.sub_le_zero fun same => ?_)
    rw [Exact.isFinite_congr same]
    exact tolerance

theorem Makes.charge_beq_zero {c : Constraint (Exact K)} {n i : Nat} (makes : d.Makes c)
    (spans : c.violation.Spans n) (below : i < n) (regular : d.Regular i) :
    (c.chargeOf i == Scalar.zero) = d.holds i := by
  obtain ⟨x, y, readA, readB, charge⟩ := makes.charge spans below
  rw [charge, Demand.charge_beq_zero, holds, readA, readB]
  exact missedBy_le_zero regular.tolerance (regular.distinct x readA y readB)

/-- Nothing is charged for constraints whose demands hold, and only for those. -/
theorem charges_beq_zero {demands : List (Demand (Exact K))} {cs : List (Constraint (Exact K))}
    {n i : Nat} (made : List.Forall₂ Makes demands cs) (spans : ∀ c ∈ cs, c.violation.Spans n)
    (below : i < n) (regular : ∀ d ∈ demands, d.Regular i) :
    (∀ charge ∈ cs.map (Constraint.chargeOf i), (charge == Scalar.zero) = true) ↔
      demands.all (holds i) = true := by
  induction made with
  | nil => simp
  | cons makes _ ih =>
    obtain ⟨own, others⟩ := List.forall_mem_cons.mp spans
    obtain ⟨first, rest⟩ := List.forall_mem_cons.mp regular
    rw [List.map_cons, List.forall_mem_cons, ih others rest, makes.charge_beq_zero own below first,
      List.all_cons, Bool.and_eq_true]

end Demand

namespace Pass

variable {K : Type} [Field K] [LinearOrder K] [FloorRing K] [Elementary K] [IsStrictOrderedRing K]
  {mode : Mode} {schema : Schema (Exact K)} {view : View (Exact K)}

/-- Over exact numbers, whatever a model computes its constraints from: when a pass goes through,
no penalty is undefined or negative. When the constraints are demands whose tolerances are finite,
with violations for all agents, an agent that reads no equal infinities is classified by what holds
of its values: as feasible exactly when there are demands and all of them hold. An agent that reads
an undefined value on one side of a demand is infeasible. All violations are there unless the
program goes on behind a constraint that was refused. -/
theorem classify_eq_verdict {program : Program (Exact K)} {e : Evaluation (Exact K)}
    (ran : (run mode schema program view).1 = .ok e) :
    (mode = .feasibility → (schema.classify program view).1 =
      .ok (e.penalty.map (Feasibility.classify schema.constraints.length))) ∧
    e.penalty.length = view.rows.length ∧
    (program.Strict → ∀ c ∈ registered mode schema view program (start view.rows.length),
      c.violation.Spans view.rows.length) ∧
    ∀ (i : Nat) penalty, e.penalty[i]? = some penalty →
      Scalar.isNaN penalty = false ∧ Scalar.lt penalty Scalar.zero = false ∧
      (∀ demands, List.Forall₂ Demand.Makes demands
          (registered mode schema view program (start view.rows.length)) →
        (∀ c ∈ registered mode schema view program (start view.rows.length),
          c.violation.Spans view.rows.length) →
        (∀ d ∈ demands, d.Regular i) →
        Feasibility.classify schema.constraints.length penalty = Demand.verdict i demands) ∧
      ∀ c ∈ registered mode schema view program (start view.rows.length),
        c.violation.Spans view.rows.length →
        ∀ d : Demand (Exact K), d.Makes c → d.Undefined i →
          Feasibility.classify schema.constraints.length penalty = .infeasible := by
  obtain ⟨count, length, sums⟩ := run_charges ran
  obtain ⟨p, followed, _⟩ := run_ok ran
  refine ⟨?_, length, fun strict => registered_of_strict strict followed, fun i penalty place => ?_⟩
  · rintro rfl
    have reported : (schema.classify program view).1 = (run .feasibility schema program view).1.map
        fun e => e.penalty.map (Feasibility.classify schema.constraints.length) := rfl
    rw [reported, ran]
    rfl
  have below : i < view.rows.length := length ▸ (List.getElem?_eq_some_iff.mp place).1
  generalize registered mode schema view program (start view.rows.length) = cs at *
  rw [sums i below, Option.some_inj] at place
  have start : (Scalar.zero : Exact K).Amount := by simp [Exact.zero_eq]
  have amounts : ∀ charge ∈ (fitting view.rows.length cs).map (Constraint.chargeOf i),
      Exact.Amount charge := by
    intro charge member
    obtain ⟨c, _, rfl⟩ := List.mem_map.mp member
    exact Demand.charge_amount _
  have total : penalty.Amount := place ▸ start.foldl_add amounts
  have free : (penalty == Scalar.zero) = true ↔
      ∀ charge ∈ (fitting view.rows.length cs).map (Constraint.chargeOf i),
        (charge == Scalar.zero) = true := by
    rw [← place, start.foldl_add_eq_zero amounts]
    simp [Exact.zero_eq, Exact.beq_eq, Exact.same]
  refine ⟨total.1, total.2, ?_, ?_⟩
  · intro demands made spans regular
    rw [fitting_eq_self spans, Demand.charges_beq_zero made spans below regular] at free
    simp only [Feasibility.classify, Demand.verdict, ← count, ← made.length_eq,
      List.length_eq_zero_iff, List.isEmpty_iff, free]
  · intro c member spans d makes undefined
    have charged := undefined.charge makes spans below
    have some : schema.constraints.length ≠ 0 := by
      rw [← count]
      exact (List.length_pos_of_mem member).ne'
    have paid : (penalty == Scalar.zero) = false := by
      rw [Bool.eq_false_iff, ne_eq, free]
      intro none
      have nothing := none _ (List.mem_map_of_mem (mem_fitting.mpr ⟨member, spans⟩))
      rw [charged] at nothing
      contradiction
    rw [Feasibility.classify, if_neg some, paid, if_neg Bool.false_ne_true]

/-- An amount of at most three that should be about two and a half. -/
def dose : Script (Exact ℚ) := [
  ⟨none, none, .declare ⟨"x", .continuous, .scalar, .between 0 10⟩⟩,
  ⟨none, none, .constrain (.atMost (.element "x" 0) (.scalar (.finite 3))) none⟩,
  ⟨none, none, .constrain (.equalWithin (.finite 1) (.element "x" 0) (.scalar (.finite (5 / 2))))
    (some "about")⟩,
  ⟨none, none, .optimize .minimize (.element "x" 0)⟩]

/-- What the script declares. -/
def doseSchema : Schema (Exact ℚ) :=
  ⟨⟨[⟨⟨"x", .continuous, .scalar, .between 0 10⟩, 0, 0, 1⟩],
    (∅ : Std.HashMap String Nat).insert "x" 0, 1⟩, ["c0", "about"], [.minimize]⟩

/-- The first agent takes two and a half, the second one five, and the third one has an undefined
gene. -/
def doses : View (Exact ℚ) := ⟨1, [[.finite (1 / 4)], [.finite (1 / 2)], [.undefined]]⟩

/-- What is demanded of the three agents. -/
def demanded : List (Demand (Exact ℚ)) := [
  .atMost ⟨[.finite (5 / 2), .finite 5, .undefined]⟩ (.single (.finite 3)),
  .equalWithin (.finite 1) ⟨[.finite (5 / 2), .finite 5, .undefined]⟩ (.single (.finite (5 / 2)))]

/-- The first agent takes what it should, the second one too much, and what the third one takes
cannot be told. -/
theorem classify_eq_verdict_dose :
    ∃ e, (run .feasibility doseSchema (dose.model 0) doses).1 = .ok e ∧
      (doseSchema.classify (dose.model 0) doses).1 =
        .ok (e.penalty.map (Feasibility.classify 2)) ∧
      ∃ x y z, e.penalty = [x, y, z] ∧
        Feasibility.classify 2 x = .feasible ∧ Feasibility.classify 2 y = .infeasible ∧
        Feasibility.classify 2 z = .infeasible := by
  have ran : ∃ e, (run .feasibility doseSchema (dose.model 0) doses).1 = .ok e ∧
      e.penalty = [.finite 0, .finite (7 / 2), .infinity] :=
    exists_ok_of_any (by decide +kernel)
  obtain ⟨e, ran, penalties⟩ := ran
  obtain ⟨reported, _, spans, each⟩ := classify_eq_verdict ran
  have strict : (dose.model 0).Strict := dose.program_strict 0 []
  have made : List.Forall₂ Demand.Makes demanded
      (registered .feasibility doseSchema doses (dose.model 0) (start doses.rows.length)) := by
    decide +kernel
  obtain ⟨_, _, first, _⟩ := each 0 (.finite 0) (by rw [penalties]; rfl)
  obtain ⟨_, _, second, _⟩ := each 1 (.finite (7 / 2)) (by rw [penalties]; rfl)
  obtain ⟨_, _, _, third⟩ := each 2 .infinity (by rw [penalties]; rfl)
  refine ⟨e, ran, reported rfl, .finite 0, .finite (7 / 2), .infinity, penalties, ?_, ?_, ?_⟩
  · exact (first demanded made (spans strict) (by decide +kernel)).trans (by decide +kernel)
  · exact (second demanded made (spans strict) (by decide +kernel)).trans (by decide +kernel)
  · obtain ⟨c, _, makes, _, same⟩ := List.forall₂_cons_left_iff.mp made
    have undefined : Demand.Undefined 2 (demanded.get ⟨0, by decide⟩) :=
      ⟨.undefined, .inl rfl, rfl⟩
    have member : c ∈ registered .feasibility doseSchema doses (dose.model 0)
        (start doses.rows.length) := same ▸ List.mem_cons_self
    exact third c member (spans strict c member) _ makes undefined

end Pass
end Metaheuristic
