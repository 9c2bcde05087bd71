import Metaheuristic.Proofs.Search.Reached

/-! The places of a repeat. A repeat comes to one state only at each of its places, and what every
step keeps holds at all places, or at all from some place on. -/
namespace Metaheuristic

variable {ρ α : Type} [Scalar α] [RandomSource ρ α]

/-- The place of a phase in its cycle. -/
def Phase.ordinal : Phase → Nat
  | ready => 0
  | evaluated => 1
  | settled => 2

namespace Phase

@[simp]
theorem ordinal_ready : ready.ordinal = 0 := rfl

@[simp]
theorem ordinal_evaluated : evaluated.ordinal = 1 := rfl

@[simp]
theorem ordinal_settled : settled.ordinal = 2 := rfl

theorem ordinal_le (phase : Phase) : phase.ordinal ≤ 2 := by
  cases phase <;> decide

theorem ordinal_injective : Function.Injective ordinal := by
  intro phase phase' same
  cases phase <;> cases phase' <;> first | rfl | cases same

end Phase

namespace Repeat

variable {r : Repeat ρ α} {i j k l : Nat} {phase phase' : Phase} {run run' : Run ρ α}

/-- Steps have one outcome, so a place in a repeat belongs to one state. -/
theorem Reached.unique (reached : r.Reached i k phase run) (reached' : r.Reached i k phase run') :
    run = run' := by
  induction reached generalizing run' with
  | start started =>
    cases reached' with
    | start started' =>
      rw [started] at started'
      exact Except.ok.inj started'
  | evaluate before ran ih =>
    cases reached' with
    | evaluate before' ran' =>
      rw [ih before', ran'] at ran
      exact (congrArg Prod.snd ran).symm
  | settle before ran ih =>
    cases reached' with
    | settle before' ran' =>
      rw [ih before', ran'] at ran
      exact (congrArg Prod.snd ran).symm
  | within before more ran ih =>
    cases reached' with
    | within before' more' ran' =>
      rw [ih before', ran'] at ran
      exact (congrArg Prod.snd ran).symm
  | after before last more ran ih =>
    cases reached' with
    | after before' last' more' ran' =>
      have same := Nat.succ.inj (last.trans last'.symm)
      subst same
      rw [ih before', ran'] at ran
      exact (congrArg Prod.snd ran).symm

theorem Reached.cycle_lt (positive : 0 < r.config.algorithm.cycles)
    (reached : r.Reached i k phase run) : k < r.config.algorithm.cycles := by
  induction reached with
  | start started => exact positive
  | evaluate before ran inside => exact inside
  | settle before ran inside => exact inside
  | within before more ran inside => exact more
  | after before last more ran inside => exact positive

/-- A place in a repeat that comes before another one. -/
def Before (i k : Nat) (phase : Phase) (j l : Nat) (phase' : Phase) : Prop :=
  i < j ∨ i = j ∧ (k < l ∨ k = l ∧ phase.ordinal < phase'.ordinal)

/-- A place in a repeat that is another one or comes before it. -/
def Since (i k : Nat) (phase : Phase) (j l : Nat) (phase' : Phase) : Prop :=
  (i = j ∧ k = l ∧ phase = phase') ∨ Before i k phase j l phase'

theorem since_iff : Since i k phase j l phase' ↔
    i < j ∨ i = j ∧ (k < l ∨ k = l ∧ phase.ordinal ≤ phase'.ordinal) := by
  rw [Since, Before, ← Phase.ordinal_injective.eq_iff]
  omega

/-- What the steps of a repeat keep. -/
structure Keeps (r : Repeat ρ α) (P : Phase → Run ρ α → Prop) : Prop where
  evaluate : ∀ {i k : Nat} {run run' : Run ρ α}, r.Reached i k .ready run → P .ready run →
    (Run.evaluate r.problem r.round (r.progress i)).run.run run = (.ok (), run') →
      P .evaluated run'
  settle : ∀ {i k : Nat} {run run' : Run ρ α}, r.Reached i k .evaluated run → P .evaluated run →
    (Run.settle r.problem (r.progress i)).run.run run = (.ok (), run') → P .settled run'
  vary : ∀ {i k : Nat} {run run' : Run ρ α}, r.Reached i k .settled run → P .settled run →
    (Run.vary (r.progress i)).run.run run = (.ok (), run') → P .ready run'

namespace Keeps

variable {P : Phase → Run ρ α → Prop} (keeps : r.Keeps P)

include keeps

/-- By induction on the steps of the repeat. -/
theorem reached (start : ∀ run, Run.start r.problem r.config r.passes r.random = .ok run →
    P .ready run) (reached : r.Reached i k phase run) : P phase run := by
  induction reached with
  | start started => exact start _ started
  | evaluate before ran holds => exact keeps.evaluate before holds ran
  | settle before ran holds => exact keeps.settle before holds ran
  | within before more ran holds => exact keeps.vary before holds ran
  | after before last more ran holds => exact keeps.vary before holds ran

/-- By induction on the steps: each leads to the first of the places, or from one of them to the
next. -/
theorem since (positive : 0 < r.config.algorithm.cycles) (first : r.Reached i k phase run)
    (holds : P phase run) (reached : r.Reached j l phase' run')
    (later : Since i k phase j l phase') : P phase' run' := by
  have inside := first.cycle_lt positive
  have bound := phase.ordinal_le
  have or_before {j l : Nat} {phase' : Phase} {run' : Run ρ α}
      (reached : r.Reached j l phase' run') (later : Since i k phase j l phase')
      (strictly : Before i k phase j l phase' → P phase' run') : P phase' run' := by
    rcases later with ⟨rfl, rfl, rfl⟩ | before
    · exact first.unique reached ▸ holds
    · exact strictly before
  induction reached with
  | start started =>
    refine or_before (.start started) later fun strictly => ?_
    simp [Before] at strictly
  | evaluate before ran ih =>
    refine or_before (.evaluate before ran) later fun strictly => keeps.evaluate before (ih ?_) ran
    simp only [Before, Phase.ordinal_evaluated] at strictly
    simp only [since_iff, Phase.ordinal_ready]
    omega
  | settle before ran ih =>
    refine or_before (.settle before ran) later fun strictly => keeps.settle before (ih ?_) ran
    simp only [Before, Phase.ordinal_settled] at strictly
    simp only [since_iff, Phase.ordinal_evaluated]
    omega
  | within before more ran ih =>
    refine or_before (.within before more ran) later fun strictly => keeps.vary before (ih ?_) ran
    simp only [Before, Phase.ordinal_ready] at strictly
    simp only [since_iff, Phase.ordinal_settled]
    omega
  | after before last more ran ih =>
    refine or_before (.after before last more ran) later
      fun strictly => keeps.vary before (ih ?_) ran
    simp only [Before, Phase.ordinal_ready] at strictly
    simp only [since_iff, Phase.ordinal_settled]
    omega

end Keeps
end Repeat
end Metaheuristic
