import Metaheuristic.Proofs.Search.Safe

/-! The states of a repeat. A repeat goes from state to state by the steps of its run, and
where one of them fails the whole repeat fails, with the same failure. Both directions are
wanted: whatever a repeat ends with comes from a step in a state that it came to, and
whatever happens in such a state is what the repeat ends with. -/
namespace Metaheuristic

variable {ρ α : Type}

/-- A repeat by what it starts from. -/
structure Repeat (ρ α : Type) where
  problem : Problem α
  config : Config α
  round : Nat
  passes : Nat
  random : ρ

/-- Where a repeat is inside a cycle. -/
inductive Phase where
  /-- Before the evaluation. -/
  | ready
  /-- After the evaluation. -/
  | evaluated
  /-- After settling which agents to keep. -/
  | settled
  deriving DecidableEq, Repr

namespace Repeat

/-- The place of an iteration in the budget of the repeat. -/
def progress (r : Repeat ρ α) (iteration : Nat) : Progress := ⟨iteration, r.config.iterations⟩

variable [Scalar α] [RandomSource ρ α]

/-- The states that a repeat comes to, with the number of the iteration and that of the
cycle in it. New trials are made inside an iteration as long as there are cycles left,
and after it as long as there are iterations left. -/
inductive Reached (r : Repeat ρ α) : (iteration cycle : Nat) → Phase → Run ρ α → Prop
  | start {run : Run ρ α}
      (started : Run.start r.problem r.config r.passes r.random = .ok run) :
      Reached r 0 0 .ready run
  | evaluate {i k : Nat} {run run' : Run ρ α} (before : Reached r i k .ready run)
      (ran : (Run.evaluate r.problem r.round (r.progress i)).run.run run = (.ok (), run')) :
      Reached r i k .evaluated run'
  | settle {i k : Nat} {run run' : Run ρ α} (before : Reached r i k .evaluated run)
      (ran : (Run.settle r.problem (r.progress i)).run.run run = (.ok (), run')) :
      Reached r i k .settled run'
  | within {i k : Nat} {run run' : Run ρ α} (before : Reached r i k .settled run)
      (more : k + 1 < r.config.algorithm.cycles)
      (ran : (Run.vary (r.progress i)).run.run run = (.ok (), run')) :
      Reached r i (k + 1) .ready run'
  | after {i k : Nat} {run run' : Run ρ α} (before : Reached r i k .settled run)
      (last : k + 1 = r.config.algorithm.cycles) (more : i + 1 < r.config.iterations)
      (ran : (Run.vary (r.progress i)).run.run run = (.ok (), run')) :
      Reached r (i + 1) 0 .ready run'

/-- A step fails in a state that the repeat comes to, and leaves the run as it is then. -/
inductive Breaks (r : Repeat ρ α) (failure : Failure α) (run' : Run ρ α) : Prop
  | evaluate {i k : Nat} {run : Run ρ α} (before : r.Reached i k .ready run)
      (ran : (Run.evaluate r.problem r.round (r.progress i)).run.run run =
        (.error failure, run'))
  | settle {i k : Nat} {run : Run ρ α} (before : r.Reached i k .evaluated run)
      (ran : (Run.settle r.problem (r.progress i)).run.run run = (.error failure, run'))
  | vary {i k : Nat} {run : Run ρ α} (before : r.Reached i k .settled run)
      (ran : (Run.vary (r.progress i)).run.run run = (.error failure, run'))
  | look {i k : Nat} {run : Run ρ α} (before : r.Reached i k .settled run)
      (ran : (Run.statistics r.config i).run.run run = (.error failure, run'))

/-- Steps that lead from states to states or else break the repeat. -/
def Leads {β : Type} (r : Repeat ρ α) (P : Run ρ α → Prop) (step : Stepping ρ α β)
    (Q : Run ρ α → Prop) : Prop :=
  ∀ run, P run → (∀ b run', step.run.run run = (.ok b, run') → Q run') ∧
    ∀ failure run', step.run.run run = (.error failure, run') → r.Breaks failure run'

variable {r : Repeat ρ α} {P Q R : Run ρ α → Prop} {i k : Nat} {phase : Phase} {run : Run ρ α}

namespace Leads

variable {β γ : Type}

theorem pure (b : β) (holds : ∀ run, P run → Q run) :
    r.Leads P (Pure.pure b : Stepping ρ α β) Q := by
  intro run before
  refine ⟨fun b' run' ran => ?_, fun failure run' ran => ?_⟩
  · cases ran
    exact holds run before
  · cases ran

theorem bind {first : Stepping ρ α β} {next : β → Stepping ρ α γ} (begins : r.Leads P first Q)
    (goes : ∀ b, r.Leads Q (next b) R) : r.Leads P (first >>= next) R := by
  intro run before
  obtain ⟨kept, broken⟩ := begins run before
  cases begun : first.run.run run with
  | mk result middle =>
    cases result with
    | error failure =>
      rw [run_bind_of_error begun]
      refine ⟨fun _ _ ran => ?_, fun failure run' ran => ?_⟩
      · cases ran
      · cases ran
        exact broken failure _ begun
    | ok b =>
      rw [run_bind_of_ok begun]
      exact goes b middle (kept b middle begun)

end Leads

variable (r) in
theorem leads_evaluate (i k : Nat) :
    r.Leads (r.Reached i k .ready) (Run.evaluate r.problem r.round (r.progress i))
      (r.Reached i k .evaluated) :=
  fun _ before => ⟨fun _ _ ran => .evaluate before ran, fun _ _ ran => .evaluate before ran⟩

variable (r) in
theorem leads_settle (i k : Nat) :
    r.Leads (r.Reached i k .evaluated) (Run.settle r.problem (r.progress i))
      (r.Reached i k .settled) :=
  fun _ before => ⟨fun _ _ ran => .settle before ran, fun _ _ ran => .settle before ran⟩

/-- Making new trials, wherever that leads. -/
theorem leads_vary (leads : ∀ run run', r.Reached i k .settled run →
      (Run.vary (r.progress i)).run.run run = (.ok (), run') → Q run') :
    r.Leads (r.Reached i k .settled) (Run.vary (r.progress i)) Q :=
  fun run before => ⟨fun _ run' ran => leads run run' before ran, fun _ _ ran => .vary before ran⟩

/-- The cycles that are left of an iteration. -/
theorem leads_cycles (i : Nat) {k count : Nat}
    (left : k + 1 + count = r.config.algorithm.cycles) :
    r.Leads (r.Reached i k .settled) (Run.cycles r.problem r.round (r.progress i) count)
      (r.Reached i (k + count) .settled) := by
  induction count generalizing k with
  | zero => exact .pure () fun _ settled => settled
  | succ count ih =>
    have varied : r.Leads (r.Reached i k .settled) (Run.vary (r.progress i))
        (r.Reached i (k + 1) .ready) :=
      leads_vary fun _ _ before ran => .within before (by omega) ran
    have shifted : k + 1 + count = k + (count + 1) := by omega
    rw [← shifted]
    exact varied.bind fun _ => (r.leads_evaluate i (k + 1)).bind fun _ =>
      (r.leads_settle i (k + 1)).bind fun _ => ih (by omega)

theorem leads_update (i : Nat) (positive : 0 < r.config.algorithm.cycles) :
    r.Leads (r.Reached i 0 .ready)
      (Run.update r.problem r.round (r.progress i) r.config.algorithm.cycles)
      (r.Reached i (r.config.algorithm.cycles - 1) .settled) := by
  obtain ⟨count, cycles⟩ := Nat.exists_eq_succ_of_ne_zero (Nat.ne_of_gt positive)
  have whole : 0 + 1 + count = r.config.algorithm.cycles := by omega
  have rest := leads_cycles i whole
  rw [Nat.zero_add] at rest
  rw [cycles]
  exact (r.leads_evaluate i 0).bind fun _ => (r.leads_settle i 0).bind fun _ => rest

/-- Statistics change nothing for what comes next. -/
theorem leads_recording : r.Leads (r.Reached i k .settled) (Run.recording r.config i)
    fun run => r.Reached i k .settled run := by
  unfold Run.recording
  split
  · have looks : r.Leads (r.Reached i k .settled) (Run.statistics r.config i)
        (r.Reached i k .settled) := fun run before =>
      ⟨fun _ run' ran => Run.statistics_ok ran ▸ before, fun _ _ ran => .look before ran⟩
    exact looks.bind fun s => .pure _ fun _ settled => settled
  · exact .pure _ fun _ settled => settled

/-- By induction on the iterations that are left after the next one. -/
theorem leads_iterate (positive : 0 < r.config.algorithm.cycles) {left i : Nat}
    (budget : i + left + 1 = r.config.iterations) :
    r.Leads (r.Reached i 0 .ready) (Run.iterate r.problem r.config r.round (left + 1) i)
      (r.Reached (i + left) (r.config.algorithm.cycles - 1) .settled) := by
  induction left generalizing i with
  | zero =>
    rw [Run.iterate_succ]
    simp only [Run.between_zero, Run.iterate, pure_bind]
    exact (leads_update i positive).bind fun _ => leads_recording.bind fun entry =>
      .pure _ fun _ settled => settled
  | succ left ih =>
    have varied : r.Leads (r.Reached i (r.config.algorithm.cycles - 1) .settled)
        (Run.vary (r.progress i)) (r.Reached (i + 1) 0 .ready) :=
      leads_vary fun _ _ before ran => .after before (by omega) (by omega) ran
    have shifted : i + 1 + left = i + (left + 1) := by omega
    rw [Run.iterate_succ, Run.between_succ, ← shifted]
    exact (leads_update i positive).bind fun _ => leads_recording.bind fun entry =>
      varied.bind fun _ => (ih (by omega)).bind fun rest => .pure _ fun _ settled => settled

/-- Every state that a repeat comes to is sized and has a ledger that tells the truth. -/
theorem Reached.sound (reached : r.Reached i k phase run) :
    Run.Sound r.problem r.config run := by
  induction reached with
  | start started => exact Run.start_sound started
  | evaluate before ran sound => exact (Run.evaluate_sound _ () _ ⟨sound, rfl⟩ ran).1
  | settle before ran sound => exact (Run.settle_sound _ () _ ⟨sound, rfl⟩ ran).1
  | within before more ran sound => exact (Run.vary_sound _ () _ ⟨sound, rfl⟩ ran).1
  | after before last more ran sound => exact (Run.vary_sound _ () _ ⟨sound, rfl⟩ ran).1

/-- What is left to do after the last cycle of an iteration. -/
def finish (r : Repeat ρ α) (i : Nat) : Stepping ρ α (List (Statistics α)) := do
  let entry ← Run.recording r.config i
  Run.between r.config (r.config.iterations - (i + 1)) i
  let rest ← Run.iterate r.problem r.config r.round (r.config.iterations - (i + 1)) (i + 1)
  return entry ++ rest

/-- What is left to do in a state of a repeat. -/
def remaining (r : Repeat ρ α) (i k : Nat) : Phase → Stepping ρ α (List (Statistics α))
  | .ready => do
    Run.evaluate r.problem r.round (r.progress i)
    Run.settle r.problem (r.progress i)
    Run.cycles r.problem r.round (r.progress i) (r.config.algorithm.cycles - (k + 1))
    r.finish i
  | .evaluated => do
    Run.settle r.problem (r.progress i)
    Run.cycles r.problem r.round (r.progress i) (r.config.algorithm.cycles - (k + 1))
    r.finish i
  | .settled => do
    Run.cycles r.problem r.round (r.progress i) (r.config.algorithm.cycles - (k + 1))
    r.finish i

theorem iterate_eq_remaining (positive : 0 < r.config.algorithm.cycles)
    (more : i < r.config.iterations) :
    Run.iterate r.problem r.config r.round (r.config.iterations - i) i =
      r.remaining i 0 .ready := by
  obtain ⟨count, cycles⟩ := Nat.exists_eq_succ_of_ne_zero (Nat.ne_of_gt positive)
  have left : r.config.iterations - i = r.config.iterations - (i + 1) + 1 := by omega
  rw [left, Run.iterate_succ, remaining, cycles, Run.update]
  simp only [bind_assoc]
  rfl

/-- Carrying out a computation from a run is how the repeat goes on, up to the statistics
that were kept before. -/
def Continues (r : Repeat ρ α) (rest : Stepping ρ α (List (Statistics α))) (run : Run ρ α) : Prop :=
  ∃ first kept, Run.start r.problem r.config r.passes r.random = .ok first ∧
    (Run.iterate r.problem r.config r.round r.config.iterations 0).run.run first =
      ((rest.run.run run).1.map (kept ++ ·), (rest.run.run run).2)

namespace Continues

variable {rest : Stepping ρ α (List (Statistics α))} {run' : Run ρ α}

/-- A step that succeeds is done. -/
theorem step {β : Type} {step : Stepping ρ α β} {next : β → Stepping ρ α (List (Statistics α))}
    {b : β} (continues : r.Continues (step >>= next) run)
    (ran : step.run.run run = (.ok b, run')) : r.Continues (next b) run' := by
  obtain ⟨first, kept, started, ended⟩ := continues
  rw [run_bind_of_ok ran] at ended
  exact ⟨first, kept, started, ended⟩

/-- What is kept before the rest counts as kept. -/
theorem keep {entry : List (Statistics α)}
    (continues : r.Continues (do return entry ++ (← rest)) run) : r.Continues rest run := by
  obtain ⟨first, kept, started, ended⟩ := continues
  refine ⟨first, kept ++ entry, started, ended.trans ?_⟩
  have unfolded : (do return entry ++ (← rest) : Stepping ρ α (List (Statistics α))).run.run run =
      ((rest.run.run run).1.map (entry ++ ·), (rest.run.run run).2) := by
    rw [ExceptT.run_bind, StateT.run_bind]
    cases rest.run.run run with
    | mk result run' => cases result <;> rfl
  rw [unfolded]
  cases (rest.run.run run).1 <;> simp [Except.map]

end Continues

/-- Statistics can be taken of every state that a repeat comes to. -/
theorem Reached.exists_statistics (accepted : r.problem.Accepted r.config)
    (reached : r.Reached i k phase run) (iteration : Nat) :
    ∃ s, (Run.statistics r.config iteration).run.run run = (.ok s, run) := by
  obtain ⟨column, read⟩ := reached.sound.sized.exists_rewardColumn (k := 0)
    (List.length_pos_iff.mpr accepted.directed) r.config.algorithm.incumbent
  rw [Run.statistics, Run.get_run]
  split
  · rw [Run.ofExcept_run read]
    exact ⟨_, rfl⟩
  · exact ⟨_, rfl⟩

theorem Reached.exists_recording (accepted : r.problem.Accepted r.config)
    (reached : r.Reached i k phase run) (iteration : Nat) :
    ∃ entry, (Run.recording r.config iteration).run.run run = (.ok entry, run) := by
  unfold Run.recording
  split
  · obtain ⟨s, looked⟩ := reached.exists_statistics accepted iteration
    exact ⟨[s], (run_bind_of_ok looked).trans rfl⟩
  · exact ⟨[], rfl⟩

/-- From every state that a repeat comes to, it goes on with what is left to do there. -/
theorem Reached.continues (accepted : r.problem.Accepted r.config) (active : Search.Active r.config)
    (reached : r.Reached i k phase run) : r.Continues (r.remaining i k phase) run := by
  induction reached with
  | @start run started =>
    rw [← iterate_eq_remaining active.cycles active.iterations]
    refine ⟨run, [], started, ?_⟩
    rw [Nat.sub_zero]
    cases (Run.iterate r.problem r.config r.round r.config.iterations 0).run.run run with
    | mk result run' => cases result <;> simp [Except.map]
  | evaluate before ran continues => exact continues.step ran
  | settle before ran continues => exact continues.step ran
  | @within i k run run' before more ran continues =>
    have left : r.config.algorithm.cycles - (k + 1) =
        r.config.algorithm.cycles - (k + 1 + 1) + 1 := by omega
    rw [remaining, left, Run.cycles, bind_assoc] at continues
    have rest := continues.step ran
    simp only [bind_assoc] at rest
    exact rest
  | @after i k run run' before last more ran continues =>
    have none : r.config.algorithm.cycles - (k + 1) = 0 := by omega
    have another : r.config.iterations - (i + 1) ≠ 0 := by omega
    have varies : Run.between (ρ := ρ) r.config (r.config.iterations - (i + 1)) i =
        Run.vary (r.progress i) := if_neg another
    rw [remaining, none, Run.cycles, pure_bind, finish, varies] at continues
    rw [← iterate_eq_remaining active.cycles more]
    obtain ⟨entry, recorded⟩ := before.exists_recording accepted i
    exact ((continues.step recorded).step ran).keep

end Repeat

namespace Search

variable [Scalar α] [RandomSource ρ α] {problem : Problem α} {config : Config α}

/-- The last state of a successful repeat is one that it comes to. -/
theorem attempt_reached {round passes passes' : Nat} {random : ρ} {o : Outcome α}
    (active : Active config)
    (ran : attempt problem config round passes random = .ok (.ok o, passes')) :
    ∃ run, (⟨problem, config, round, passes, random⟩ : Repeat ρ α).Reached
        (config.iterations - 1) (config.algorithm.cycles - 1) .settled run ∧
      o.record = run.ledger.record ∧ o.log = run.ledger.log ∧
      o.report = run.strategy.report := by
  obtain ⟨run, run', started, ended, log, record, report⟩ := attempt_ok ran
  obtain ⟨left, iterations⟩ := Nat.exists_eq_succ_of_ne_zero (Nat.ne_of_gt active.iterations)
  let r : Repeat ρ α := ⟨problem, config, round, passes, random⟩
  have leads : r.Leads (r.Reached 0 0 .ready) (Run.iterate problem config round (left + 1) 0)
      (r.Reached (0 + left) (config.algorithm.cycles - 1) .settled) :=
    Repeat.leads_iterate active.cycles
      ((congrArg Nat.succ (Nat.zero_add left)).trans iterations.symm)
  rw [iterations] at ended
  have settled := (leads run (.start started)).1 o.history run' ended
  rw [Nat.zero_add] at settled
  rw [iterations]
  exact ⟨run', settled, record, log, report⟩

end Search
end Metaheuristic
