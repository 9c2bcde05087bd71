import Metaheuristic.Proofs.Search.Coverage
import Metaheuristic.Proofs.Search.Isolation
import Metaheuristic.Proofs.Search.Lockstep

/-! A longer budget extends the same run. Where the algorithm does not look at the budget, a
repeat with more iterations comes to the very states that one with fewer iterations comes to,
and then goes on: new trials are made after the last settling only if an iteration follows. So
it evaluates the same agents and keeps the same statistics first. -/
namespace Metaheuristic

variable {ρ α : Type} [Scalar α] [RandomSource ρ α]

namespace Run

/-- Some iterations, and then some more. -/
theorem iterate_add (problem : Problem α) (config : Config α) (round left more i : Nat) :
    (iterate problem config round (left + 1 + more) i :
        Stepping ρ α (List (Statistics α))) = (do
      let first ← iterate problem config round (left + 1) i
      between config more (i + left)
      let rest ← iterate problem config round more (i + left + 1)
      return first ++ rest) := by
  induction left generalizing i with
  | zero =>
    have shifted : 0 + 1 + more = more + 1 := by omega
    rw [shifted, iterate_succ, iterate_succ]
    simp only [between_zero, iterate, bind_assoc, pure_bind, List.append_nil, Nat.add_zero]
  | succ left ih =>
    have shifted : left + 1 + 1 + more = left + 1 + more + 1 := by omega
    have another : left + 1 + more = left + more + 1 := by omega
    have next : i + (left + 1) = i + 1 + left := by omega
    rw [shifted, iterate_succ, iterate_succ, ih, between_succ, another, between_succ, next]
    simp only [bind_assoc, pure_bind, List.append_assoc]

variable {problem : Problem α} {config : Config α} {round : Nat}

/-- A run that remembers the agents of a log, whatever it evaluates next. -/
structure Remembers (problem : Problem α) (config : Config α) (log : List (Agent α))
    (run : Run ρ α) : Prop where
  sound : Sound problem config run
  log : log <+: run.ledger.log

theorem remembers_phases (log : List (Agent α)) :
    Phases (ρ := ρ) problem config round (fun _ => Remembers problem config log)
      (fun _ => Remembers problem config log) fun _ => Remembers problem config log where
  evaluate := by
    intro i run b run' before ran
    obtain ⟨sound, agents, _, longer⟩ := evaluate_sound run b run' ⟨before.sound, rfl⟩ ran
    refine ⟨sound, ?_⟩
    rw [longer]
    exact before.log.trans (List.prefix_append ..)
  settle := by
    intro i run b run' before ran
    obtain ⟨sound, same⟩ := settle_sound run b run' ⟨before.sound, rfl⟩ ran
    exact ⟨sound, same ▸ before.log⟩
  varyWithin := by
    intro i run b run' before ran
    obtain ⟨sound, same⟩ := vary_sound run b run' ⟨before.sound, rfl⟩ ran
    exact ⟨sound, same ▸ before.log⟩
  varyAfter := by
    intro i run b run' before ran
    obtain ⟨sound, same⟩ := vary_sound run b run' ⟨before.sound, rfl⟩ ran
    exact ⟨sound, same ▸ before.log⟩

theorem remembers_iterate (cycles : 0 < config.algorithm.cycles) (log : List (Agent α))
    (left i : Nat) :
    Ensures (Remembers problem config log)
      (iterate problem config round left i : Stepping ρ α (List (Statistics α)))
      fun _ => Remembers problem config log := by
  cases left with
  | zero => exact .pure fun _ before => before
  | succ left => exact (remembers_phases log).iterate cycles left i

theorem remembers_between (log : List (Agent α)) (left i : Nat) :
    Ensures (Remembers problem config log) (between config left i : Stepping ρ α Unit)
      fun _ => Remembers problem config log := by
  cases left with
  | zero => exact .pure fun _ before => before
  | succ left =>
    rw [between_succ]
    have phases : Phases (ρ := ρ) problem config 0 _ _ _ := remembers_phases log
    exact phases.varyWithin i

end Run

namespace Repeat

variable {r : Repeat ρ α} {c' : Config α} {i k : Nat} {phase : Phase} {run : Run ρ α}
  (pure : r.problem.model.Pure) (agrees : r.config.Agrees c')

include pure agrees

/-- A repeat of a longer budget comes to all states of the shorter one. -/
theorem Reached.lengthen (longer : r.config.iterations ≤ c'.iterations) (passes : Nat)
    (reached : r.Reached i k phase run) :
    run.strategy.algorithm = r.config.algorithm ∧ ∃ last,
      (⟨r.problem, c', r.round, passes, r.random⟩ : Repeat ρ α).Reached i k phase
        (run.withPasses last) := by
  induction reached with
  | start started =>
    have beside := Run.start_lockstep r.problem agrees r.passes passes r.random
    rw [started] at beside
    exact ⟨Run.start_algorithm started, passes, .start beside⟩
  | evaluate before ran ih =>
    obtain ⟨carries, last, reached⟩ := ih
    obtain ⟨next, ran', carried⟩ := (Run.evaluate_lockstep pure r.round rfl).ok carries last ran
    exact ⟨carried, next, .evaluate reached ran'⟩
  | settle before ran ih =>
    obtain ⟨carries, last, reached⟩ := ih
    obtain ⟨next, ran', carried⟩ := (Run.settle_lockstep agrees _).ok carries last ran
    exact ⟨carried, next, .settle reached ran'⟩
  | within before more ran ih =>
    obtain ⟨carries, last, reached⟩ := ih
    obtain ⟨next, ran', carried⟩ := (Run.vary_lockstep agrees _).ok carries last ran
    exact ⟨carried, next, .within reached (agrees.algorithm ▸ more) ran'⟩
  | after before final more ran ih =>
    obtain ⟨carries, last, reached⟩ := ih
    obtain ⟨next, ran', carried⟩ := (Run.vary_lockstep agrees _).ok carries last ran
    exact ⟨carried, next, .after reached (agrees.algorithm ▸ final)
      (Nat.lt_of_lt_of_le more longer) ran'⟩

/-- As far as the budget of the shorter one goes, it comes to no other states. -/
theorem Reached.shorten {passes : Nat} {run' : Run ρ α}
    (reached : (⟨r.problem, c', r.round, passes, r.random⟩ : Repeat ρ α).Reached i k phase run')
    (inside : i < r.config.iterations) :
    ∃ run last, run' = run.withPasses last ∧ run.strategy.algorithm = r.config.algorithm ∧
      r.Reached i k phase run := by
  induction reached with
  | start started =>
    have beside := Run.start_lockstep r.problem agrees r.passes passes r.random
    have begun := beside.symm.trans started
    obtain ⟨first, begins, rfl⟩ := map_ok.mp begun
    exact ⟨first, passes, rfl, Run.start_algorithm begins, .start begins⟩
  | evaluate before ran ih =>
    obtain ⟨run, last, rfl, carries, reached⟩ := ih inside
    obtain ⟨next, last', ran', rfl, carried⟩ :=
      (Run.evaluate_lockstep pure r.round rfl).ok_back carries ran
    exact ⟨next, last', rfl, carried, .evaluate reached ran'⟩
  | settle before ran ih =>
    obtain ⟨run, last, rfl, carries, reached⟩ := ih inside
    obtain ⟨next, last', ran', rfl, carried⟩ := (Run.settle_lockstep agrees _).ok_back carries ran
    exact ⟨next, last', rfl, carried, .settle reached ran'⟩
  | within before more ran ih =>
    obtain ⟨run, last, rfl, carries, reached⟩ := ih inside
    obtain ⟨next, last', ran', rfl, carried⟩ := (Run.vary_lockstep agrees _).ok_back carries ran
    exact ⟨next, last', rfl, carried, .within reached (agrees.algorithm ▸ more) ran'⟩
  | after before final more ran ih =>
    obtain ⟨run, last, rfl, carries, reached⟩ := ih (Nat.lt_of_succ_lt inside)
    obtain ⟨next, last', ran', rfl, carried⟩ := (Run.vary_lockstep agrees _).ok_back carries ran
    exact ⟨next, last', rfl, carried, .after reached (agrees.algorithm ▸ final) inside ran'⟩

end Repeat

/-- An outcome that another one extends: by what was evaluated and by what was kept of it. -/
structure Outcome.Extends (o o' : Outcome α) : Prop where
  log : o.log <+: o'.log
  history : o.history <+: o'.history

/-- A result of repeats that all succeeded. -/
def Result.Complete (r : Result α) : Prop :=
  ∀ number cause, .repeatFailed number cause ∉ r.warnings

instance (r : Result α) : Decidable r.Complete :=
  decidable_of_iff (∀ w ∈ r.warnings, (w matches .infeasibleResult) = true) <| by
    constructor
    · intro fine number cause member
      cases fine _ member
    · intro complete w member
      cases w with
      | repeatFailed number cause => exact absurd member (complete number cause)
      | infeasibleResult => rfl

namespace Search

/-- Successful repeats that extend one another. -/
def Extends (outcome outcome' : Except (Error α) (Outcome α)) : Prop :=
  ∃ o o', outcome = .ok o ∧ outcome' = .ok o' ∧ o.Extends o'

omit [Scalar α] [RandomSource ρ α] in
/-- Where the algorithm does not look at it, configurations may differ in the budget. -/
theorem agrees_iterations {config : Config α} (free : config.algorithm.BudgetFree) (m n : Nat) :
    Config.Agrees { config with iterations := m } { config with iterations := n } :=
  ⟨rfl, rfl, rfl, rfl, .inr free⟩

variable {problem : Problem α} {c c' : Config α}

section Longer

variable (pure : problem.model.Pure) (agrees : c.Agrees c') (active : Active c)
  (longer : c.iterations ≤ c'.iterations)

include pure agrees active longer

/-- A repeat that succeeds with the longer budget succeeds with the shorter one, and extends
what it leaves behind there. -/
theorem attempt_extends {round passes' last' : Nat} {random : ρ} {o' : Outcome α}
    (ran : attempt problem c' round passes' random = .ok (.ok o', last')) (passes : Nat) :
    ∃ o last, attempt problem c round passes random = .ok (.ok o, last) ∧ o.Extends o' := by
  obtain ⟨first', final, started', ended, log, _⟩ := attempt_ok ran
  obtain ⟨left, iterations⟩ := Nat.exists_eq_succ_of_ne_zero (Nat.ne_of_gt active.iterations)
  obtain ⟨more, budget⟩ := Nat.exists_eq_add_of_le longer
  have beside := (Run.start_lockstep problem agrees passes passes' random).symm.trans started'
  obtain ⟨first, started, rfl⟩ := map_ok.mp beside
  rw [budget, iterations, Run.iterate_add] at ended
  obtain ⟨kept, middle', begun, ended⟩ := run_bind_ok ended
  obtain ⟨_, varied, between, ended⟩ := run_bind_ok ended
  obtain ⟨rest, final', went, built⟩ := run_bind_ok ended
  obtain ⟨middle, last, shorter, rfl, _⟩ :=
    (Run.iterate_lockstep agrees pure round (left + 1) 0).ok_back
      (Run.start_algorithm started) begun
  obtain ⟨answer, left⟩ := Prod.mk.inj built
  have finished : kept ++ rest = o'.history ∧ final' = final := ⟨Except.ok.inj answer, left⟩
  refine ⟨⟨middle.ledger.record, middle.ledger.log, kept, middle.strategy.report⟩,
    middle.ledger.passes, ?_, ?_, ?_⟩
  · rw [attempt_eq round started, iterations, shorter]
    rfl
  · have cycles : 0 < c'.algorithm.cycles := by
      rw [agrees.algorithm]
      exact active.cycles
    have fresh : Run.Remembers problem c' [] (first.withPasses passes') :=
      ⟨Run.start_sound started', List.nil_prefix⟩
    have met := Run.remembers_iterate cycles [] _ _ _ _ _ fresh begun
    have here : Run.Remembers problem c' middle.ledger.log (middle.withPasses last) :=
      ⟨met.sound, List.prefix_refl _⟩
    have after := Run.remembers_between _ _ _ _ _ _ here between
    have lasting := Run.remembers_iterate cycles _ _ _ _ _ _ after went
    rw [log, ← finished.2]
    exact lasting.log
  · rw [← finished.1]
    exact List.prefix_append ..

/-- A repeat that fails with the shorter budget fails alike with the longer one. -/
theorem attempt_fails {round passes last : Nat} {random : ρ} {cause : Error α}
    (ran : attempt problem c round passes random = .ok (.error cause, last)) (passes' : Nat) :
    ∃ last', attempt problem c' round passes' random = .ok (.error cause, last') := by
  obtain ⟨left, iterations⟩ := Nat.exists_eq_succ_of_ne_zero (Nat.ne_of_gt active.iterations)
  obtain ⟨more, budget⟩ := Nat.exists_eq_add_of_le longer
  have beside := Run.start_lockstep problem agrees passes passes' random
  cases started : Run.start problem c passes random with
  | error fault =>
    rw [attempt_eq_error round started] at ran
    cases ran
  | ok first =>
    rw [started] at beside
    rw [attempt_eq round started, iterations] at ran
    obtain ⟨_, after, ended⟩ := Run.iterate_lockstep agrees pure round (left + 1) 0 first passes'
      (Run.start_algorithm started)
    cases short : (Run.iterate problem c round (left + 1) 0).run.run first with
    | mk result final =>
      rw [short] at ran ended
      cases result with
      | ok history => cases ran
      | error failure =>
        refine ⟨after, ?_⟩
        rw [attempt_eq round beside, budget, iterations, Run.iterate_add,
          run_bind_of_error ended]
        cases failure <;> cases ran
        rfl

/-- When all repeats of the longer budget succeed, so do those of the shorter one. -/
theorem attempts_extend {round passes' last' : Nat} {seeds : List UInt64}
    {outcomes' : List (Except (Error α) (Outcome α))}
    (ran : attempts ρ problem c' round passes' seeds = .ok (outcomes', last'))
    (succeed : ∀ outcome ∈ outcomes', ∃ o, outcome = .ok o) (passes : Nat) :
    ∃ outcomes last, attempts ρ problem c round passes seeds = .ok (outcomes, last) ∧
      List.Forall₂ Extends outcomes outcomes' := by
  induction seeds generalizing round passes passes' outcomes' with
  | nil =>
    cases ran
    exact ⟨[], passes, rfl, .nil⟩
  | cons seed seeds ih =>
    obtain ⟨⟨outcome', middle'⟩, begun', ran⟩ := bind_ok.mp ran
    obtain ⟨⟨rest', final'⟩, later', built⟩ := bind_ok.mp ran
    cases built
    obtain ⟨⟨o', rfl⟩, others⟩ := List.forall_mem_cons.mp succeed
    obtain ⟨o, middle, begun, extended⟩ := attempt_extends pure agrees active longer begun' passes
    obtain ⟨rest, last, later, together⟩ := ih later' others middle
    refine ⟨.ok o :: rest, last, ?_, .cons ⟨o, o', rfl, rfl, extended⟩ together⟩
    exact bind_ok.mpr ⟨(.ok o, middle), begun, bind_ok.mpr ⟨(rest, last), later, rfl⟩⟩

end Longer

variable {outcomes outcomes' : List (Except (Error α) (Outcome α))}

omit [RandomSource ρ α] [Scalar α] in
theorem evaluated_extend (together : List.Forall₂ Extends outcomes outcomes') :
    ∀ a ∈ evaluated outcomes, a ∈ evaluated outcomes' := by
  induction together with
  | nil => exact fun _ member => member
  | cons head _ ih =>
    obtain ⟨o, o', rfl, rfl, extended⟩ := head
    intro a member
    rcases List.mem_append.mp member with first | later
    · exact List.mem_append_left _ (extended.log.subset first)
    · exact List.mem_append_right _ (ih a later)

omit [RandomSource ρ α] in
/-- Folding such repeats keeps such histories. -/
theorem histories_extend {recordHistory : Bool} {round : Nat} {s s' t t' : Summary α}
    (together : List.Forall₂ Extends outcomes outcomes')
    (before : List.Forall₂ (· <+: ·) s.history t.history)
    (ran : Summary.addAll recordHistory round outcomes s = .ok s')
    (ran' : Summary.addAll recordHistory round outcomes' t = .ok t') :
    List.Forall₂ (· <+: ·) s'.history t'.history := by
  induction together generalizing round s t with
  | nil =>
    cases ran
    cases ran'
    exact before
  | cons head _ ih =>
    obtain ⟨o, o', rfl, rfl, extended⟩ := head
    obtain ⟨next, added, ran⟩ := bind_ok.mp ran
    obtain ⟨next', added', ran'⟩ := bind_ok.mp ran'
    obtain ⟨record, _, built⟩ := bind_ok.mp added
    obtain ⟨record', _, built'⟩ := bind_ok.mp added'
    cases built
    cases built'
    refine ih ?_ ran ran'
    cases recordHistory with
    | false => exact before
    | true => exact List.rel_append before (.cons extended.history .nil)

omit [RandomSource ρ α] [Scalar α] in
/-- Every failed repeat leaves a warning. -/
theorem mem_failures (round : Nat) {cause : Error α} (failed : .error cause ∈ outcomes) :
    ∃ number, .repeatFailed number cause ∈ failures round outcomes := by
  obtain ⟨j, place⟩ := List.mem_iff_getElem?.mp failed
  refine ⟨round + j, List.mem_filterMap.mpr ⟨(.error cause, round + j), ?_, rfl⟩⟩
  exact List.mk_add_mem_zipIdx_iff_getElem?.mpr place

omit [RandomSource ρ α] in
theorem conclude_traces {problem : Problem α} {config : Config α} {passes : Nat} {s : Summary α}
    {result : Result α} (ran : conclude problem config passes s = .ok result) :
    result.history = s.history ∧ s.warnings <+: result.warnings := by
  unfold conclude at ran
  split at ran
  · cases ran
  · obtain ⟨candidates, _, built⟩ := bind_ok.mp ran
    cases built
    exact ⟨rfl, List.prefix_append ..⟩

omit [RandomSource ρ α] in
/-- Behind a complete result, every repeat succeeded. -/
theorem all_ok_of_complete {config : Config α} {passes : Nat} {ds : List Direction}
    {summary : Summary α} {result : Result α}
    (added : Summary.addAll config.recordHistory 0 outcomes (.empty ds config.archiveCapacity) =
      .ok summary)
    (ended : conclude problem config passes summary = .ok result) (complete : result.Complete) :
    ∀ outcome ∈ outcomes, ∃ o, outcome = .ok o := by
  intro outcome member
  cases outcome with
  | ok o => exact ⟨o, rfl⟩
  | error cause =>
    obtain ⟨number, failed⟩ := mem_failures 0 member
    refine absurd ((conclude_traces ended).2.subset ?_) (complete number cause)
    rw [(Summary.addAll_traces added).1]
    exact List.mem_append_right _ failed

omit [RandomSource ρ α] [Scalar α] in
/-- Among such repeats, if there are any, one succeeded. -/
theorem exists_ok_of_extends (together : List.Forall₂ Extends outcomes outcomes')
    (tried : outcomes' ≠ []) : ∃ o, .ok o ∈ outcomes := by
  cases together with
  | nil => exact absurd rfl tried
  | cons head _ =>
    obtain ⟨o, _, rfl, _⟩ := head
    exact ⟨o, List.mem_cons_self⟩

/-- A longer budget extends the same run. For a pure model and an algorithm that does not look
at the budget, a repeat comes within its first iterations to the very states that it comes to
with the shorter budget, but for the passes that other repeats began before it: the same
population, strategy, generator and best record, and the same entry of the history. So it fails
wherever the shorter one fails, and where it succeeds it extends what the shorter one evaluates
and keeps.

When the longer search comes to a result and no repeat failed, its best reward is not worse than
that of the shorter search, and the history of each repeat begins with what it is there. The
shorter search comes to a result too, unless the model fails when its best agents are checked
again. -/
theorem longer_budget_extends [Scalar.LawfulOrder α] {model : Model α} {config : Config α}
    {m n : Nat} (pure : model.Pure) (free : config.algorithm.BudgetFree)
    (made : Problem.make model config.penaltyCoefficient = .ok problem)
    (valid : ({ config with iterations := m } : Config α).validate = .ok ())
    (fitting : config.algorithm.validateFor config.agents problem.schema.objectives = .ok ())
    (longer : m ≤ n) :
    (∀ (round passes passes' : Nat) (random : ρ),
      let short : Repeat ρ α :=
        ⟨problem, { config with iterations := m }, round, passes, random⟩
      let long : Repeat ρ α :=
        ⟨problem, { config with iterations := n }, round, passes', random⟩
      (∀ i k phase run, short.Reached i k phase run → ∃ last,
        long.Reached i k phase (run.withPasses last) ∧
        ((Run.recording long.config i).run.run (run.withPasses last)).1 =
          ((Run.recording short.config i).run.run run).1) ∧
      (∀ i k phase run', i < m → long.Reached i k phase run' →
        ∃ run last, run' = run.withPasses last ∧ short.Reached i k phase run) ∧
      (∀ cause last,
        attempt problem short.config round passes random = .ok (.error cause, last) →
        ∃ last', attempt problem long.config round passes' random =
          .ok (.error cause, last')) ∧
      ∀ o' last', attempt problem long.config round passes' random = .ok (.ok o', last') →
        ∃ o last, attempt problem short.config round passes random = .ok (.ok o, last) ∧
          o.Extends o') ∧
    ∀ fallback result',
      run ρ { config with iterations := n } fallback model = .ok result' → result'.Complete →
      (problem.Rechecks →
        ∃ result, run ρ { config with iterations := m } fallback model = .ok result) ∧
      ∀ result, run ρ { config with iterations := m } fallback model = .ok result →
        (∀ d, problem.directions = [d] → ∃ c c' x x',
          result.candidates = [c] ∧ result'.candidates = [c'] ∧ c.reward = [x] ∧
          c'.reward = [x'] ∧ Scalar.isNaN x' = false ∧ d.isBetter x x' = false) ∧
        List.Forall₂ (· <+: ·) result.history result'.history := by
  have issued : problem.model.Pure := by
    rw [(Problem.make_ok made).2.1]
    exact pure
  have agrees := agrees_iterations free m n
  have active := active_of_valid valid fitting
  constructor
  · intro round passes passes' random short long
    refine ⟨fun i k phase run reached => ?_, fun i k phase run' inside reached => ?_,
      fun cause last ran => attempt_fails issued agrees active longer ran passes',
      fun o' last' ran => attempt_extends issued agrees active longer ran passes⟩
    · obtain ⟨_, last, later⟩ := reached.lengthen issued agrees longer passes'
      obtain ⟨_, _, kept⟩ := Run.recording_lockstep agrees i run last rfl
      have entry := congrArg Prod.fst kept
      exact ⟨last, later, entry⟩
    · obtain ⟨run, last, same, _, earlier⟩ :=
        Repeat.Reached.shorten (r := short) issued agrees reached inside
      exact ⟨run, last, same, earlier⟩
  · intro fallback result' ran' complete
    have conclusion {budget : Nat} {result : Result α}
        (ran : run ρ { config with iterations := budget } fallback model = .ok result) :
        ∃ outcomes summary, Concluded ρ problem { config with iterations := budget }
          (config.seed.getD fallback) outcomes summary result := concluded_of_run made ran
    obtain ⟨outcomes', summary', many⟩ := conclusion ran'
    obtain ⟨passes', attempted', ended'⟩ := many.attempted
    have succeed := all_ok_of_complete many.added ended' complete
    obtain ⟨outcomes, passes, attempted, together⟩ :=
      attempts_extend issued agrees active longer attempted' succeed 0
    constructor
    · intro rechecks
      obtain ⟨o, member⟩ := exists_ok_of_extends together many.tried
      obtain ⟨result, _, _, folded⟩ := fold_successes
        rechecks passes (attempts_fit active attempted) ⟨o, member⟩
      have whole : run ρ { config with iterations := m } fallback model =
          fold problem { config with iterations := m } passes outcomes :=
        run_eq_fold made valid fitting attempted
      exact ⟨_, whole.trans folded⟩
    · intro result ran
      obtain ⟨same, summary, few⟩ := conclusion ran
      obtain ⟨last, again, ended⟩ := few.attempted
      dsimp only at again
      rw [attempted] at again
      cases again
      refine ⟨fun d objective => best_not_worse few many (evaluated_extend together) objective, ?_⟩
      rw [(conclude_traces ended).1, (conclude_traces ended').1]
      exact histories_extend together .nil few.added many.added

/-- The budget, searched twice for some iterations that are all recorded. -/
def budgetRecording (iterations : Nat) : Config Float :=
  { budgetSearch with iterations := iterations, recordHistory := true }

/-- One iteration of the two tabu searches, and two of them. -/
theorem longer_budget_extends_budget :
    Schema.budget.model.Pure ∧ budgetSearch.algorithm.BudgetFree ∧
    Problem.make Schema.budget.model budgetSearch.penaltyCoefficient = .ok budgetProblem ∧
    (budgetRecording 1).validate = .ok () ∧
    budgetSearch.algorithm.validateFor budgetSearch.agents budgetProblem.schema.objectives =
      .ok () ∧ 1 ≤ 2 ∧
    ∃ result result',
      run (Generator Float) (budgetRecording 1) 0 Schema.budget.model = .ok result ∧
      run (Generator Float) (budgetRecording 2) 0 Schema.budget.model = .ok result' ∧
      result'.Complete ∧
      (∃ c c' x x', result.candidates = [c] ∧ result'.candidates = [c'] ∧ c.reward = [x] ∧
        c'.reward = [x'] ∧ Direction.maximize.isBetter x x' = false) ∧
      List.Forall₂ (· <+: ·) result.history result'.history := by
  have pure : Schema.budget.model.Pure :=
    Script.pure_model fun line member => (Schema.budget_rowwise line member).1
  have free : (budgetRecording 1).algorithm.BudgetFree := trivial
  have valid : (budgetRecording 1).validate = .ok () := by rfl
  have fitting : budgetSearch.algorithm.validateFor budgetSearch.agents
      budgetProblem.schema.objectives = .ok () := by rfl
  have made (iterations : Nat) : Problem.make Schema.budget.model
      (budgetRecording iterations).penaltyCoefficient = .ok budgetProblem := budget_made
  have once : ∃ result,
      run (Generator Float) (budgetRecording 1) 0 Schema.budget.model = .ok result := by
    refine exists_ok ?_
    rw [run, made]
    decide +kernel
  have twice : ∃ result,
      run (Generator Float) (budgetRecording 2) 0 Schema.budget.model = .ok result ∧
        result.Complete := by
    refine exists_ok_of_any ?_
    rw [run, made]
    decide +kernel
  obtain ⟨result, ran⟩ := once
  obtain ⟨result', ran', complete⟩ := twice
  obtain ⟨_, searches⟩ := longer_budget_extends (ρ := Generator Float) (m := 1) (n := 2) pure
    free (made 1) valid fitting (by decide)
  obtain ⟨_, compared⟩ := searches 0 result' ran' complete
  obtain ⟨single, histories⟩ := compared result ran
  obtain ⟨c, c', x, x', only, only', one, one', _, kept⟩ := single .maximize rfl
  exact ⟨pure, free, budget_made, valid, fitting, by decide, result, result', ran, ran',
    complete, ⟨c, c', x, x', only, only', one, one', kept⟩, histories⟩

end Search

end Metaheuristic
