import Metaheuristic.Proofs.Number.Distance
import Metaheuristic.Proofs.Search.Incumbents
import Metaheuristic.Proofs.Search.Lone

/-! Acceptance in annealing. What is better is always accepted, and chance accepts only what lies
at a finite distance, so a search that has left the worst value never returns to it. Without a
temperature chance accepts nothing, and the search stands at a best reward of its record. -/
namespace Metaheuristic

variable {ρ α : Type} [Scalar α] {d : Direction}

/-- The reward that the next agent has to beat. -/
def Record.level (d : Direction) (best : Option (Agent α)) : α :=
  (best.map Agent.leading).getD d.worst

namespace Annealing

/-- What an annealing makes of a candidate, and what it has settled on then. -/
inductive Decision (d : Direction) (s : State α) (before : Block α) (a : Agent α) :
    State α → Block α → Prop
  /-- It moves to what is better, and from the worst value to anything. -/
  | better (wins : (before.leading == d.worst) = true ∨
        d.isBetter a.leading before.leading = true) :
      Decision d s before a { s with acceptedBetter := s.acceptedBetter + 1 } a.block
  /-- With a temperature it moves by chance to what is finite. -/
  | chance (known : (before.leading == d.worst) = false)
      (notBetter : d.isBetter a.leading before.leading = false)
      (finite : Scalar.isFinite a.leading = true)
      (warm : (s.settings.maxTemperature == Scalar.zero) = false) :
      Decision d s before a { s with acceptedWorse := s.acceptedWorse + 1 } a.block
  /-- It stays where it is. -/
  | reject (known : (before.leading == d.worst) = false)
      (notBetter : d.isBetter a.leading before.leading = false) :
      Decision d s before a { s with rejected := s.rejected + 1 } before

namespace Decision

variable {s s' : State α} {before after : Block α} {a : Agent α} {best : Option (Agent α)}
  (decision : Decision d s before a s' after)

include decision

theorem either : after = before ∨ after = a.block := by
  cases decision with
  | better | chance => exact .inr rfl
  | reject => exact .inl rfl

theorem of_better (better : d.isBetter a.leading before.leading = true) :
    s' = { s with acceptedBetter := s.acceptedBetter + 1 } ∧ after = a.block := by
  cases decision with
  | better => exact ⟨rfl, rfl⟩
  | chance _ notBetter | reject _ notBetter =>
    rw [better] at notBetter
    contradiction

section Order

variable [Scalar.LawfulOrder α] [Scalar.LawfulEnds α]

/-- Neither what is better than something nor what is finite is the worst value. -/
theorem known (known : (before.leading == d.worst) = false) :
    (after.leading == d.worst) = false := by
  rw [Bool.eq_false_iff]
  intro worst
  have beaten := Direction.not_isBetter_of_eq_worst worst
  cases decision with
  | better wins =>
    rcases wins with worst' | better
    · rw [known] at worst'
      contradiction
    · exact absurd better (Bool.eq_false_iff.mp (beaten _))
  | chance _ _ finite =>
    exact absurd (Direction.finite_iff.mp finite).1 (Bool.eq_false_iff.mp (beaten _))
  | reject =>
    rw [known] at worst
    contradiction

section Cold

variable (cold : (s.settings.maxTemperature == Scalar.zero) = true)

include cold

theorem not_worse : s'.acceptedWorse = s.acceptedWorse ∧
    d.isBetter before.leading after.leading = false := by
  cases decision with
  | better wins =>
    refine ⟨rfl, ?_⟩
    rcases wins with worst | better
    · exact Direction.not_isBetter_of_eq_worst worst _
    · exact Direction.isBetter_asymm better
  | chance _ _ _ warm =>
    rw [cold] at warm
    contradiction
  | reject => exact ⟨rfl, Direction.isBetter_irrefl⟩

/-- A record that has seen the candidate has the reward that the search settles on, if it had it
before. -/
theorem level (defined : Scalar.isNaN a.leading = false)
    (level : (before.leading == Record.level d best) = true) :
    (after.leading == (Record.better d best a).leading) = true := by
  have own : (a.leading == a.leading) = true := Scalar.eq_refl defined
  cases best with
  | none =>
    cases decision with
    | better => exact own
    | chance _ _ _ warm =>
      rw [cold] at warm
      contradiction
    | reject known =>
      cases known.symm.trans level
  | some b =>
    have same : (before.leading == b.leading) = true := level
    unfold Record.better
    dsimp only
    rw [← Direction.isBetter_congr_right a.leading same]
    cases decision with
    | better wins =>
      split
      · exact own
      · rename_i notBetter
        rw [Bool.not_eq_true] at notBetter
        -- not better than the worst value, so the candidate has it too
        have worst : (before.leading == d.worst) = true := wins.resolve_right (by simp [notBetter])
        have number := (Scalar.LawfulOrder.eq_iff.mp same).1
        have level := (Direction.eq_iff_not_isBetter defined number).mpr
          ⟨notBetter, Direction.not_isBetter_of_eq_worst worst _⟩
        exact Scalar.eq_trans level same
    | chance _ _ _ warm =>
      rw [cold] at warm
      contradiction
    | reject _ notBetter =>
      rw [notBetter]
      exact same

end Cold
end Order
end Decision

variable [Scalar.LawfulOrder α] [Scalar.LawfulEnds α] [Scalar.LawfulDistance α] in
/-- What is accepted by chance is finite, and there was a temperature to begin with. -/
theorem Verdict.decision {s : State α} {progress : Progress} {p : Population α}
    {x : State α × Population α} {before : Block α} {a : Agent α}
    (verdict : Verdict (fun u => Scalar.lt u Scalar.zero = false) d progress a.leading
      before.leading s p x) :
    (p.promote 0 = .ok x.2 ∧ Decision d s before a x.1 a.block) ∨
      (x.2 = p ∧ Decision d s before a x.1 before) := by
  cases verdict with
  | better wins promoted => exact .inl ⟨promoted, .better wins⟩
  | chance known notBetter drawn lucky promoted =>
    obtain ⟨warm, near⟩ := of_lucky drawn lucky
    have finite := Scalar.LawfulDistance.finite_of_distance near
    refine .inl ⟨promoted, .chance known notBetter finite ?_⟩
    rw [Bool.eq_false_iff]
    intro cold
    rw [temperature_not_positive cold] at warm
    contradiction
  | reject known notBetter => exact .inr ⟨rfl, .reject known notBetter⟩

end Annealing

omit [Scalar α] in
theorem Algorithm.lone_of_annealing {a : Algorithm α} {settings : Annealing.Settings α}
    (annealing : a = .annealing settings) : a.Lone := by
  rw [annealing]
  trivial

namespace Run

/-- A search weighs a candidate, the last agent of the ledger, against what it has settled on. -/
structure Weighs (d : Direction) (run run' : Run ρ α) (s s' : Annealing.State α)
    (before after : Block α) (a : Agent α) : Prop where
  strategy : run.strategy = .annealing s
  next : run'.strategy = .annealing s'
  incumbent : run.Incumbent 0 before
  settled : run'.Incumbent 0 after
  candidate : run.ledger.log.getLast? = some a
  ledger : run'.ledger = run.ledger
  decision : Annealing.Decision d s before a s' after

variable [RandomSource ρ α] [Scalar.LawfulOrder α] [Scalar.LawfulEnds α] [Scalar.LawfulDistance α]
  {problem : Problem α} {config : Config α} {run : Run ρ α} {s : Annealing.State α} {r : Row α}
  {before : Block α}

/-- Every decision of an annealing is made. -/
theorem exists_weighs (draws : RandomSource.NonNegative ρ) (directions : problem.directions = [d])
    (lone : config.algorithm.Lone)
    (sized : run.population.Sized (problem.layout config.algorithm) config.agents)
    (strategy : run.strategy = .annealing s) (place : run.population.rows[0]? = some r)
    (candidate : run.ledger.log.getLast? = some r.trial.agent)
    (held : run.Incumbent 0 before) (progress : Progress) :
    ∃ run' s' after, (settle problem progress).run.run run = (.ok (), run') ∧
      run.Weighs d run' s s' before after r.trial.agent := by
  obtain ⟨phases, alone⟩ := lone.alone
  have objectives : (problem.layout config.algorithm).objectives = [d].length :=
    congrArg List.length directions
  have decided : Draw.Answers
      (Strategy.settle [d] progress run.population (.annealing s) : Draw ρ _) fun x =>
        ∃ s', x.1 = .annealing s' ∧
          Annealing.Verdict (fun u => Scalar.lt u Scalar.zero = false) d progress
            r.trial.agent.leading before.leading s run.population (s', x.2) := by
    refine ((Annealing.settle_answers progress (alone ▸ Nat.one_pos) (List.cons_ne_nil d [])
      objectives sized).and_yields (Annealing.settle_verdict (.unit_nonNegative draws) [d]
        progress s run.population)).bind fun x holds => .pure ⟨x.1, rfl, ?_⟩
    obtain ⟨_, _, candidate, current, first, readTrial, readIncumbent, verdict⟩ := holds
    cases first
    rw [Population.rewardAt_ok place readTrial, held.rewardAt readIncumbent] at verdict
    exact verdict
  obtain ⟨⟨_, population⟩, random, drawn, s', rfl, verdict⟩ := decided run.random
  rw [← strategy, ← directions] at drawn
  let run' : Run ρ α :=
    { run with strategy := .annealing s', population := population, random := random }
  have ran : (settle problem progress).run.run run = (.ok (), run') := by
    rw [settle, get_run, ofDraw_run drawn]
    rfl
  rcases verdict.decision with ⟨moved, decision⟩ | ⟨same, decision⟩
  · exact ⟨run', s', _, ran, strategy, rfl, held, .promoted phases sized place moved, candidate,
      rfl, decision⟩
  · exact ⟨run', s', before, ran, strategy, rfl, held,
      held.congr (congrArg Population.incumbents same), candidate, rfl, decision⟩

end Run

namespace Run

variable {initial : Block α} {run : Run ρ α}

/-- What a search has settled on is what it began with, or comes from the ledger. -/
def Traced (initial : Block α) (run : Run ρ α) : Prop :=
  ∃ b, run.Incumbent 0 b ∧ (b = initial ∨ ∃ a ∈ run.ledger.log, b = a.block)

/-- A search stands at the best reward of its record; after an evaluation at what this was before
the candidate. -/
def Levels (d : Direction) : Phase → Run ρ α → Prop
  | .ready, run => ∃ best b, run.ledger.record = .single d best ∧ run.Incumbent 0 b ∧
      (b.leading == Record.level d best) = true
  | .evaluated, run => ∃ best a b, run.ledger.log.getLast? = some a ∧
      run.ledger.record = .single d (some (Record.better d best a)) ∧ run.Incumbent 0 b ∧
      (b.leading == Record.level d best) = true
  | .settled, run => ∃ a b, run.ledger.record = .single d (some a) ∧ run.Incumbent 0 b ∧
      (b.leading == a.leading) = true

end Run

namespace Repeat

variable [RandomSource ρ α] {r : Repeat ρ α} {settings : Annealing.Settings α} {i k : Nat}
  {phase : Phase} {run run' : Run ρ α}

/-- A repeat of an annealing. -/
structure Anneals (r : Repeat ρ α) (settings : Annealing.Settings α) (d : Direction) : Prop where
  accepted : r.problem.Accepted r.config
  annealing : r.config.algorithm = .annealing settings
  directions : r.problem.directions = [d]
  draws : RandomSource.NonNegative ρ

namespace Anneals

variable (anneals : r.Anneals settings d)

include anneals

theorem lone : r.config.algorithm.Lone := Algorithm.lone_of_annealing anneals.annealing

theorem exists_state (reached : r.Reached i k phase run) :
    ∃ s, run.strategy = .annealing s ∧ s.settings = settings := by
  have algorithm := (reached.algorithm anneals.accepted).trans anneals.annealing
  cases strategy : run.strategy with
  | annealing s =>
    rw [strategy] at algorithm
    exact ⟨s, rfl, Algorithm.annealing.inj algorithm⟩
  | genetic | differential | tabu | greyWolf =>
    rw [strategy] at algorithm
    cases algorithm

theorem evaluate_incumbents (reached : r.Reached i k .ready run)
    (ran : (Run.evaluate r.problem r.round (r.progress i)).run.run run = (.ok (), run')) :
    run'.strategy = run.strategy ∧ run'.population.incumbents = run.population.incumbents ∧
      ∃ a, run'.ledger.log = run.ledger.log ++ [a] ∧
        run.ledger.record.observe a = .ok run'.ledger.record := by
  obtain ⟨row, _, strategy, same, log, observed⟩ := Run.evaluate_lone anneals.lone.alone.2
    reached.sound.sized (reached.evaluate ran).sound.sized ran
  exact ⟨strategy, same, _, log, observed⟩

theorem vary_incumbents (reached : r.Reached i k .settled run)
    (ran : (Run.vary (r.progress i)).run.run run = (.ok (), run')) :
    run'.strategy = run.strategy ∧ run'.population.incumbents = run.population.incumbents ∧
      run'.ledger = run.ledger :=
  Run.vary_lone anneals.lone (reached.algorithm anneals.accepted) ran

variable [Scalar.LawfulOrder α] [Scalar.LawfulEnds α] [Scalar.LawfulDistance α]

theorem exists_weighs (reached : r.Reached i k .evaluated run) :
    ∃ run' s s' before after a, s.settings = settings ∧
      (Run.settle r.problem (r.progress i)).run.run run = (.ok (), run') ∧
      run.Weighs d run' s s' before after a := by
  obtain ⟨s, strategy, same⟩ := anneals.exists_state reached
  obtain ⟨row, place, candidate⟩ := reached.exists_candidate anneals.lone
  obtain ⟨phases, alone⟩ := anneals.lone.alone
  obtain ⟨before, held⟩ := reached.sound.exists_incumbent phases (alone ▸ Nat.one_pos)
  obtain ⟨run', s', after, ran, weighs⟩ := Run.exists_weighs anneals.draws anneals.directions
    anneals.lone reached.sound.sized strategy place candidate held (r.progress i)
  exact ⟨run', s, s', before, after, _, same, ran, weighs⟩

theorem weighs (reached : r.Reached i k .evaluated run)
    (ran : (Run.settle r.problem (r.progress i)).run.run run = (.ok (), run')) :
    ∃ s s' before after a, s.settings = settings ∧ run.Weighs d run' s s' before after a := by
  obtain ⟨_, s, s', before, after, a, same, ran', weighs⟩ := anneals.exists_weighs reached
  rw [ran] at ran'
  cases ran'
  exact ⟨s, s', before, after, a, same, weighs⟩

/-- Once the worst value is left it stays left. -/
theorem keeps_known :
    r.Keeps fun _ run => ∀ b, run.Incumbent 0 b → (b.leading == d.worst) = false where
  evaluate reached known ran b held := by
    obtain ⟨_, same, _⟩ := anneals.evaluate_incumbents reached ran
    exact known b (held.congr same.symm)
  settle reached known ran b held := by
    obtain ⟨s, s', before, after, a, _, weighs⟩ := anneals.weighs reached ran
    rw [held.unique weighs.settled]
    exact weighs.decision.known (known before weighs.incumbent)
  vary reached known ran b held := by
    obtain ⟨_, same, _⟩ := anneals.vary_incumbents reached ran
    exact known b (held.congr same.symm)

theorem keeps_traced {initial : Block α} : r.Keeps fun _ run => run.Traced initial where
  evaluate reached traced ran := by
    obtain ⟨b, held, known⟩ := traced
    obtain ⟨_, same, a, log, _⟩ := anneals.evaluate_incumbents reached ran
    refine ⟨b, held.congr same, known.imp_right fun ⟨c, member, block⟩ => ⟨c, ?_, block⟩⟩
    exact log ▸ List.mem_append_left _ member
  settle reached traced ran := by
    obtain ⟨b, held, known⟩ := traced
    obtain ⟨s, s', before, after, a, _, weighs⟩ := anneals.weighs reached ran
    refine ⟨after, weighs.settled, ?_⟩
    rw [weighs.ledger]
    rcases weighs.decision.either with rfl | moved
    · exact held.unique weighs.incumbent ▸ known
    · exact .inr ⟨a, List.mem_of_getLast? weighs.candidate, moved⟩
  vary reached traced ran := by
    obtain ⟨b, held, known⟩ := traced
    obtain ⟨_, same, ledger⟩ := anneals.vary_incumbents reached ran
    exact ⟨b, held.congr same, ledger ▸ known⟩

section Cold

variable (cold : (settings.maxTemperature == Scalar.zero) = true)

include cold

theorem keeps_unlucky :
    r.Keeps fun _ run => ∃ s, run.strategy = .annealing s ∧ s.acceptedWorse = 0 where
  evaluate reached unlucky ran := by
    obtain ⟨s, strategy, none⟩ := unlucky
    obtain ⟨same, _⟩ := anneals.evaluate_incumbents reached ran
    exact ⟨s, same.trans strategy, none⟩
  settle reached unlucky ran := by
    obtain ⟨s, strategy, none⟩ := unlucky
    obtain ⟨_, s', _, _, _, own, weighs⟩ := anneals.weighs reached ran
    cases strategy.symm.trans weighs.strategy
    have same := (weighs.decision.not_worse (own ▸ cold)).1
    exact ⟨s', weighs.next, same.trans none⟩
  vary reached unlucky ran := by
    obtain ⟨s, strategy, none⟩ := unlucky
    obtain ⟨same, _⟩ := anneals.vary_incumbents reached ran
    exact ⟨s, same.trans strategy, none⟩

theorem keeps_levels : r.Keeps (Run.Levels d) where
  evaluate reached levels ran := by
    obtain ⟨best, b, record, held, level⟩ := levels
    obtain ⟨_, same, a, log, observed⟩ := anneals.evaluate_incumbents reached ran
    rw [record] at observed
    exact ⟨best, a, b, by rw [log, List.getLast?_concat], Record.observe_single observed,
      held.congr same, level⟩
  settle reached levels ran := by
    obtain ⟨best, a, b, last, record, held, level⟩ := levels
    obtain ⟨_, _, before, after, _, own, weighs⟩ := anneals.weighs reached ran
    cases last.symm.trans weighs.candidate
    cases held.unique weighs.incumbent
    have defined := (reached.sound.told.assessed a (List.mem_of_getLast? last)).leading_defined
      (congrArg List.head? anneals.directions)
    exact ⟨_, after, weighs.ledger ▸ record, weighs.settled,
      weighs.decision.level (own ▸ cold) defined level⟩
  vary reached levels ran := by
    obtain ⟨a, b, record, held, level⟩ := levels
    obtain ⟨_, same, ledger⟩ := anneals.vary_incumbents reached ran
    exact ⟨some a, b, ledger ▸ record, held.congr same, level⟩

end Cold
end Anneals
end Repeat

namespace Search

variable [RandomSource ρ α] [Scalar.LawfulOrder α] [Scalar.LawfulEnds α] [Scalar.LawfulDistance α]
  {problem : Problem α} {config : Config α} {model : Model α} {settings : Annealing.Settings α}

/-- How annealing accepts, over every source that draws no negative number from the unit interval.

Every decision is made. What is better than the block that a search has settled on is accepted.
Once this block does not have the worst value it never has it again, and at every place it is the
block of the beginning or that of an agent in the ledger. Without a temperature nothing worse is
accepted, whatever the cooling, and after every decision the search stands at the best reward of
its record. -/
theorem annealing_acceptance
    (made : Problem.make model config.penaltyCoefficient = .ok problem)
    (valid : config.validate = .ok ())
    (fitting : config.algorithm.validateFor config.agents problem.schema.objectives = .ok ())
    (annealing : config.algorithm = .annealing settings) (draws : RandomSource.NonNegative ρ)
    (round passes : Nat) (random : ρ) :
    let r : Repeat ρ α := ⟨problem, config, round, passes, random⟩
    ∃ d first initial, problem.directions = [d] ∧
      Run.start problem config passes random = .ok first ∧ first.Incumbent 0 initial ∧
      (∀ i k run, r.Reached i k .evaluated run → ∃ run' s s' before after a,
        s.settings = settings ∧
        (Run.settle problem (r.progress i)).run.run run = (.ok (), run') ∧
        run.Weighs d run' s s' before after a ∧
        (d.isBetter a.leading before.leading = true →
          s' = { s with acceptedBetter := s.acceptedBetter + 1 } ∧ after = a.block) ∧
        ((settings.maxTemperature == Scalar.zero) = true →
          d.isBetter before.leading after.leading = false)) ∧
      (∀ i k phase run j l phase' run' b b', r.Reached i k phase run →
        r.Reached j l phase' run' → Repeat.Since i k phase j l phase' →
        run.Incumbent 0 b → run'.Incumbent 0 b' →
        (b.leading == d.worst) = false → (b'.leading == d.worst) = false) ∧
      (∀ i k phase run, r.Reached i k phase run → run.Traced initial) ∧
      ((settings.maxTemperature == Scalar.zero) = true →
        (∀ i k phase run, r.Reached i k phase run →
          ∃ s, run.strategy = .annealing s ∧ s.acceptedWorse = 0) ∧
        ∀ i k run, r.Reached i k .settled run → ∃ a b,
          run.ledger.record = .single d (some a) ∧ run.Incumbent 0 b ∧
          (b.leading == a.leading) = true) := by
  intro r
  have accepted := Problem.accepted made valid fitting
  have lone := Algorithm.lone_of_annealing annealing
  obtain ⟨phases, alone⟩ := lone.alone
  obtain ⟨d, directions⟩ := accepted.exists_direction lone
  have anneals : r.Anneals settings d := ⟨accepted, annealing, directions, draws⟩
  obtain ⟨first, started, _⟩ := Run.exists_start problem config passes random
  obtain ⟨initial, held⟩ := (Run.start_sound started).exists_incumbent phases (alone ▸ Nat.one_pos)
  have begin_with {P : Run ρ α → Prop} (holds : P first) (run : Run ρ α)
      (started' : Run.start problem config passes random = .ok run) : P run := by
    cases started.symm.trans started'
    exact holds
  refine ⟨d, first, initial, directions, started, held, fun i k run reached => ?_,
    fun i k phase run j l phase' run' b b' reached reached' later held held' known => ?_,
    fun i k phase run => ?_, fun cold => ⟨fun i k phase run => ?_, fun i k run => ?_⟩⟩
  · obtain ⟨run', s, s', before, after, a, own, ran, weighs⟩ := anneals.exists_weighs reached
    exact ⟨run', s, s', before, after, a, own, ran, weighs, weighs.decision.of_better,
      fun cold => (weighs.decision.not_worse (own ▸ cold)).2⟩
  · have positive : 0 < config.algorithm.cycles := Algorithm.cycles_pos accepted.settings
    refine anneals.keeps_known.since positive reached (fun c stands => ?_) reached' later b' held'
    exact stands.unique held ▸ known
  · exact anneals.keeps_traced.reached (begin_with ⟨initial, held, .inl rfl⟩)
  · refine (anneals.keeps_unlucky cold).reached (begin_with ?_)
    obtain ⟨population, _, rfl⟩ := map_ok.mp started
    rw [annealing]
    exact ⟨_, rfl, rfl⟩
  · refine (anneals.keeps_levels cold).reached (begin_with ?_)
    have fresh := Run.start_incumbent phases started held
    obtain ⟨population, _, rfl⟩ := map_ok.mp started
    refine ⟨none, initial, ?_, held, ?_⟩
    · rw [directions]
      rfl
    · rw [Block.leading, fresh, directions]
      exact Scalar.eq_refl Direction.worst_defined

/-- Without a temperature two of four candidates are rejected, none is accepted by chance, and the
search stands at the best one. -/
theorem annealing_acceptance_budget :
    Problem.make Schema.budget.model budgetCooling.penaltyCoefficient = .ok budgetProblem ∧
    budgetCooling.validate = .ok () ∧
    budgetCooling.algorithm.validateFor budgetCooling.agents
      budgetProblem.schema.objectives = .ok () ∧
    budgetCooling.algorithm = .annealing ⟨0.0, 1, .linear⟩ ∧
    RandomSource.NonNegative (Generator Float) ∧
    ∃ o passes, attempt budgetProblem budgetCooling 0 0 (RandomSource.ofSeed 7 : Generator Float) =
        .ok (.ok o, passes) ∧ o.report.get? "rejected" = some 2 ∧
      ∃ run s a b, (⟨budgetProblem, budgetCooling, 0, 0, RandomSource.ofSeed 7⟩ :
          Repeat (Generator Float) Float).Reached 3 0 .settled run ∧
        run.strategy = .annealing s ∧ s.acceptedWorse = 0 ∧
        o.record = .single .maximize (some a) ∧ run.Incumbent 0 b ∧
        (b.leading == a.leading) = true := by
  have made : Problem.make Schema.budget.model budgetCooling.penaltyCoefficient =
      .ok budgetProblem := budget_made
  have valid : budgetCooling.validate = .ok () := by rfl
  have fitting : budgetCooling.algorithm.validateFor budgetCooling.agents
      budgetProblem.schema.objectives = .ok () := by rfl
  have draws : RandomSource.NonNegative (Generator Float) := Generator.nonNegative
  refine ⟨made, valid, fitting, rfl, draws, ?_⟩
  obtain ⟨⟨outcome, passes⟩, attempted, seen⟩ := exists_ok_of_any
    (x := attempt budgetProblem budgetCooling 0 0 (RandomSource.ofSeed 7 : Generator Float))
    (P := fun r => r.1.toOption.any fun o => o.report.get? "rejected" == some 2)
    (by decide +kernel)
  cases outcome with
  | error cause => cases seen
  | ok o =>
    simp only [Except.toOption, Option.any_some, beq_iff_eq] at seen
    obtain ⟨run, reached, record, _⟩ :=
      attempt_reached (active_of_valid valid fitting) attempted
    obtain ⟨d, _, _, directions, _, _, _, _, _, cold⟩ := annealing_acceptance made valid fitting rfl
      draws 0 0 (RandomSource.ofSeed 7 : Generator Float)
    cases directions
    obtain ⟨unlucky, levels⟩ := cold (by decide +kernel)
    obtain ⟨s, strategy, none⟩ := unlucky _ _ _ run reached
    obtain ⟨a, b, held, stands, level⟩ := levels _ _ run reached
    exact ⟨o, passes, attempted, seen, run, s, a, b, reached, strategy, none, record.trans held,
      stands, level⟩

end Search
end Metaheuristic
