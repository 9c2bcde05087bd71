import Metaheuristic.Proofs.Search.Lone
import Metaheuristic.Proofs.Strategy.Memory

/-! Aspiration in tabu search. The best reward that a search compares with changes only when it
moves, and the record sees every candidate. The two agree all the same, because a search does not
stay where it is when a candidate beats the best reward. -/
namespace Metaheuristic

variable {ρ α : Type} [Scalar α] {d : Direction}

namespace Tabu

variable {progress : Progress} {key : Key} {s : State α} {p : Population α}
  {x : State α × Population α} {best : Option (Agent α)} {a : Agent α}

section Best

variable (agrees : s.best = best.map Agent.leading)

include agrees

theorem better_of_aspires (wins : aspires d a.leading s = true) : Record.better d best a = a := by
  cases best with
  | none => rfl
  | some b =>
    rw [aspires, agrees] at wins
    exact if_pos wins

theorem better_of_not_aspires (loses : aspires d a.leading s = false) :
    best = some (Record.better d best a) := by
  rw [aspires, agrees] at loses
  cases best with
  | none => cases loses
  | some b =>
    have notBetter : ¬d.isBetter a.leading b.leading = true := by simpa using loses
    rw [Record.better, if_neg notBetter]

theorem best_of_not_aspires (loses : aspires d a.leading s = false) :
    s.best = some (Record.better d best a).leading :=
  agrees.trans (congrArg (Option.map Agent.leading) (better_of_not_aspires agrees loses))

/-- After a move the best reward is that of the better one of the best agent and the candidate. -/
theorem moved_best : (s.moved d a.leading).best = some (Record.better d best a).leading := by
  cases won : aspires d a.leading s with
  | true => rw [State.moved, if_pos won, better_of_aspires agrees won]
  | false =>
    rw [State.moved, if_neg (by simp [won])]
    exact best_of_not_aspires agrees won

end Best

/-- What a search takes for the best when it looks at a candidate. As long as it does not consult
its memory, this is where it stands. -/
structure Standing (progress : Progress) (s : State α) (p : Population α)
    (best : Option (Agent α)) : Prop where
  agrees : s.best = best.map Agent.leading
  begun : best = none ↔ progress.iteration = 0
  current : s.settings.strict = false → ∀ b, best = some b →
    ∀ x, p.rewardAt .incumbent 0 0 = .ok x → x = b.leading

namespace Standing

variable (standing : Standing progress s p best)

section Climbing

variable (climbing : s.settings.strict = false)

include standing climbing

/-- To beat the best reward is to beat the one where the search stands. -/
theorem aspires_eq {reward current : α} (later : progress.iteration ≠ 0)
    (read : p.rewardAt .incumbent 0 0 = .ok current) :
    aspires d reward s = d.isBetter reward current := by
  obtain ⟨b, rfl⟩ := Option.ne_none_iff_exists'.mp fun none => later (standing.begun.mp none)
  rw [aspires, standing.agrees, standing.current climbing b rfl _ read]
  rfl

/-- A search that does not consult its memory moves exactly to what is better than all before. -/
theorem moves_of_climbing (verdict : Verdict d progress a.leading key s p x) :
    p.promote 0 = .ok x.2 ∧ Record.better d best a = a ∨
      x.2 = p ∧ best = some (Record.better d best a) := by
  cases verdict with
  | enter allowed promoted =>
    have first : progress.iteration = 0 := allowed.resolve_right fun strict => by
      simp [climbing] at strict
    refine .inl ⟨promoted, ?_⟩
    rw [standing.begun.mpr first]
    rfl
  | climb later _ read better promoted =>
    have wins := (standing.aspires_eq climbing later read).trans better
    exact .inl ⟨promoted, better_of_aspires standing.agrees wins⟩
  | stay later _ read notBetter =>
    have loses := (standing.aspires_eq climbing later read).trans notBetter
    exact .inr ⟨rfl, better_of_not_aspires standing.agrees loses⟩
  | aspire strict | refuse _ strict => simp [climbing] at strict

end Climbing

include standing in
/-- A search that stays is not beaten by its candidate. -/
theorem best_of_verdict (verdict : Verdict d progress a.leading key s p x) :
    x.1.best = some (Record.better d best a).leading := by
  cases verdict with
  | enter | aspire | climb => exact moved_best standing.agrees
  | refuse _ _ _ loses => exact best_of_not_aspires standing.agrees loses
  | stay later climbing read notBetter =>
    exact best_of_not_aspires standing.agrees
      ((standing.aspires_eq climbing later read).trans notBetter)

end Standing

/-- Whichever way a decision goes it is counted, and a strict search stays only where its memory
holds the candidate. -/
theorem Verdict.counted {reward : α} (verdict : Verdict d progress reward key s p x) :
    p.promote 0 = .ok x.2 ∧ x.1.moves = s.moves + 1 ∧ x.1.rejected = s.rejected ∨
      x.2 = p ∧ x.1.moves = s.moves ∧ x.1.rejected = s.rejected + 1 ∧
        (s.settings.strict = true →
          s.memory.contains key = true ∧ aspires d reward s = false) := by
  cases verdict with
  | enter _ promoted | aspire _ _ _ promoted | climb _ _ _ _ promoted =>
    exact .inl ⟨promoted, rfl, rfl⟩
  | refuse _ _ known loses => exact .inr ⟨rfl, rfl, rfl, fun _ => ⟨known, loses⟩⟩
  | stay _ climbing => exact .inr ⟨rfl, rfl, rfl, fun strict => by simp [climbing] at strict⟩

/-- What the first candidate is remembered by is in memory afterwards. -/
theorem Verdict.remembers {reward : α} (first : progress.iteration = 0)
    (verdict : Verdict d progress reward key s p x) : x.1.memory.contains key = true := by
  cases verdict with
  | enter | aspire => exact Memory.contains_remember key
  | refuse later | climb later | stay later => exact absurd first later

/-- A strict search refuses what it knows and what does not beat the best reward. -/
theorem settle_of_known {reward : α} {genes : List α} {ds : List Direction}
    (later : progress.iteration ≠ 0) (strict : s.settings.strict = true)
    (readReward : p.rewardAt .trial 0 0 = .ok reward)
    (readGenes : p.chromosome 0 .trial = .ok genes)
    (known : s.memory.contains (keyOf s.settings genes) = true)
    (loses : aspires d reward s = false) :
    settle (d :: ds) progress s p =
      .ok ({ s with hits := s.hits + 1, rejected := s.rejected + 1 }, p) := by
  simp [settle, readReward, readGenes, bind, Except.bind, later, strict, known, loses, pure,
    Except.pure]

end Tabu

omit [Scalar α] in
theorem Algorithm.lone_of_tabu {a : Algorithm α} {settings : Tabu.Settings α}
    (tabu : a = .tabu settings) : a.Lone ∧ a.cycles = 1 := by
  rw [tabu]
  exact ⟨trivial, rfl⟩

variable [RandomSource ρ α]

namespace Run

variable {problem : Problem α} {config : Config α} {round i : Nat} {progress : Progress}
  {run run' : Run ρ α} {s : Tabu.State α} {best : Option (Agent α)} {a : Agent α}

/-- A tabu search whose best reward is that of an agent. As long as it does not consult its
memory, this agent is where it stands. -/
structure Agrees (best : Option (Agent α)) (s : Tabu.State α) (run : Run ρ α) : Prop where
  strategy : run.strategy = .tabu s
  agrees : s.best = best.map Agent.leading
  incumbent : s.settings.strict = false → ∀ a, best = some a → run.Incumbent 0 a.block

omit [RandomSource ρ α] in
theorem Agrees.settings {settings : Tabu.Settings α} (agrees : run.Agrees best s)
    (algorithm : run.strategy.algorithm = .tabu settings) : s.settings = settings := by
  rw [agrees.strategy] at algorithm
  exact Algorithm.tabu.inj algorithm

/-- A tabu search agrees with its record; after an evaluation with what its record was before
the candidate. -/
def Aspiring (d : Direction) (i : Nat) : Phase → Run ρ α → Prop
  | .ready, run => ∃ s best, run.Agrees best s ∧ run.ledger.record = .single d best ∧
      (best = none ↔ i = 0)
  | .evaluated, run => ∃ s best r, run.Agrees best s ∧ run.population.rows[0]? = some r ∧
      run.ledger.record = .single d (some (Record.better d best r.trial.agent)) ∧
      (best = none ↔ i = 0)
  | .settled, run => ∃ s a, run.Agrees (some a) s ∧ run.ledger.record = .single d (some a)

omit [RandomSource ρ α] in
theorem Aspiring.evaluate (aspiring : Aspiring d i .ready run) (alone : config.agents = 1)
    (sized : run.population.Sized (problem.layout config.algorithm) config.agents)
    (sized' : run'.population.Sized (problem.layout config.algorithm) config.agents)
    (ran : (evaluate problem round progress).run.run run = (.ok (), run')) :
    Aspiring d i .evaluated run' := by
  obtain ⟨s, best, agrees, record, begun⟩ := aspiring
  obtain ⟨r, place, strategy, same, _, observed⟩ := evaluate_lone alone sized sized' ran
  rw [record] at observed
  exact ⟨s, best, r, ⟨strategy.trans agrees.strategy, agrees.agrees, fun climbing a held =>
    (agrees.incumbent climbing a held).congr same⟩, place, Record.observe_single observed, begun⟩

/-- The decision of a tabu search about the trial of its one row. -/
theorem settle_verdict (directions : problem.directions = [d]) (alone : config.agents = 1)
    (sized : run.population.Sized (problem.layout config.algorithm) config.agents)
    (strategy : run.strategy = .tabu s) {r : Row α} (place : run.population.rows[0]? = some r)
    (ran : (settle problem progress).run.run run = (.ok (), run')) :
    ∃ s', run'.strategy = .tabu s' ∧ run'.ledger = run.ledger ∧
      Tabu.Verdict d progress r.trial.agent.leading (Tabu.keyOf s.settings r.trial.genes) s
        run.population (s', run'.population) := by
  obtain ⟨_, _, _, drawn, rfl⟩ := settle_ok ran
  rw [strategy, directions] at drawn
  have decided : Draw.Yields
      (Strategy.settle [d] progress run.population (.tabu s) : Draw ρ _) fun x =>
        ∃ s', x.1 = .tabu s' ∧ Tabu.Verdict d progress r.trial.agent.leading
          (Tabu.keyOf s.settings r.trial.genes) s run.population (s', x.2) := by
    refine (Draw.Yields.ofExcept fun x ran => ?_).bind fun x verdict => .pure ⟨x.1, rfl, verdict⟩
    obtain ⟨_, reward, genes, first, readReward, readGenes, verdict⟩ := Tabu.settle_verdict ran
    cases first
    obtain ⟨_, held, rfl⟩ := Population.field_ok sized (alone ▸ Nat.one_pos) readGenes
    cases place.symm.trans held
    rw [Population.rewardAt_ok place readReward] at verdict
    exact verdict
  obtain ⟨s', rfl, verdict⟩ := decided _ _ _ trivial drawn
  exact ⟨s', rfl, rfl, verdict⟩

omit [RandomSource ρ α] in
theorem Agrees.standing (agrees : run.Agrees best s)
    (begun : best = none ↔ progress.iteration = 0) :
    Tabu.Standing progress s run.population best := by
  exact ⟨agrees.agrees, begun, fun climbing b held x read =>
    (agrees.incumbent climbing b held).rewardAt read⟩

theorem Aspiring.settle (aspiring : Aspiring d progress.iteration .evaluated run)
    (directions : problem.directions = [d]) (alone : config.agents = 1)
    (phases : config.algorithm.twoPhase = true)
    (sized : run.population.Sized (problem.layout config.algorithm) config.agents)
    (ran : (settle problem progress).run.run run = (.ok (), run')) :
    Aspiring d progress.iteration .settled run' := by
  obtain ⟨s, best, r, agrees, place, record, begun⟩ := aspiring
  obtain ⟨s', strategy, ledger, verdict⟩ :=
    settle_verdict directions alone sized agrees.strategy place ran
  have standing := agrees.standing begun
  refine ⟨s', _, ⟨strategy, standing.best_of_verdict verdict, fun climbing a held => ?_⟩,
    ledger ▸ record⟩
  cases held
  have lenient : s.settings.strict = false := verdict.settings ▸ climbing
  rcases standing.moves_of_climbing lenient verdict with ⟨moved, new⟩ | ⟨same, old⟩
  · rw [new]
    exact .promoted phases sized place moved
  · have kept := agrees.incumbent lenient _ old
    exact kept.congr (congrArg Population.incumbents same)

theorem Aspiring.vary (aspiring : Aspiring d i .settled run)
    (lone : config.algorithm.Lone) (algorithm : run.strategy.algorithm = config.algorithm)
    (ran : (vary progress).run.run run = (.ok (), run')) : Aspiring d (i + 1) .ready run' := by
  obtain ⟨s, a, agrees, record⟩ := aspiring
  obtain ⟨strategy, same, ledger⟩ := vary_lone lone algorithm ran
  exact ⟨s, some a, ⟨strategy.trans agrees.strategy, agrees.agrees, fun climbing b held =>
    (agrees.incumbent climbing b held).congr same⟩, ledger ▸ record, by simp⟩

/-- An update that moves to a candidate. -/
structure Accepts (run' : Run ρ α) (s s' : Tabu.State α) (a : Agent α) : Prop where
  incumbent : run'.Incumbent 0 a.block
  moves : s'.moves = s.moves + 1
  rejected : s'.rejected = s.rejected

/-- An update that leaves everything as it was and counts the rejection. -/
structure Rejects (run run' : Run ρ α) (s s' : Tabu.State α) : Prop where
  incumbents : run'.population.incumbents = run.population.incumbents
  moves : s'.moves = s.moves
  rejected : s'.rejected = s.rejected + 1

omit [Scalar α] [RandomSource ρ α] in
theorem Accepts.not_rejects {run run' : Run ρ α} {s s' : Tabu.State α} {a : Agent α}
    (accepts : Accepts run' s s' a) : ¬Rejects run run' s s' :=
  fun rejects => Nat.succ_ne_self s.moves (accepts.moves.symm.trans rejects.moves)

/-- How a tabu search judges the one candidate of an update. It moves to the candidate or rejects
it. What a strict search rejects was in memory and does not beat the best candidate until then. -/
structure Judges (d : Direction) (run run' : Run ρ α) (s s' : Tabu.State α) (a : Agent α) :
    Prop where
  before : run.strategy = .tabu s
  after : run'.strategy = .tabu s'
  entered : run'.ledger.log = run.ledger.log ++ [a]
  decided : Accepts run' s s' a ∨ Rejects run run' s s'
  rejected : s.settings.strict = true → Rejects run run' s s' →
    s.memory.contains (Tabu.keyOf s.settings a.chromosome) = true ∧
      ∃ b, Record.FirstBest d run.ledger.log b ∧ d.isBetter a.leading b.leading = false
  unknown : s.settings.strict = true →
    s.memory.contains (Tabu.keyOf s.settings a.chromosome) = false → Accepts run' s s' a

end Run

namespace Repeat

variable {r : Repeat ρ α} {settings : Tabu.Settings α} {i k : Nat} {phase : Phase}
  {run run' : Run ρ α}

/-- By induction on the steps of the repeat. -/
theorem Reached.aspiring (accepted : r.problem.Accepted r.config)
    (tabu : r.config.algorithm = .tabu settings) (directions : r.problem.directions = [d])
    (reached : r.Reached i k phase run) : run.Aspiring d i phase := by
  obtain ⟨lone, once⟩ := Algorithm.lone_of_tabu tabu
  obtain ⟨phases, alone⟩ := lone.alone
  induction reached with
  | start started =>
    obtain ⟨population, _, rfl⟩ := map_ok.mp started
    refine ⟨_, none, ⟨by rw [tabu]; rfl, rfl, fun _ _ => nofun⟩, ?_, by simp⟩
    rw [directions]
    rfl
  | evaluate before ran aspiring =>
    exact aspiring.evaluate alone before.sound.sized (before.evaluate ran).sound.sized ran
  | settle before ran aspiring =>
    exact Run.Aspiring.settle aspiring directions alone phases before.sound.sized ran
  | within before more ran aspiring => omega
  | after before last more ran aspiring =>
    exact aspiring.vary lone (before.algorithm accepted) ran

variable [Scalar.LawfulOrder α]

/-- What the record of a tabu search holds after an update. -/
theorem Reached.recorded (accepted : r.problem.Accepted r.config)
    (tabu : r.config.algorithm = .tabu settings) (directions : r.problem.directions = [d])
    (reached : r.Reached i k .settled run) : ∃ s a, run.strategy = .tabu s ∧
      run.ledger.record = .single d (some a) ∧ s.best = some a.leading ∧
      Record.FirstBest d run.ledger.log a ∧
      (settings.strict = false → run.Incumbent 0 a.block) := by
  obtain ⟨s, a, agrees, record⟩ := reached.aspiring accepted tabu directions
  have own := agrees.settings ((reached.algorithm accepted).trans tabu)
  refine ⟨s, a, agrees.strategy, record, agrees.agrees, ?_, fun lenient =>
    agrees.incumbent (own ▸ lenient) a rfl⟩
  rcases reached.sound.told.tracks directions with ⟨_, none⟩ | ⟨b, same, first⟩
  · cases record.symm.trans none
  · cases record.symm.trans same
    exact first

/-- How an update of a tabu search goes. -/
theorem Reached.judges (accepted : r.problem.Accepted r.config)
    (tabu : r.config.algorithm = .tabu settings) (directions : r.problem.directions = [d])
    (reached : r.Reached i k .ready run)
    (ran : (Run.update r.problem r.round (r.progress i) r.config.algorithm.cycles).run.run run =
      (.ok (), run')) :
    ∃ s s' a, s.settings = settings ∧ Run.Judges d run run' s s' a := by
  obtain ⟨lone, once⟩ := Algorithm.lone_of_tabu tabu
  obtain ⟨phases, alone⟩ := lone.alone
  obtain ⟨s, best, agrees, record, begun⟩ := reached.aspiring accepted tabu directions
  have own := agrees.settings ((reached.algorithm accepted).trans tabu)
  rw [once] at ran
  obtain ⟨_, middle, evaluated, ran⟩ := run_bind_ok ran
  obtain ⟨_, last, settled, ran⟩ := run_bind_ok ran
  cases ran
  have sized := (reached.evaluate evaluated).sound.sized
  obtain ⟨row, place, strategy, same, log, _⟩ :=
    Run.evaluate_lone alone reached.sound.sized sized evaluated
  obtain ⟨s', after, ledger, verdict⟩ :=
    Run.settle_verdict directions alone sized (strategy.trans agrees.strategy) place settled
  have entered : run'.ledger.log = run.ledger.log ++ [row.trial.agent] := by
    rw [ledger, log]
  refine ⟨s, s', row.trial.agent, own, ?_⟩
  rcases verdict.counted with ⟨moved, moves, rejected⟩ | ⟨stayed, moves, rejected, refused⟩
  · have accepts : Run.Accepts run' s s' row.trial.agent :=
      ⟨.promoted phases sized place moved, moves, rejected⟩
    exact ⟨agrees.strategy, after, entered, .inl accepts,
      fun _ rejects => absurd rejects accepts.not_rejects, fun _ _ => accepts⟩
  · have kept : run'.population = middle.population := stayed
    refine ⟨agrees.strategy, after, entered, .inr ⟨kept ▸ same, moves, rejected⟩,
      fun strict _ => ?_, fun strict unknown => ?_⟩
    · obtain ⟨known, loses⟩ := refused strict
      refine ⟨known, ?_⟩
      rcases reached.sound.told.tracks directions with ⟨_, none⟩ | ⟨b, some, first⟩
      · cases record.symm.trans none
        rw [Tabu.aspires, agrees.agrees] at loses
        cases loses
      · cases record.symm.trans some
        rw [Tabu.aspires, agrees.agrees] at loses
        exact ⟨b, first, loses⟩
    · cases unknown.symm.trans (refused strict).1

omit [Scalar.LawfulOrder α] in
/-- A strict search rejects a second candidate that is where the first one was and does not beat
it. -/
theorem Reached.rejects_again (accepted : r.problem.Accepted r.config)
    (tabu : r.config.algorithm = .tabu settings) (strict : settings.strict = true)
    (directions : r.problem.directions = [d]) {first middle second : Run ρ α}
    (evaluated : r.Reached 0 0 .evaluated first)
    (settled : (Run.settle r.problem (r.progress 0)).run.run first = (.ok (), middle))
    (ready : r.Reached 1 0 .ready run)
    (varied : (Run.vary (r.progress 0)).run.run middle = (.ok (), run))
    (again : (Run.evaluate r.problem r.round (r.progress 1)).run.run run = (.ok (), second))
    (returns : ∀ row ∈ first.population.rows, ∀ row' ∈ second.population.rows,
      Tabu.keyOf settings row'.trial.genes = Tabu.keyOf settings row.trial.genes ∧
        d.isBetter row'.trial.agent.leading row.trial.agent.leading = false) :
    ∃ run' s s', (Run.update r.problem r.round (r.progress 1) 1).run.run run = (.ok (), run') ∧
      run.strategy = .tabu s ∧ run'.strategy = .tabu s' ∧ s'.rejected = s.rejected + 1 := by
  obtain ⟨lone, once⟩ := Algorithm.lone_of_tabu tabu
  obtain ⟨_, alone⟩ := lone.alone
  have sized := (ready.evaluate again).sound.sized
  -- What the first candidate leaves behind.
  obtain ⟨s₀, best, row, agrees, place, record, begun⟩ := evaluated.aspiring accepted tabu directions
  obtain ⟨s, strategy, ledger, verdict⟩ :=
    Run.settle_verdict directions alone evaluated.sound.sized agrees.strategy place settled
  have known := verdict.remembers rfl
  have entered := (agrees.standing begun).best_of_verdict verdict
  rw [begun.mpr rfl] at entered
  have own : s₀.settings = settings := agrees.settings ((evaluated.algorithm accepted).trans tabu)
  rw [own] at known
  -- What the second one finds.
  have kept : run.strategy = .tabu s :=
    (Run.vary_lone lone ((evaluated.settle settled).algorithm accepted) varied).1.trans strategy
  obtain ⟨row', place', same, _⟩ := Run.evaluate_lone alone ready.sound.sized sized again
  obtain ⟨key, loses⟩ :=
    returns row (List.mem_of_getElem? place) row' (List.mem_of_getElem? place')
  obtain ⟨reward, readReward⟩ := sized.exists_rewardAt (k := 0) (alone ▸ Nat.one_pos)
    (List.length_pos_iff.mpr accepted.directed) .trial
  rw [Population.rewardAt_ok place' readReward] at readReward
  have settings' : s.settings = settings := verdict.settings.trans own
  have refused : Tabu.settle [d] (r.progress 1) s second.population = .ok
      ({ s with hits := s.hits + 1, rejected := s.rejected + 1 }, second.population) := by
    refine Tabu.settle_of_known Nat.one_ne_zero (settings' ▸ strict) readReward
      (sized.read_chromosome place' .trial) ?_ ?_
    · rw [settings', Row.block, key]
      exact known
    · rw [Tabu.aspires, entered]
      exact loses
  have drawn : (second.strategy.settle r.problem.directions (r.progress 1) second.population).run.run
      second.random = (.ok (.tabu { s with hits := s.hits + 1, rejected := s.rejected + 1 },
        second.population), second.random) := by
    rw [same, kept, directions, Strategy.settle, refused]
    rfl
  refine ⟨{ second with
    strategy := .tabu { s with hits := s.hits + 1, rejected := s.rejected + 1 } }, s, _, ?_, kept,
    rfl, rfl⟩
  rw [Run.update, run_bind_of_ok again, Run.settle, bind_assoc, Run.get_run, bind_assoc,
    Run.ofDraw_run drawn]
  rfl

end Repeat

namespace Search

variable [Scalar.LawfulOrder α] {problem : Problem α} {config : Config α} {model : Model α}
  {settings : Tabu.Settings α}

/-- Tabu search and its record agree on what is best.

After every update of a repeat the best reward of the search is that of the agent in the record,
the first of the best agents that were evaluated, whether the search moved to them or not. A search
that does not consult its memory stands at this very agent.

In every update the one candidate is moved to or rejected. A strict search rejects only what is in
its memory and does not beat the best candidate until then, and what is not in its memory it moves
to. -/
theorem tabu_agrees_with_record
    (made : Problem.make model config.penaltyCoefficient = .ok problem)
    (valid : config.validate = .ok ())
    (fitting : config.algorithm.validateFor config.agents problem.schema.objectives = .ok ())
    (tabu : config.algorithm = .tabu settings) (round passes : Nat) (random : ρ) :
    let r : Repeat ρ α := ⟨problem, config, round, passes, random⟩
    ∃ d, problem.directions = [d] ∧
      (∀ i k run, r.Reached i k .settled run → ∃ s a, run.strategy = .tabu s ∧
        run.ledger.record = .single d (some a) ∧ s.best = some a.leading ∧
        Record.FirstBest d run.ledger.log a ∧
        (settings.strict = false → run.Incumbent 0 a.block)) ∧
      ∀ i k run run', r.Reached i k .ready run →
        (Run.update problem round (r.progress i) config.algorithm.cycles).run.run run =
          (.ok (), run') →
        ∃ s s' a, s.settings = settings ∧ Run.Judges d run run' s s' a := by
  intro r
  have accepted := Problem.accepted made valid fitting
  obtain ⟨d, directions⟩ := accepted.exists_direction (Algorithm.lone_of_tabu tabu).1
  exact ⟨d, directions, fun i k run reached => reached.recorded accepted tabu directions,
    fun i k run run' reached ran => reached.judges accepted tabu directions ran⟩

/-- A longer tabu search, carried out once. -/
def budgetClimbing : Config Float := { budgetSearch with iterations := 7, repeats := 1 }

/-- A strict search that only tells zeros from ones. -/
def budgetGridSettings : Tabu.Settings Float :=
  (Tabu.Settings.default.withStrict true).withResolution 1.0

def budgetGrid : Config Float :=
  { budgetSearch with algorithm := .tabu budgetGridSettings, repeats := 1 }

def budgetGridRepeat : Repeat (Generator Float) Float :=
  ⟨budgetProblem, budgetGrid, 0, 0, RandomSource.ofSeed 7⟩

theorem budgetGrid_made :
    Problem.make Schema.budget.model budgetGrid.penaltyCoefficient = .ok budgetProblem :=
  budget_made

theorem budgetGrid_accepted : budgetProblem.Accepted budgetGrid :=
  Problem.accepted budgetGrid_made (by rfl) (by rfl)

/-- It rejects its second candidate. -/
theorem budgetGrid_rejects : ∃ run run' s s', budgetGridRepeat.Reached 1 0 .ready run ∧
    (Run.update budgetProblem 0 (budgetGridRepeat.progress 1) 1).run.run run = (.ok (), run') ∧
    run.strategy = .tabu s ∧ run'.strategy = .tabu s' ∧ s'.rejected = s.rejected + 1 := by
  let look (i : Nat) : Stepping (Generator Float) Float Unit :=
    Run.evaluate budgetProblem 0 (budgetGridRepeat.progress i)
  let opening : Stepping (Generator Float) Float Unit := do
    look 0
    Run.settle budgetProblem (budgetGridRepeat.progress 0)
    Run.vary (budgetGridRepeat.progress 0)
    look 1
  obtain ⟨start, started, opens, returns⟩ := exists_ok_of_any
    (x := Run.start budgetProblem budgetGrid 0 (RandomSource.ofSeed 7 : Generator Float))
    (P := fun run => (opening.run.run run).1.isOk = true ∧
      ∀ row ∈ ((look 0).run.run run).2.population.rows,
      ∀ row' ∈ (opening.run.run run).2.population.rows,
        Tabu.keyOf budgetGridSettings row'.trial.genes =
          Tabu.keyOf budgetGridSettings row.trial.genes ∧
        Direction.maximize.isBetter row'.trial.agent.leading row.trial.agent.leading = false)
    (by decide +kernel)
  obtain ⟨second, opened⟩ : ∃ second, opening.run.run start = (.ok (), second) := by
    cases whole : opening.run.run start with
    | mk result second =>
      rw [whole] at opens
      cases result with
      | error failure => cases opens
      | ok _ => exact ⟨second, rfl⟩
  obtain ⟨_, first, looked, rest⟩ := run_bind_ok opened
  obtain ⟨_, middle, settled, rest⟩ := run_bind_ok rest
  obtain ⟨_, run, varied, again⟩ := run_bind_ok rest
  rw [looked, opened] at returns
  have evaluated : budgetGridRepeat.Reached 0 0 .evaluated first := .evaluate (.start started) looked
  have ready : budgetGridRepeat.Reached 1 0 .ready run :=
    .after (.settle evaluated settled) rfl (by decide) varied
  obtain ⟨run', s, s', ran, before, after, counted⟩ :=
    evaluated.rejects_again budgetGrid_accepted rfl rfl rfl settled ready varied again returns
  exact ⟨run, run', s, s', ready, ran, before, after, counted⟩

/-- The climbing search rejects five of its seven candidates and stands at the best one. The strict
search rejects a candidate that it knows and that does not beat the first one. -/
theorem tabu_agrees_with_record_budget :
    Problem.make Schema.budget.model budgetClimbing.penaltyCoefficient = .ok budgetProblem ∧
    budgetClimbing.validate = .ok () ∧
    budgetClimbing.algorithm.validateFor budgetClimbing.agents
      budgetProblem.schema.objectives = .ok () ∧
    budgetClimbing.algorithm = .tabu .default ∧
    (∃ o passes, attempt budgetProblem budgetClimbing 0 0
        (RandomSource.ofSeed 7 : Generator Float) = .ok (.ok o, passes) ∧
      o.report.get? "rejected" = some 5 ∧
      ∃ run s a, (⟨budgetProblem, budgetClimbing, 0, 0, RandomSource.ofSeed 7⟩ :
          Repeat (Generator Float) Float).Reached 6 0 .settled run ∧
        run.strategy = .tabu s ∧ o.record = .single .maximize (some a) ∧
        s.best = some a.leading ∧ Record.FirstBest .maximize o.log a ∧
        run.Incumbent 0 a.block) ∧
    ∃ run run' s s' a b, budgetGridRepeat.Reached 1 0 .ready run ∧
      (Run.update budgetProblem 0 (budgetGridRepeat.progress 1) 1).run.run run = (.ok (), run') ∧
      s.settings.strict = true ∧ Run.Judges .maximize run run' s s' a ∧
      Run.Rejects run run' s s' ∧
      s.memory.contains (Tabu.keyOf s.settings a.chromosome) = true ∧
      Record.FirstBest .maximize run.ledger.log b ∧
      Direction.maximize.isBetter a.leading b.leading = false := by
  have made : Problem.make Schema.budget.model budgetClimbing.penaltyCoefficient =
      .ok budgetProblem := budget_made
  have valid : budgetClimbing.validate = .ok () := by rfl
  have fitting : budgetClimbing.algorithm.validateFor budgetClimbing.agents
      budgetProblem.schema.objectives = .ok () := by rfl
  refine ⟨made, valid, fitting, rfl, ?climbing, ?strict⟩
  case climbing =>
    obtain ⟨⟨outcome, passes⟩, attempted, seen⟩ := exists_ok_of_any
      (x := attempt budgetProblem budgetClimbing 0 0 (RandomSource.ofSeed 7 : Generator Float))
      (P := fun r => r.1.toOption.any fun o => o.report.get? "rejected" == some 5)
      (by decide +kernel)
    cases outcome with
    | error cause => cases seen
    | ok o =>
      simp only [Except.toOption, Option.any_some, beq_iff_eq] at seen
      obtain ⟨run, reached, record, log, _⟩ :=
        attempt_reached (active_of_valid valid fitting) attempted
      obtain ⟨d, directions, settled, _⟩ := tabu_agrees_with_record made valid fitting rfl 0 0
        (RandomSource.ofSeed 7 : Generator Float)
      cases directions
      obtain ⟨s, a, strategy, held, best, first, stands⟩ := settled _ _ run reached
      exact ⟨o, passes, attempted, seen, run, s, a, reached, strategy, record.trans held, best,
        log ▸ first, stands rfl⟩
  case strict =>
    obtain ⟨d, directions, _, judged⟩ := tabu_agrees_with_record budgetGrid_made (by rfl)
      (by rfl) rfl 0 0 (RandomSource.ofSeed 7 : Generator Float)
    cases directions
    obtain ⟨run, run', s, s', ready, ran, before, after, counted⟩ := budgetGrid_rejects
    obtain ⟨_, _, a, own, judges⟩ := judged 1 0 run run' ready ran
    cases judges.before.symm.trans before
    cases judges.after.symm.trans after
    have strict : s.settings.strict = true := own ▸ rfl
    have rejects : Run.Rejects run run' s s' := judges.decided.resolve_left fun accepts =>
      Nat.succ_ne_self s.rejected (counted.symm.trans accepts.rejected)
    obtain ⟨known, b, best, loses⟩ := judges.rejected strict rejects
    exact ⟨run, run', s, s', a, b, ready, ran, strict, judges, rejects, known, best, loses⟩

end Search
end Metaheuristic
