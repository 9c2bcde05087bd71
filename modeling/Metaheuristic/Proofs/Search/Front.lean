import Metaheuristic.Proofs.Quality.Bounded
import Metaheuristic.Proofs.Search.Coverage
import Metaheuristic.Proofs.Search.Isolation

/-! What a search with several objectives reports: a front of the agents that were evaluated
in its successful repeats, the best in the first objective first.

The repeats fill an archive each, and the archives are merged in order. What holds of an
archive given all that was offered to it survives merging, so it holds of the last archive
given all that was evaluated. Reporting puts the members in order and checks them once more,
which shows their rewards and statuses as they are. -/
namespace Metaheuristic

variable {ρ α : Type} [Scalar α]

namespace Record

/-- Reporting puts the agents in order and does no more. -/
theorem reported_perm (r : Record α) : r.reported.Perm r.held := by
  cases r with
  | single d best => exact .refl _
  | archive s =>
    unfold reported
    dsimp only
    split
    · exact .refl _
    · exact List.mergeSort_perm ..

/-- No reported agent is better in the first objective than one before it, when all rewards
are numbers. -/
theorem reported_ordered [Scalar.LawfulOrder α] {s : Archive α} {d : Direction}
    (towards : s.directions.head? = some d)
    (defined : ∀ a ∈ s.members, Scalar.isNaN a.leading = false) :
    (archive s).reported.Pairwise fun a b => d.isBetter b.leading a.leading = false := by
  obtain ⟨ds, directions⟩ := List.head?_eq_some_iff.mp towards
  have sorted : (archive s).reported.Pairwise fun a b =>
      (d.compare a.leading b.leading != .gt) = true := by
    rw [reported, directions]
    exact List.pairwise_mergeSort
      (fun a b c => Direction.compare_trans a.leading b.leading c.leading)
      (fun a b => Direction.compare_total a.leading b.leading) s.members
  refine sorted.imp_of_mem fun {a b} _ later ordered => ?_
  have number := defined b (mem_reported.mp later)
  rcases Direction.compare_ne_gt.mp ordered with undefined | ⟨_, behind⟩
  · rw [number] at undefined
    contradiction
  · exact behind

end Record

/-- An agent with finite rewards leads with a number. -/
theorem Agent.leads_of_finite [Scalar.LawfulOrder α] {a : Agent α} (some : a.reward ≠ [])
    (finite : ∀ x ∈ a.reward, Scalar.isFinite x = true) :
    a.reward.head? = .some a.leading ∧ Scalar.isNaN a.leading = false := by
  obtain ⟨x, rest, reward⟩ := List.exists_cons_of_ne_nil some
  rw [Agent.leading, reward]
  rw [reward] at finite
  exact ⟨rfl, Scalar.defined_of_finite (finite x List.mem_cons_self)⟩

/-- The archive of a repeat, given all that the repeat evaluated. -/
theorem Problem.Told.kept [Scalar.LawfulOrder α] {problem : Problem α} {config : Config α}
    {log : List (Agent α)} {record : Record α} (told : problem.Told config log record)
    (several : 1 < problem.directions.length) :
    ∃ s, record = .archive s ∧
      Archive.Kept problem.directions config.archiveCapacity log s := by
  have sized : Archive.Sized problem.directions log := fun a logged =>
    (told.assessed a logged).rewards
  obtain ⟨s, filled, kept⟩ :=
    (Archive.Kept.empty problem.directions config.archiveCapacity).insertAll (v := log) sized
  have recorded := told.recorded
  rw [Record.empty_several several, Record.observeAll_archive, filled] at recorded
  cases recorded
  exact ⟨s, rfl, kept⟩

/-- A bound on the archive leaves room for an agent. -/
theorem Config.validate_capacity {c : Config α} {capacity : Nat} (valid : c.validate = .ok ())
    (bound : c.archiveCapacity = some capacity) : 0 < capacity := by
  obtain ⟨_, _, rest⟩ := bind_ok.mp valid
  obtain ⟨_, _, rest⟩ := bind_ok.mp rest
  obtain ⟨_, _, rest⟩ := bind_ok.mp rest
  rw [bound] at rest
  obtain ⟨_, required, _⟩ := bind_ok.mp rest
  exact requireCount_ok required

namespace Search

/-- Candidates with the rewards and the statuses of agents, in the same order. -/
def Shows (candidates : List (Candidate α)) (agents : List (Agent α)) : Prop :=
  candidates.map (fun c => (c.reward, c.status)) = agents.map fun a => (a.reward, a.status)

namespace Shows

variable {candidates : List (Candidate α)} {agents : List (Agent α)}

omit [Scalar α] in
theorem rewards (shown : Shows candidates agents) :
    candidates.map (·.reward) = agents.map (·.reward) := by
  have firsts := congrArg (List.map Prod.fst) shown
  rwa [List.map_map, List.map_map] at firsts

omit [Scalar α] in
theorem length (shown : Shows candidates agents) : candidates.length = agents.length := by
  have lengths := congrArg List.length shown
  rwa [List.length_map, List.length_map] at lengths

omit [Scalar α] in
theorem exists_agent (shown : Shows candidates agents) {c : Candidate α}
    (listed : c ∈ candidates) : ∃ a ∈ agents, c.reward = a.reward ∧ c.status = a.status := by
  have pair := List.mem_map_of_mem (f := fun c : Candidate α => (c.reward, c.status)) listed
  rw [shown] at pair
  obtain ⟨a, member, same⟩ := List.mem_map.mp pair
  exact ⟨a, member, (congrArg Prod.fst same).symm, (congrArg Prod.snd same).symm⟩

omit [Scalar α] in
/-- What holds of the rewards of any two agents holds of those of their candidates. -/
theorem pairwise (shown : Shows candidates agents) {R : List α → List α → Prop}
    (ordered : agents.Pairwise fun a b => R a.reward b.reward) :
    candidates.Pairwise fun c c' => R c.reward c'.reward := by
  have related : (agents.map (·.reward)).Pairwise R := List.pairwise_map.mpr ordered
  rw [← shown.rewards] at related
  exact List.pairwise_map.mp related

omit [Scalar α] in
/-- When all agents are feasible, nothing feasible was found only if there are none. -/
theorem lacksFeasible_iff (shown : Shows candidates agents)
    (feasible : ∀ a ∈ agents, a.status.isFeasible = true) :
    lacksFeasible candidates = true ↔ agents = [] := by
  cases candidates with
  | nil =>
    have length := shown.length
    exact iff_of_true rfl (List.eq_nil_of_length_eq_zero length.symm)
  | cons c rest =>
    obtain ⟨a, member, _, status⟩ := shown.exists_agent List.mem_cons_self
    refine iff_of_false ?_ (List.ne_nil_of_mem member)
    rw [lacksFeasible, status, feasible a member]
    exact nofun

end Shows

/-- An agent that may be reported: feasible, with finite rewards, and evaluated. -/
def Eligible (agents : List (Agent α)) (a : Agent α) : Prop :=
  a ∈ agents ∧ a.status.isFeasible = true ∧ ∀ x ∈ a.reward, Scalar.isFinite x = true

/-- An eligible agent that no eligible one dominates. -/
def OnFront (ds : List Direction) (agents : List (Agent α)) (a : Agent α) : Prop :=
  Eligible agents a ∧ ∀ b, Eligible agents b → dominates ds b.reward a.reward = false

/-- A result that reports a front of the given agents. -/
structure ReportsFront (ds : List Direction) (capacity : Option Nat) (agents : List (Agent α))
    (result : Result α) : Prop where
  feasible : ∀ c ∈ result.candidates, c.status.isFeasible = true
  finite : ∀ c ∈ result.candidates, ∀ x ∈ c.reward, Scalar.isFinite x = true
  /-- No candidate dominates or equals another one. -/
  apart : result.candidates.Pairwise fun c c' => dominates ds c.reward c'.reward = false ∧
    dominates ds c'.reward c.reward = false ∧ Scalar.sameList c.reward c'.reward = false
  fits : ∀ c, capacity = some c → result.candidates.length ≤ c
  /-- In the first objective no candidate is better than one before it. -/
  ordered : ∀ d, ds.head? = some d → result.candidates.Pairwise fun c c' =>
    ∃ x x', c.reward.head? = some x ∧ c'.reward.head? = some x' ∧ d.isBetter x' x = false
  /-- The rewards of a candidate are those of an eligible agent, and of one on the front when
  there is no bound. -/
  among : ∀ c ∈ result.candidates, ∃ a, Eligible agents a ∧ c.reward = a.reward ∧
    (capacity = none → OnFront ds agents a)
  /-- Without bound the whole front is there. -/
  complete : capacity = none → ∀ a, OnFront ds agents a →
    ∃ c ∈ result.candidates, Scalar.sameList c.reward a.reward = true
  warned : .infeasibleResult ∈ result.warnings ↔ ∀ a, ¬Eligible agents a

variable {agents : List (Agent α)} {a : Agent α}

theorem eligible_iff : Eligible agents a ↔ a ∈ agents ∧ Archive.admissible a = true := by
  rw [Eligible, Archive.admissible, Bool.and_eq_true, List.all_eq_true]

omit [Scalar α] in
/-- The warnings of failed repeats say nothing about feasibility. -/
theorem infeasibleResult_notMem_failures (round : Nat)
    (outcomes : List (Except (Error α) (Outcome α))) :
    .infeasibleResult ∉ failures round outcomes := by
  intro member
  obtain ⟨⟨outcome, i⟩, _, warned⟩ := List.mem_filterMap.mp member
  cases outcome <;> cases warned

variable [RandomSource ρ α] {problem : Problem α} {config : Config α} {seed : UInt64}
  {outcomes : List (Except (Error α) (Outcome α))} {summary : Summary α} {result : Result α}

omit [RandomSource ρ α] in
/-- The warning that nothing feasible was found is given by the first candidate alone. -/
theorem infeasibleResult_mem_iff {ds : List Direction} {passes : Nat}
    (added : Summary.addAll config.recordHistory 0 outcomes (.empty ds config.archiveCapacity) =
      .ok summary)
    (ended : conclude problem config passes summary = .ok result) :
    .infeasibleResult ∈ result.warnings ↔ lacksFeasible result.candidates = true := by
  have traced := (Summary.addAll_traces added).1
  unfold conclude at ended
  split at ended
  · cases ended
  · obtain ⟨candidates, _, built⟩ := bind_ok.mp ended
    cases built
    dsimp only
    rw [traced, List.mem_append, List.mem_append]
    cases lacksFeasible candidates with
    | true => simp
    | false => simp [Summary.empty, infeasibleResult_notMem_failures]

namespace Concluded

variable (concluded : Concluded ρ problem config seed outcomes summary result)

include concluded

/-- Checking the reported agents again shows their rewards and statuses as they are, for a
script that treats the agents alike. -/
theorem shown {script : Script α} (rowwise : script.Rowwise)
    (scripted : problem.model = script.model)
    (counted : problem.scoring.constraints = problem.schema.constraints.length) :
    Shows result.candidates summary.record.reported := by
  obtain ⟨passes, _, ended⟩ := concluded.attempted
  refine map_of_mapM (fun a chosen c built => ?_) (conclude_ok ended).1
  have member : a ∈ evaluated outcomes := held_evaluated (fun o inside => (concluded.told inside).1)
    concluded.added a (Record.mem_reported.mp chosen)
  obtain ⟨o, inside, logged⟩ := mem_evaluated.mp member
  have recheck := (((concluded.told inside).1.assessed a logged).alone rowwise scripted).recheck
    rowwise scripted counted
  obtain ⟨statuses, classified, _, reward, status⟩ := candidate_ok built
  rw [recheck passes] at classified
  cases classified
  exact Prod.ext reward status

variable [Scalar.LawfulOrder α] (several : 1 < problem.directions.length)

include several

/-- The merged archive, given all that was evaluated in successful repeats. -/
theorem kept : ∃ s, summary.record = .archive s ∧
    Archive.Kept problem.directions config.archiveCapacity (evaluated outcomes) s := by
  -- merging needs sized rewards on both sides, so the invariant carries that too
  refine (Summary.addAll_ok (I := fun done r => (∃ s, r = .archive s ∧
      Archive.Kept problem.directions config.archiveCapacity (evaluated done) s) ∧
    Archive.Sized problem.directions (evaluated done)) ?_ ?_ ?_ concluded.added).1
  · intro done cause r good
    rw [evaluated_append]
    have nothing : evaluated [(.error cause : Except (Error α) (Outcome α))] = [] := rfl
    rw [nothing, List.append_nil]
    exact good
  · intro done o r r' member good merged
    have own : evaluated [(.ok o : Except (Error α) (Outcome α))] = o.log := List.append_nil _
    rw [evaluated_append, own]
    obtain ⟨⟨s, rfl, kept⟩, sized⟩ := good
    obtain ⟨t, recorded, other⟩ := (concluded.told member).1.kept several
    have longer : Archive.Sized problem.directions (evaluated done ++ o.log) := by
      intro a inside
      rcases List.mem_append.mp inside with earlier | new
      · exact sized a earlier
      · exact ((concluded.told member).1.assessed a new).rewards
    obtain ⟨s', joined, after⟩ := kept.merge other longer
    rw [recorded, Record.merge, joined] at merged
    cases merged
    exact ⟨⟨s', rfl, after⟩, longer⟩
  · refine ⟨⟨_, Record.empty_several several _, .empty ..⟩, fun a member => ?_⟩
    cases member

/-- Without bound no admissible agent dominates a member, -/
theorem onFront (unbounded : config.archiveCapacity = none) {a : Agent α}
    (held : a ∈ summary.record.held) : OnFront problem.directions (evaluated outcomes) a := by
  rw [concluded.survivors several unbounded] at held
  have inside := Archive.mem_of_mem_survivors held
  have allowed := Archive.admissible_of_mem_survivors held
  refine ⟨eligible_iff.mpr ⟨inside, allowed⟩, fun b eligible => ?_⟩
  obtain ⟨member, admissible⟩ := eligible_iff.mp eligible
  exact Archive.not_dominates_of_mem_survivors held member admissible

/-- and a member has the rewards of each agent on the front. -/
theorem exists_held (unbounded : config.archiveCapacity = none) {a : Agent α}
    (front : OnFront problem.directions (evaluated outcomes) a) :
    ∃ m ∈ summary.record.held, Scalar.sameList m.reward a.reward = true := by
  obtain ⟨eligible, unbeaten⟩ := front
  obtain ⟨inside, allowed⟩ := eligible_iff.mp eligible
  obtain ⟨m, survives, ahead⟩ := Archive.exists_survivor concluded.sized inside allowed
  have memberM := Archive.mem_of_mem_survivors survives
  have allowedM := Archive.admissible_of_mem_survivors survives
  have proper := Archive.proper_of_admissible (concluded.sized a inside) allowed
  have properM := Archive.proper_of_admissible (concluded.sized m memberM) allowedM
  refine ⟨m, ?_, ((noWorse_iff properM proper).mp ahead).resolve_right ?_⟩
  · rw [concluded.survivors several unbounded]
    exact survives
  · rw [unbeaten m (eligible_iff.mpr ⟨memberM, allowedM⟩)]
    exact nofun

omit several in
/-- What the archive of all repeats holds, the candidates show. -/
theorem reportsFront (several : 1 < problem.directions.length)
    (shown : Shows result.candidates summary.record.reported)
    (positive : ∀ c, config.archiveCapacity = some c → 0 < c) :
    ReportsFront problem.directions config.archiveCapacity (evaluated outcomes) result := by
  obtain ⟨s, record, kept⟩ := concluded.kept several
  have members : summary.record.held = s.members := by rw [record]; rfl
  have reordered := summary.record.reported_perm
  rw [members] at reordered
  have eligible (a : Agent α) (member : a ∈ s.members) : Eligible (evaluated outcomes) a :=
    eligible_iff.mpr ⟨kept.among a member, kept.allowed a member⟩
  have behind (c : Candidate α) (listed : c ∈ result.candidates) :
      ∃ a ∈ s.members, c.reward = a.reward ∧ c.status = a.status := by
    obtain ⟨a, chosen, same⟩ := shown.exists_agent listed
    exact ⟨a, reordered.mem_iff.mp chosen, same⟩
  constructor
  case feasible =>
    intro c listed
    obtain ⟨a, member, _, status⟩ := behind c listed
    rw [status]
    exact (eligible a member).2.1
  case finite =>
    intro c listed
    obtain ⟨a, member, reward, _⟩ := behind c listed
    rw [reward]
    exact (eligible a member).2.2
  case apart =>
    refine shown.pairwise (R := fun x y => dominates problem.directions x y = false ∧
      dominates problem.directions y x = false ∧ Scalar.sameList x y = false) ?_
    refine ((reordered.pairwise_iff fun both => both.symm).mpr kept.apart).imp ?_
    intro a b ⟨left, right⟩
    simp only [Archive.blocks, Bool.or_eq_false_iff] at left right
    exact ⟨right.2, left.2, right.1⟩
  case fits =>
    intro c capacity
    rw [shown.length, reordered.length_eq]
    exact Nat.le_trans (kept.fits c capacity) (Nat.max_le.mpr ⟨Nat.le_refl c, positive c capacity⟩)
  case ordered =>
    intro d first
    refine shown.pairwise (R := fun xs ys => ∃ x y, xs.head? = some x ∧ ys.head? = some y ∧
      d.isBetter y x = false) ?_
    have leads (a : Agent α) (member : a ∈ s.members) : a.reward.head? = some a.leading ∧
        Scalar.isNaN a.leading = false := by
      obtain ⟨inside, _, finite⟩ := eligible a member
      have length := concluded.sized a inside
      exact Agent.leads_of_finite (List.ne_nil_of_length_pos (by omega)) finite
    have sorted : summary.record.reported.Pairwise fun a b =>
        d.isBetter b.leading a.leading = false := by
      rw [record]
      exact Record.reported_ordered (kept.towards ▸ first) fun a member => (leads a member).2
    refine sorted.imp_of_mem fun {a b} before after behind => ?_
    exact ⟨a.leading, b.leading, (leads a (reordered.mem_iff.mp before)).1,
      (leads b (reordered.mem_iff.mp after)).1, behind⟩
  case among =>
    intro c listed
    obtain ⟨a, member, reward, _⟩ := behind c listed
    exact ⟨a, eligible a member, reward, fun unbounded =>
      concluded.onFront several unbounded (members ▸ member)⟩
  case complete =>
    intro unbounded a front
    obtain ⟨m, held, same⟩ := concluded.exists_held several unbounded front
    obtain ⟨c, listed, reward⟩ := concluded.candidate_of_held held
    exact ⟨c, listed, reward ▸ same⟩
  case warned =>
    obtain ⟨passes, _, ended⟩ := concluded.attempted
    have feasible (a : Agent α) (chosen : a ∈ summary.record.reported) :
        a.status.isFeasible = true := (eligible a (reordered.mem_iff.mp chosen)).2.1
    rw [infeasibleResult_mem_iff concluded.added ended, shown.lacksFeasible_iff feasible,
      ← List.length_eq_zero_iff, reordered.length_eq,
      List.length_eq_zero_iff]
    constructor
    · intro none a found
      exact kept.nonempty ⟨a, eligible_iff.mp found⟩ none
    · intro none
      exact List.eq_nil_iff_forall_not_mem.mpr fun a member => none a (eligible a member)

end Concluded

variable [Scalar.LawfulOrder α] {fallback : UInt64}

/-- A search with several objectives reports a front of the agents that were evaluated in its
successful repeats, for a model that treats the agents alike and does the same in every pass.
Its candidates are feasible, have finite rewards of which none dominate or equal others, are as
many as allowed at most, and stand in the order of the first objective. Without a bound they
have the rewards of the whole front. The warning that nothing feasible was found is given when
that is so, and only then. -/
theorem run_reports_front {script : Script α} {schema : Schema α} (rowwise : script.Rowwise)
    (discovered : (Schema.discover (script.model 0)).1 = .ok schema)
    (several : 1 < schema.directions.length)
    (ran : run ρ config fallback script.model = .ok result) :
    ∃ problem outcomes passes,
      Problem.make script.model config.penaltyCoefficient = .ok problem ∧
      attempts ρ problem config 0 0 (streamSeeds config.repeats
        (RandomSource.ofSeed (config.seed.getD fallback) : ρ)) = .ok (outcomes, passes) ∧
      ReportsFront schema.directions config.archiveCapacity (evaluated outcomes) result := by
  obtain ⟨problem, _, _, _, valid, made, _⟩ := run_ok ran
  obtain ⟨known, scripted, scoring⟩ := Problem.make_ok made
  rw [discovered] at known
  cases known
  have towards : problem.directions = problem.schema.directions := by
    rw [Problem.directions, scoring]
  have counted : problem.scoring.constraints = problem.schema.constraints.length := by rw [scoring]
  obtain ⟨outcomes, summary, concluded⟩ := concluded_of_run made ran
  obtain ⟨passes, attempted, _⟩ := concluded.attempted
  refine ⟨problem, outcomes, passes, made, attempted, ?_⟩
  rw [← towards] at several ⊢
  exact concluded.reportsFront several (concluded.shown rowwise scripted counted) fun c capacity =>
    Config.validate_capacity valid capacity

/-- The budget, of which little is to be spent on the second amount. -/
def thrift : Script Float :=
  Schema.budget ++ [⟨none, none, .optimize .minimize (.element "x" 1)⟩]

theorem thrift_rowwise : thrift.Rowwise := by
  intro line member
  rcases List.mem_append.mp member with earlier | last
  · exact Schema.budget_rowwise line earlier
  · rw [List.mem_singleton.mp last]
    exact ⟨rfl, .element "x" 1⟩

/-- What the thrift script declares. -/
def thriftSchema : Schema Float :=
  { Schema.budgetSchema with directions := [.maximize, .minimize] }

/-- A differential evolution of four agents, carried out twice. -/
def thriftSearch : Config Float :=
  { Config.ofAlgorithm (.differential .default) with
    populationSize := 4, iterations := 2, penaltyCoefficient := 1.0, repeats := 2, seed := some 7 }

theorem thrift_discovered : (Schema.discover (thrift.model 0)).1 = .ok thriftSchema := by
  have fresh : (Registry.empty : Registry Float).positions.contains "x" = false :=
    Std.HashMap.contains_empty
  have bound : Registry.checkedBound (⟨"x", .continuous, .vector 2, ⟨0.0, 10.0⟩⟩ :
      Declaration Float) = .ok ⟨0.0, 10.0⟩ := rfl
  have declared : Registry.declare Schema.empty.registry
      (⟨"x", .continuous, .vector 2, ⟨0.0, 10.0⟩⟩ : Declaration Float) =
        .ok (⟨⟨"x", .continuous, .vector 2, ⟨0.0, 10.0⟩⟩, 0, 0, 2⟩, thriftSchema.registry) := by
    rw [Registry.declare, if_neg (by simp [Schema.empty, fresh]), bound]
    rfl
  have extended : Schema.extend (thrift.model 0) .empty = (.ok thriftSchema, []) := by
    have issued : thrift.model 0 = .declare ⟨"x", .continuous, .vector 2, ⟨0.0, 10.0⟩⟩
        (.require fun values => Script.program 0 (thrift.drop 1) [("x", values)]) := rfl
    rw [issued, Schema.extend, declared]
    rfl
  rw [Schema.discover, extended]
  rfl

/-- The thrift script with what discovery finds. -/
def thriftProblem : Problem Float :=
  ⟨thrift.model, thriftSchema, ⟨1.0, [.maximize, .minimize], 1⟩⟩

/-- The repeats find something feasible. Folding them sorts, which does not compute in a
proof, so that the search comes to a result is not read off. -/
theorem thrift_runs : ∃ result outcomes passes,
    run (Generator Float) thriftSearch 0 thrift.model = .ok result ∧
      attempts (Generator Float) thriftProblem thriftSearch 0 0
        (streamSeeds 2 (RandomSource.ofSeed 7 : Generator Float)) = .ok (outcomes, passes) ∧
      ∃ a, Eligible (evaluated outcomes) a := by
  have made : Problem.make thrift.model thriftSearch.penaltyCoefficient = .ok thriftProblem := by
    rw [Problem.make, thrift_discovered]
    rfl
  have valid : thriftSearch.validate = .ok () := by rfl
  have fitting : thriftSearch.algorithm.validateFor thriftSearch.agents
      thriftProblem.schema.objectives = .ok () := by rfl
  have rechecks : thriftProblem.Rechecks := by
    intro passes chromosome length
    obtain ⟨x, y, rfl⟩ := List.length_eq_two.mp length
    exact ⟨_, rfl⟩
  obtain ⟨⟨outcomes, passes⟩, attempted, found⟩ := exists_ok_of_any
    (x := attempts (Generator Float) thriftProblem thriftSearch 0 0
      (streamSeeds 2 (RandomSource.ofSeed 7 : Generator Float)))
    (P := fun r => (evaluated r.1).any Archive.admissible = true) (by decide +kernel)
  obtain ⟨a, member, allowed⟩ := List.any_eq_true.mp found
  obtain ⟨o, success, _⟩ := mem_evaluated.mp member
  obtain ⟨result, _, _, whole⟩ := fold_successes rechecks passes
    (attempts_fit (active_of_valid valid fitting) attempted) ⟨o, success⟩
  have ran : run (Generator Float) thriftSearch 0 thrift.model =
      fold thriftProblem thriftSearch passes outcomes := run_eq_fold made valid fitting attempted
  exact ⟨_, outcomes, passes, ran.trans whole, attempted, a, eligible_iff.mpr ⟨member, allowed⟩⟩

theorem run_reports_front_thrift :
    ∃ result outcomes passes,
      thrift.Rowwise ∧
      (Schema.discover (thrift.model 0)).1 = .ok thriftSchema ∧
      1 < thriftSchema.directions.length ∧
      run (Generator Float) thriftSearch 0 thrift.model = .ok result ∧
      attempts (Generator Float) thriftProblem thriftSearch 0 0
        (streamSeeds 2 (RandomSource.ofSeed 7 : Generator Float)) = .ok (outcomes, passes) ∧
      ReportsFront [.maximize, .minimize] none (evaluated outcomes) result ∧
      (∃ a, Eligible (evaluated outcomes) a) ∧ .infeasibleResult ∉ result.warnings := by
  obtain ⟨result, outcomes, passes, ran, attempted, a, eligible⟩ := thrift_runs
  obtain ⟨problem, outcomes', passes', made, attempted', front⟩ :=
    run_reports_front thrift_rowwise thrift_discovered (by decide) ran
  rw [Problem.make, thrift_discovered] at made
  cases made
  have same := attempted.symm.trans attempted'
  cases same
  exact ⟨result, outcomes, passes, thrift_rowwise, thrift_discovered, by decide, ran, attempted,
    front, ⟨a, eligible⟩, fun warned => front.warned.mp warned a eligible⟩

end Search
end Metaheuristic
