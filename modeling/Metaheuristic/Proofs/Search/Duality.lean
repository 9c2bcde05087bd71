import Metaheuristic.Proofs.Search.Mirror
import Metaheuristic.Proofs.Search.Repeats
import Metaheuristic.Random.Generator
import Metaheuristic.Search.Basic

/-! Direction duality. Maximizing a column is minimizing the negated one: a search on
the mirrored model draws the same random numbers and reports the mirrored result. The
model of a script whose lines all take place in every pass is mirrored by mirroring the
line of the objective (`Script.model_mirror`). -/
namespace Metaheuristic

variable {ρ α : Type} [Scalar α]

def Candidate.mirror (k : Nat) (c : Candidate α) : Candidate α :=
  { c with reward := mirrorReward k c.reward }

/-- The same solutions, statuses, warnings and counts. Reward `k` is negated, and so
are the statistics when they are about objective `k`. -/
def Result.mirror (k : Nat) (r : Result α) : Result α :=
  { r with
    candidates := r.candidates.map (Candidate.mirror k)
    history := r.history.map (List.map (Statistics.mirror k)) }

def Outcome.mirror (k : Nat) (o : Outcome α) : Outcome α :=
  { o with
    record := o.record.mirror k
    log := o.log.map (Agent.mirror k)
    history := o.history.map (Statistics.mirror k) }

def Summary.mirror (k : Nat) (s : Summary α) : Summary α :=
  { s with
    record := s.record.mirror k
    history := s.history.map (List.map (Statistics.mirror k)) }

namespace Summary

theorem empty_mirror (ds : List Direction) (capacity : Option Nat) (k : Nat) :
    (empty (mirrorDirections k ds) capacity : Summary α) = (empty ds capacity).mirror k := by
  rw [empty, Record.empty_mirror]
  rfl

variable [Scalar.LawfulNegation α]

theorem add_mirror (recordHistory : Bool) (s : Summary α) (round : Nat)
    (outcome : Except (Error α) (Outcome α)) (k : Nat) :
    (s.mirror k).add recordHistory round (outcome.map (Outcome.mirror k)) =
      (s.add recordHistory round outcome).map (Summary.mirror k) := by
  cases outcome with
  | error cause => rfl
  | ok o =>
    have merged := s.record.merge_mirror o.record k
    have unfolded (s : Summary α) (o : Outcome α) : s.add recordHistory round (.ok o) =
        s.record.merge o.record >>= fun record => .ok { s with
          record := record
          history := if recordHistory then s.history ++ [o.history] else s.history
          evaluations := s.evaluations + o.evaluations
          report := s.report.merge o.report
          succeeded := s.succeeded + 1 } := rfl
    have mapped : (Except.ok o : Except (Error α) (Outcome α)).map (Outcome.mirror k) =
        .ok (o.mirror k) := rfl
    have counted : (o.mirror k).evaluations = o.evaluations := List.length_map _
    rw [mapped, unfolded, unfolded, counted]
    refine bind_image merged fun record => ?_
    cases recordHistory with
    | false => rfl
    | true => simp [mirror, Outcome.mirror, Except.map]

theorem addAll_mirror (recordHistory : Bool) (round : Nat)
    (outcomes : List (Except (Error α) (Outcome α))) (s : Summary α) (k : Nat) :
    addAll recordHistory round (outcomes.map (Except.map (Outcome.mirror k))) (s.mirror k) =
      (addAll recordHistory round outcomes s).map (Summary.mirror k) := by
  induction outcomes generalizing round s with
  | nil => rfl
  | cons outcome outcomes ih =>
    rw [List.map_cons, addAll, addAll]
    exact bind_image (add_mirror recordHistory s round outcome k) (ih (round + 1))

end Summary

/-- The first objective orders an archive as before. -/
theorem Record.reported_mirror [Scalar.LawfulNegation α] (r : Record α) (k : Nat) :
    (r.mirror k).reported = r.reported.map (Agent.mirror k) := by
  cases r with
  | single d best => cases best <;> rfl
  | archive s =>
    obtain ⟨ds, capacity, members⟩ := s
    cases ds with
    | nil =>
      have unordered : (archive ⟨mirrorDirections k [], capacity, members.map (Agent.mirror k)⟩ :
          Record α).reported = members.map (Agent.mirror k) := by
        rw [mirrorDirections_nil]
        rfl
      exact unordered
    | cons d ds =>
      obtain ⟨rest, first⟩ := mirrorDirections_cons k d ds
      have ordered : (archive ⟨mirrorDirections k (d :: ds), capacity,
          members.map (Agent.mirror k)⟩ : Record α).reported =
            (members.map (Agent.mirror k)).mergeSort fun a b =>
              (d.turn (k == 0)).compare a.leading b.leading != .gt := by
        rw [first]
        rfl
      refine ordered.trans (List.map_mergeSort fun a _ b _ => ?_).symm
      rw [Agent.leading_mirror, Agent.leading_mirror, Direction.compare_turn]

namespace Search

section Sources

variable [RandomSource ρ α]

/-- The source as a repeat leaves it behind, whether it succeeds or not. -/
def sourceAfter (problem : Problem α) (config : Config α) (round passes : Nat) (random : ρ) : ρ :=
  match Run.start problem config passes random with
  | .ok run => ((Run.iterate problem config round config.iterations 0).run.run run).2.random
  | .error _ =>
    ((Population.draw (problem.layout config.algorithm) problem.directions config.agents :
      Draw ρ _).run.run random).2

/-- The sources that repeats leave behind, one for each seed until a fault ends the
search. -/
def sourcesAfter (ρ : Type) [RandomSource ρ α] (problem : Problem α) (config : Config α) :
    (round passes : Nat) → List UInt64 → List ρ
  | _, _, [] => []
  | round, passes, seed :: seeds =>
    let random : ρ := RandomSource.ofSeed seed
    sourceAfter problem config round passes random ::
      match attempt problem config round passes random with
      | .ok (_, passes) => sourcesAfter ρ problem config (round + 1) passes seeds
      | .error _ => []

/-- The problem of a search, or why the search is refused. -/
def prepare (config : Config α) (model : Model α) : Except (Failure α) (Problem α) := do
  config.validate.mapError fun cause => .error (.config cause)
  let problem ← Problem.make model config.penaltyCoefficient
  (config.algorithm.validateFor config.agents problem.schema.objectives).mapError
    fun cause => .error (.config cause)
  return problem

/-- The sources that the repeats of a search leave behind, or why it is refused. What
a source has been asked shows in what is left of it: a source may be one that writes
down every question. -/
def sourcesLeft (ρ : Type) [RandomSource ρ α] (config : Config α) (fallback : UInt64)
    (model : Model α) : Except (Failure α) (List ρ) :=
  (prepare config model).map fun problem => sourcesAfter ρ problem config 0 0
    (streamSeeds config.repeats (RandomSource.ofSeed (config.seed.getD fallback) : ρ))

/-- A search that is not refused carries out its repeats. -/
theorem run_prepared (config : Config α) (fallback : UInt64) (model : Model α) :
    run ρ config fallback model = prepare config model >>= fun problem => (do
      let (outcomes, passes) ← (attempts ρ problem config 0 0 (streamSeeds config.repeats
        (RandomSource.ofSeed (config.seed.getD fallback) : ρ))).mapError Failure.fault
      let summary ← (Summary.addAll config.recordHistory 0 outcomes
        (Summary.empty problem.directions config.archiveCapacity)).mapError Failure.fault
      conclude problem config passes summary) := by
  rw [run, prepare, bind_assoc]
  refine bind_congr fun _ => ?_
  rw [bind_assoc]
  refine bind_congr fun problem => ?_
  rw [bind_assoc]
  rfl

end Sources

variable {config : Config α} {k : Nat}

theorem candidate_mirror (problem : Problem α) (passes : Nat) (a : Agent α) :
    candidate (problem.mirror k) passes (a.mirror k) =
      (candidate problem passes a).map (Candidate.mirror k) := by
  have classified := problem.schema.classify_mirror (problem.model passes)
    (View.single a.chromosome) k
  refine bind_image (classified.trans (congrFun Except.map_id _).symm) fun statuses => ?_
  exact bind_same fun solution => rfl

theorem lacksFeasible_mirror (candidates : List (Candidate α)) :
    lacksFeasible (candidates.map (Candidate.mirror k)) = lacksFeasible candidates := by
  cases candidates <;> rfl

variable [Scalar.LawfulNegation α]

theorem conclude_mirror (problem : Problem α) (passes : Nat) (s : Summary α) :
    conclude (problem.mirror k) config passes (s.mirror k) =
      (conclude problem config passes s).map (Result.mirror k) := by
  have objectives : (problem.mirror k).schema.objectives = problem.schema.objectives :=
    problem.schema.objectives_mirror k
  have record : (s.mirror k).record.reported = s.record.reported.map (Agent.mirror k) :=
    s.record.reported_mirror k
  have succeeded : (s.mirror k).succeeded = s.succeeded := rfl
  have firstError : (s.mirror k).firstError = s.firstError := rfl
  unfold conclude
  rw [objectives, record, succeeded, firstError]
  split
  -- only failures, of which the first one ends the search
  · rfl
  · have candidates := mapM_image (fun a => candidate_mirror (k := k) problem passes a)
      s.record.reported
    rw [List.mapM_map]
    refine bind_image candidates fun candidates => ?_
    rw [lacksFeasible_mirror]
    rfl

variable [RandomSource ρ α]

section Repeats

variable {problem : Problem α} (scored : problem.directions.length = problem.schema.objectives)

include scored

theorem attempt_mirror (round passes : Nat) (random : ρ) :
    attempt (problem.mirror k) config round passes random =
      (attempt problem config round passes random).map
        (Prod.map (Except.map (Outcome.mirror k)) id) := by
  have begun := Run.start_mirror (k := k) problem config passes random
  cases started : Run.start problem config passes random with
  | error cause =>
    rw [started] at begun
    rw [attempt_eq_error round started, attempt_eq_error round begun]
    rfl
  | ok run =>
    rw [started] at begun
    have iterated := Run.iterate_mirror (k := k) scored round config.iterations 0 run
      (Run.start_sound started)
    rw [attempt_eq round started, attempt_eq round begun, iterated]
    cases (Run.iterate problem config round config.iterations 0).run.run run with
    | mk result run =>
      cases result with
      | error failure => cases failure <;> rfl
      | ok history =>
        have log := run.ledger.log_mirror k
        have report := run.strategy.report_mirror k
        have outcome : (⟨(run.mirror k).ledger.record, (run.mirror k).ledger.log,
            history.map (Statistics.mirror k), (run.mirror k).strategy.report⟩ : Outcome α) =
              Outcome.mirror k ⟨run.ledger.record, run.ledger.log, history, run.strategy.report⟩ := by
          rw [Run.mirror, log, report]
          rfl
        exact congrArg (fun o => Except.ok (Except.ok o, run.ledger.passes)) outcome

theorem attempts_mirror (round passes : Nat) (seeds : List UInt64) :
    attempts ρ (problem.mirror k) config round passes seeds =
      (attempts ρ problem config round passes seeds).map
        (Prod.map (List.map (Except.map (Outcome.mirror k))) id) := by
  induction seeds generalizing round passes with
  | nil => rfl
  | cons seed seeds ih =>
    rw [attempts, attempts]
    refine bind_image (attempt_mirror scored round passes _) fun first => ?_
    exact bind_image (ih (round + 1) first.2) fun _ => rfl

theorem sourceAfter_mirror (round passes : Nat) (random : ρ) :
    sourceAfter (problem.mirror k) config round passes random =
      sourceAfter problem config round passes random := by
  unfold sourceAfter
  rw [Run.start_mirror]
  cases started : Run.start problem config passes random with
  | ok run =>
    -- the source is the one part of a run that is its own mirror
    have iterated := Run.iterate_mirror (k := k) scored round config.iterations 0 run
      (Run.start_sound started)
    exact congrArg (fun ended => ended.2.random) iterated
  | error cause =>
    have directions : (problem.mirror k).directions = mirrorDirections k problem.directions := rfl
    have drawn := Population.draw_mirror (ρ := ρ) (problem.layout config.algorithm)
      problem.directions config.agents k random
    rw [problem.layout_mirror, directions]
    have source := congrArg Prod.snd drawn
    exact source

theorem sourcesAfter_mirror (round passes : Nat) (seeds : List UInt64) :
    sourcesAfter ρ (problem.mirror k) config round passes seeds =
      sourcesAfter ρ problem config round passes seeds := by
  induction seeds generalizing round passes with
  | nil => rfl
  | cons seed seeds ih =>
    rw [sourcesAfter, sourcesAfter, sourceAfter_mirror scored, attempt_mirror scored]
    cases attempt problem config round passes (RandomSource.ofSeed seed : ρ) with
    | error cause => rfl
    | ok first => exact congrArg _ (ih (round + 1) first.2)

end Repeats

omit [Scalar.LawfulNegation α] [RandomSource ρ α] in
theorem prepare_ok {model : Model α} {problem : Problem α}
    (ran : prepare config model = .ok problem) :
    config.validate = .ok () ∧ Problem.make model config.penaltyCoefficient = .ok problem ∧
      config.algorithm.validateFor config.agents problem.schema.objectives = .ok () := by
  obtain ⟨_, valid, ran⟩ := bind_ok.mp ran
  obtain ⟨problem, made, ran⟩ := bind_ok.mp ran
  obtain ⟨_, fitting, ran⟩ := bind_ok.mp ran
  cases ran
  exact ⟨mapError_ok.mp valid, made, mapError_ok.mp fitting⟩

omit [Scalar.LawfulNegation α] [RandomSource ρ α] in
/-- Each objective that discovery found has its direction in the scoring. -/
theorem scored_of_prepare {model : Model α} {problem : Problem α}
    (ran : prepare config model = .ok problem) :
    problem.directions.length = problem.schema.objectives := by
  obtain ⟨_, _, scoring⟩ := Problem.make_ok (prepare_ok ran).2.1
  rw [Problem.directions, scoring]
  rfl

omit [Scalar.LawfulNegation α] [RandomSource ρ α] in
theorem prepare_mirror (config : Config α) (model : Model α) (k : Nat) :
    prepare config (model.mirror k) = (prepare config model).map (Problem.mirror k) := by
  refine bind_same fun _ => ?_
  refine bind_image (Problem.make_mirror model config.penaltyCoefficient k) fun problem => ?_
  have objectives : (problem.mirror k).schema.objectives = problem.schema.objectives :=
    problem.schema.objectives_mirror k
  rw [objectives]
  exact bind_same fun _ => rfl

theorem run_mirrored (config : Config α) (fallback : UInt64) (model : Model α) (k : Nat) :
    run ρ config fallback (model.mirror k) =
      (run ρ config fallback model).map (Result.mirror k) := by
  rw [run_prepared, run_prepared]
  refine bind_image_of_ok (prepare_mirror config model k) fun problem prepared => ?_
  rw [attempts_mirror (scored_of_prepare prepared)]
  refine bind_image mapError_map fun attempted => ?_
  have blank : (Summary.empty (problem.mirror k).directions config.archiveCapacity : Summary α) =
      (Summary.empty problem.directions config.archiveCapacity).mirror k :=
    Summary.empty_mirror problem.directions config.archiveCapacity k
  have added := Summary.addAll_mirror config.recordHistory 0 attempted.1
    (Summary.empty problem.directions config.archiveCapacity) k
  dsimp only [Prod.map, id]
  rw [blank, added]
  exact bind_image mapError_map fun summary => conclude_mirror problem attempted.2 summary

theorem sourcesLeft_mirror (config : Config α) (fallback : UInt64) (model : Model α) (k : Nat) :
    sourcesLeft ρ config fallback (model.mirror k) = sourcesLeft ρ config fallback model := by
  rw [sourcesLeft, sourcesLeft, prepare_mirror]
  cases prepared : prepare config model with
  | error failure => rfl
  | ok problem =>
    exact congrArg Except.ok (sourcesAfter_mirror (scored_of_prepare prepared) 0 0 _)

/-- Two shares, of which the first one is to be small. -/
def shares : Script (Exact ℚ) := [
  ⟨none, none, .declare ⟨"x", .continuous, .vector 2, ⟨.finite 0, .finite 10⟩⟩⟩,
  ⟨none, none, .constrain (.atMost (.sum "x") (.scalar (.finite 9))) none⟩,
  ⟨none, none, .optimize .minimize (.element "x" 0)⟩]

/-- What the shares script declares. -/
def sharesSchema : Schema (Exact ℚ) :=
  ⟨⟨[⟨⟨"x", .continuous, .vector 2, ⟨.finite 0, .finite 10⟩⟩, 0, 0, 2⟩],
    (∅ : Std.HashMap String Nat).insert "x" 0, 2⟩, ["c0"], [.minimize]⟩

/-- An annealing of two iterations that keeps statistics. -/
def sharesSearch : Config (Exact ℚ) :=
  { Config.ofAlgorithm (.annealing .default) with
    iterations := 2, penaltyCoefficient := .finite 1, seed := some 7, recordHistory := true }

theorem shares_discovered : (Schema.discover (shares.model 0)).1 = .ok sharesSchema := by
  have fresh : (Registry.empty : Registry (Exact ℚ)).positions.contains "x" = false :=
    Std.HashMap.contains_empty
  have bound : Registry.checkedBound (⟨"x", .continuous, .vector 2, ⟨.finite 0, .finite 10⟩⟩ :
      Declaration (Exact ℚ)) = .ok ⟨.finite 0, .finite 10⟩ := by
    rfl
  have declared : Registry.declare Schema.empty.registry
      (⟨"x", .continuous, .vector 2, ⟨.finite 0, .finite 10⟩⟩ : Declaration (Exact ℚ)) =
        .ok (⟨⟨"x", .continuous, .vector 2, ⟨.finite 0, .finite 10⟩⟩, 0, 0, 2⟩,
          sharesSchema.registry) := by
    rw [Registry.declare, if_neg (by simp [Schema.empty, fresh]), bound]
    rfl
  have extended : Schema.extend (shares.model 0) .empty = (.ok sharesSchema, []) := by
    have issued : shares.model 0 =
        .declare ⟨"x", .continuous, .vector 2, ⟨.finite 0, .finite 10⟩⟩
          (.require fun values => Script.program 0 (shares.drop 1) [("x", values)]) := rfl
    rw [issued, Schema.extend, declared]
    rfl
  rw [Schema.discover, extended]
  rfl

/-- The shares with what discovery finds. -/
def sharesProblem : Problem (Exact ℚ) :=
  ⟨shares.model, sharesSchema, ⟨.finite 1, [.minimize], 1⟩⟩

theorem shares_made :
    Problem.make shares.model sharesSearch.penaltyCoefficient = .ok sharesProblem := by
  rw [Problem.make, shares_discovered]
  rfl

theorem shares_runs : ∃ result,
    run (Generator (Exact ℚ)) sharesSearch 0 shares.model = .ok result := by
  refine exists_ok ?_
  rw [run, shares_made]
  decide +kernel

/-- Over exact numbers, whatever the configuration and the source of random numbers:
when objective `k` of a model is mirrored, a search fails with the same error as before
or reports the mirrored result, and its repeats leave their sources as before. -/
theorem direction_duality {K : Type} [Field K] [LinearOrder K] [IsStrictOrderedRing K]
    [FloorRing K] [Elementary K] {ρ : Type} [RandomSource ρ (Exact K)] (config : Config (Exact K))
    (fallback : UInt64) (model : Model (Exact K)) (k : Nat) :
    run ρ config fallback (model.mirror k) =
        (run ρ config fallback model).map (Result.mirror k) ∧
      sourcesLeft ρ config fallback (model.mirror k) = sourcesLeft ρ config fallback model :=
  ⟨run_mirrored config fallback model k, sourcesLeft_mirror config fallback model k⟩

theorem direction_duality_shares :
    ∃ result sources,
      run (Generator (Exact ℚ)) sharesSearch 0 shares.model = .ok result ∧
      run (Generator (Exact ℚ)) sharesSearch 0 (Script.model (shares.mirror 0 0)) =
        .ok (result.mirror 0) ∧
      sourcesLeft (Generator (Exact ℚ)) sharesSearch 0 shares.model = .ok sources ∧
      sourcesLeft (Generator (Exact ℚ)) sharesSearch 0 (Script.model (shares.mirror 0 0)) =
        .ok sources := by
  obtain ⟨result, ran⟩ := shares_runs
  obtain ⟨problem, prepared, _⟩ := bind_ok.mp (run_prepared (ρ := Generator (Exact ℚ)) .. ▸ ran)
  obtain ⟨mirrored, sources⟩ := direction_duality (ρ := Generator (Exact ℚ)) sharesSearch 0
    shares.model 0
  have scripted : Script.model (shares.mirror 0 0) = shares.model.mirror 0 :=
    shares.model_mirror 0 fun line member => by
      simp only [shares, List.mem_cons, List.not_mem_nil, or_false] at member
      rcases member with rfl | rfl | rfl <;> rfl
  have left : ∃ sources,
      sourcesLeft (Generator (Exact ℚ)) sharesSearch 0 shares.model = .ok sources := by
    rw [sourcesLeft, prepared]
    exact ⟨_, rfl⟩
  obtain ⟨left, remaining⟩ := left
  rw [scripted]
  refine ⟨result, left, ran, ?_, remaining, sources.trans remaining⟩
  rw [mirrored, ran]
  rfl

end Search
end Metaheuristic
