import Metaheuristic.Proofs.Search.Ledger
import Metaheuristic.Proofs.Strategy.Mirror

/-! Runs on a mirrored problem. Each step of such a run is the mirror of the step on
the problem itself: the model answers the mirrored columns, and whatever the strategy
decides upon them is the same. The source of random numbers is no part of the mirror,
so the draws are the same too. -/
namespace Metaheuristic

variable {ρ α : Type} [Scalar α]

/-- Statistics of the first objective. When this is the mirrored one its extremes
change places, and they and the mean are negated. -/
def Statistics.mirror (k : Nat) (s : Statistics α) : Statistics α :=
  if k = 0 then { s with min := -s.max, max := -s.min, mean := -s.mean } else s

def Problem.mirror (k : Nat) (p : Problem α) : Problem α :=
  ⟨p.model.mirror k, p.schema.mirror k, p.scoring.mirror k⟩

def Ledger.mirror (k : Nat) (l : Ledger α) : Ledger α :=
  { l with
    batches := l.batches.map (List.map (Agent.mirror k))
    latest := l.latest.map (Scalar.turn (k == 0))
    record := l.record.mirror k }

/-- The source stays as it is. -/
def Run.mirror (k : Nat) (run : Run ρ α) : Run ρ α :=
  { run with
    strategy := run.strategy.mirror k
    population := run.population.mirror k
    ledger := run.ledger.mirror k }

namespace Statistics

variable [Scalar.LawfulNegation α]

private theorem least_neg (xs : List α) (start : α) :
    (xs.map fun x => -x).foldl Scalar.min (-start) = -xs.foldl Scalar.max start := by
  induction xs generalizing start with
  | nil => rfl
  | cons x xs ih => rw [List.map_cons, List.foldl_cons, List.foldl_cons, Scalar.min_neg, ih]

private theorem greatest_neg (xs : List α) (start : α) :
    (xs.map fun x => -x).foldl Scalar.max (-start) = -xs.foldl Scalar.min start := by
  induction xs generalizing start with
  | nil => rfl
  | cons x xs ih => rw [List.map_cons, List.foldl_cons, List.foldl_cons, Scalar.max_neg, ih]

omit [Scalar.LawfulNegation α] in
/-- A column is described by its finite values. -/
private theorem ofColumn_finite {iteration : Nat} {column : List α}
    (some : column.filter Scalar.isFinite ≠ []) :
    ofColumn iteration column =
      let finite := column.filter Scalar.isFinite
      let n := Scalar.ofNat finite.length
      let mean := Scalar.sum finite / n
      { iteration := iteration
        min := finite.foldl Scalar.min Scalar.infinity
        max := finite.foldl Scalar.max (-Scalar.infinity)
        mean := mean
        std := Scalar.sqrt
          (Scalar.sum (finite.map fun v => Scalar.powInt (v - mean) 2) / n) } := by
  unfold ofColumn
  exact if_neg fun none => some (List.isEmpty_iff.mp none)

private theorem ofColumn_neg (iteration : Nat) (column : List α) :
    ofColumn iteration (column.map fun x => -x) = (ofColumn iteration column).mirror 0 := by
  have finite : (column.map fun x => -x).filter Scalar.isFinite =
      (column.filter Scalar.isFinite).map fun x => -x := by
    rw [List.filter_map]
    refine congrArg (List.map _) (congrArg (List.filter · column) (funext fun x => ?_))
    exact Scalar.LawfulNegation.isFinite_neg x
  by_cases none : column.filter Scalar.isFinite = []
  · have undefined : -(Scalar.notANumber : α) = Scalar.notANumber :=
      Scalar.LawfulNegation.neg_notANumber
    simp [ofColumn, mirror, finite, none, undefined]
  · have some : (column.map fun x => -x).filter Scalar.isFinite ≠ [] := by
      rw [finite]
      exact fun empty => none (List.map_eq_nil_iff.mp empty)
    rw [ofColumn_finite some, ofColumn_finite none, finite]
    generalize column.filter Scalar.isFinite = xs
    have mean : Scalar.sum (xs.map fun x => -x) / Scalar.ofNat xs.length =
        -(Scalar.sum xs / Scalar.ofNat xs.length) := by
      rw [Scalar.sum_neg, Scalar.LawfulNegation.neg_div]
    have deviations (mean : α) : (xs.map fun x => -x).map (fun v => Scalar.powInt (v - -mean) 2) =
        xs.map fun v => Scalar.powInt (v - mean) 2 := by
      rw [List.map_map]
      refine List.map_congr_left fun x _ => ?_
      have negated : Scalar.powInt (-x - -mean) 2 = Scalar.powInt (x - mean) 2 := by
        rw [Scalar.LawfulNegation.neg_sub_neg, Scalar.powInt_neg_two]
      exact negated
    have least := least_neg xs (-Scalar.infinity)
    rw [Scalar.LawfulNegation.neg_neg] at least
    dsimp only
    rw [List.length_map, mean, deviations, least, greatest_neg]
    rfl

theorem ofColumn_mirror (iteration : Nat) (column : List α) (k : Nat) :
    ofColumn iteration (column.map (Scalar.turn (k == 0))) =
      (ofColumn iteration column).mirror k := by
  by_cases first : k = 0
  · rw [Scalar.turn_of_eq first, first]
    exact ofColumn_neg iteration column
  · rw [Scalar.turn_of_ne first, List.map_id, mirror, if_neg first]

end Statistics

namespace Problem

theorem make_mirror (model : Model α) (coefficient : α) (k : Nat) :
    make (model.mirror k) coefficient = (make model coefficient).map (Problem.mirror k) := by
  have discovered := Schema.discover_mirror (model 0) k
  have unfolded : (model.mirror k) 0 = (model 0).mirror k 0 := rfl
  rw [make, make, unfolded]
  refine bind_image discovered fun schema => ?_
  have scored := Scoring.make_mirror coefficient schema.directions schema.constraints.length k
  have directions : (schema.mirror k).directions = mirrorDirections k schema.directions := rfl
  have constraints : (schema.mirror k).constraints = schema.constraints := rfl
  rw [directions, constraints, scored]
  cases Scoring.make coefficient schema.directions schema.constraints.length <;> rfl

theorem layout_mirror (problem : Problem α) (a : Algorithm α) (k : Nat) :
    (problem.mirror k).layout a = problem.layout a := by
  have objectives : (problem.mirror k).scoring.objectives = problem.scoring.objectives :=
    length_mirrorDirections ..
  rw [Problem.layout, objectives]
  rfl

end Problem

namespace Ledger

variable [Scalar.LawfulNegation α]

omit [Scalar.LawfulNegation α] in
theorem empty_mirror (ds : List Direction) (capacity : Option Nat) (passes k : Nat) :
    (empty (mirrorDirections k ds) capacity passes : Ledger α) =
      (empty ds capacity passes).mirror k := by
  rw [empty, Record.empty_mirror]
  rfl

theorem enter_mirror (l : Ledger α) (agents : List (Agent α)) (latest : List α) (k : Nat) :
    (l.mirror k).enter (agents.map (Agent.mirror k)) (latest.map (Scalar.turn (k == 0))) =
      (l.enter agents latest).map (Ledger.mirror k) := by
  exact bind_image (l.record.observeAll_mirror agents k) fun _ => rfl

omit [Scalar.LawfulNegation α] in
theorem log_mirror (l : Ledger α) (k : Nat) : (l.mirror k).log = l.log.map (Agent.mirror k) := by
  rw [log, log, mirror, ← List.map_reverse, List.map_flatten]

end Ledger

namespace Run

variable {k : Nat}

theorem ofExcept_mirror {β β' : Type} {r : Except Fault β} {r' : Except Fault β'} {g : β → β'}
    (image : r' = r.map g) :
    Parallels (Run.mirror k) g (ofExcept r : Stepping ρ α β) (ofExcept r') := by
  rw [image]
  cases r with
  | error cause => exact .throw _
  | ok b => exact .pure rfl

theorem ofDraw_mirror {β β' : Type} {d : Draw ρ β} {d' : Draw ρ β'} {g : β → β'}
    (drawn : Parallels id g d d') :
    Parallels (Run.mirror k) g (ofDraw d : Stepping ρ α β) (ofDraw d') := by
  refine .bind .get fun run => ?_
  have same : d'.run.run run.random =
      ((d.run.run run.random).1.map g, (d.run.run run.random).2) := drawn run.random
  have source : (run.mirror k).random = run.random := rfl
  rw [source, same]
  exact .bind (.set rfl) fun _ => ofExcept_mirror rfl

variable [Scalar.LawfulNegation α]

/-- From a run whose rows are sized. Where the model is granted less than it asks for and goes on,
columns are missing on both sides, and neither outcome can be written. -/
theorem evaluate_mirror {problem : Problem α} {config : Config α}
    (scored : problem.directions.length = problem.schema.objectives) (round : Nat)
    (progress : Progress) :
    ParallelsFrom (Sound problem config) (Run.mirror k) id
      (evaluate problem round progress : Stepping ρ α Unit)
      (evaluate (problem.mirror k) round progress) := by
  refine .bind (.of_parallels .get) (Q := fun run _ => Sound problem config run) ?_ fun run => ?_
  · intro run _ run' sound ran
    cases ran
    exact sound
  intro state sound
  refine (?_ : Parallels (Run.mirror k) id _ _) state
  obtain ⟨view, viewed⟩ := sound.sized.exists_view .trial
  obtain ⟨_, rows, _⟩ := Population.view_ok sound.sized viewed
  have image : (run.mirror k).population.view .trial = .ok view :=
    (run.population.view_mirror .trial k).trans viewed
  rw [viewed, image]
  simp only [ofExcept, pure_bind]
  refine .bind (.set rfl) fun _ => ?_
  have reflects := problem.schema.evaluate_reflects (problem.model run.ledger.passes) view k
  have passed : ((problem.mirror k).schema.evaluate
      ((problem.mirror k).model (run.mirror k).ledger.passes) view).1 =
    ((problem.schema.mirror k).evaluate ((problem.model run.ledger.passes).mirror k 0) view).1 := rfl
  rw [passed]
  cases evaluated : (problem.schema.evaluate (problem.model run.ledger.passes) view).1 with
  | error failure =>
    rw [evaluated] at reflects
    cases mirrored : ((problem.schema.mirror k).evaluate
        ((problem.model run.ledger.passes).mirror k 0) view).1 with
    | error failure' =>
      rw [mirrored] at reflects
      obtain rfl : failure = failure' := reflects
      cases failure <;> exact .throw _
    | ok e' =>
      rw [mirrored] at reflects
      exact reflects.elim
  | ok e =>
    rw [evaluated] at reflects
    cases mirrored : ((problem.schema.mirror k).evaluate
        ((problem.model run.ledger.passes).mirror k 0) view).1 with
    | error failure' =>
      rw [mirrored] at reflects
      exact reflects.elim
    | ok e' =>
      rw [mirrored] at reflects
      obtain ⟨penalties, columns, counted⟩ := Pass.run_delivers evaluated
      obtain ⟨_, columns', _⟩ := Pass.run_delivers mirrored
      rw [rows] at penalties columns columns'
      have within : e.objectives.length ≤ problem.directions.length := by
        rw [scored, ← counted rfl]
        exact Nat.le_add_right _ _
      have assigned := Scoring.assign_reflects sound.sized rfl penalties columns columns' within
        (scored ▸ reflects) .trial
      refine .bind (ofExcept_mirror assigned) fun population => ?_
      refine .bind (ofExcept_mirror (population.rewardColumn_mirror .trial 0 k)) fun latest => ?_
      refine .bind (ofExcept_mirror (population.agents_mirror .trial k)) fun agents => ?_
      have entered := run.ledger.beginPass.enter_mirror agents latest k
      exact .bind (ofExcept_mirror entered) fun ledger => .set rfl

variable [RandomSource ρ α]

theorem settle_mirror (problem : Problem α) (progress : Progress) :
    Parallels (Run.mirror k) id (settle problem progress : Stepping ρ α Unit)
      (settle (problem.mirror k) progress) := by
  refine .bind .get fun run => ?_
  have drawn := Strategy.settle_mirror (ρ := ρ) problem.directions progress run.population
    run.strategy k
  exact .bind (ofDraw_mirror drawn) fun _ => .modify fun _ => rfl

omit [Scalar.LawfulNegation α] in
theorem vary_mirror (progress : Progress) :
    Parallels (Run.mirror k) id (vary progress : Stepping ρ α Unit) (vary progress) := by
  refine .bind .get fun run => ?_
  have drawn := Strategy.vary_mirror (ρ := ρ) progress run.population run.strategy k
  exact .bind (ofDraw_mirror drawn) fun _ => .modify fun _ => rfl

section Keeping

variable {problem : Problem α} {config : Config α} {round : Nat} {progress : Progress}

omit [RandomSource ρ α] [Scalar.LawfulNegation α] in
private theorem evaluate_keeps : Ensures (Sound problem config)
    (evaluate problem round progress : Stepping ρ α Unit) fun _ => Sound problem config :=
  fun run b run' sound ran => (evaluate_sound run b run' ⟨sound, rfl⟩ ran).1

omit [Scalar.LawfulNegation α] in
private theorem settle_keeps : Ensures (Sound problem config)
    (settle problem progress : Stepping ρ α Unit) fun _ => Sound problem config :=
  fun run b run' sound ran => (settle_sound run b run' ⟨sound, rfl⟩ ran).1

omit [Scalar.LawfulNegation α] in
private theorem vary_keeps : Ensures (Sound problem config)
    (vary progress : Stepping ρ α Unit) fun _ => Sound problem config :=
  fun run b run' sound ran => (vary_sound run b run' ⟨sound, rfl⟩ ran).1

omit [Scalar.LawfulNegation α] in
private theorem cycles_keeps (n : Nat) : Ensures (Sound problem config)
    (cycles problem round progress n : Stepping ρ α Unit) fun _ => Sound problem config := by
  induction n with
  | zero => exact .pure fun _ sound => sound
  | succ n ih =>
    exact vary_keeps.bind fun _ => evaluate_keeps.bind fun _ => settle_keeps.bind fun _ => ih

omit [Scalar.LawfulNegation α] in
private theorem update_keeps (count : Nat) : Ensures (Sound problem config)
    (update problem round progress count : Stepping ρ α Unit) fun _ => Sound problem config := by
  cases count with
  | zero => exact .pure fun _ sound => sound
  | succ n => exact evaluate_keeps.bind fun _ => settle_keeps.bind fun _ => cycles_keeps n

omit [Scalar.LawfulNegation α] in
private theorem between_keeps (left iteration : Nat) : Ensures (Sound problem config)
    (between config left iteration : Stepping ρ α Unit) fun _ => Sound problem config := by
  unfold between
  split
  · exact .pure fun _ sound => sound
  · exact vary_keeps

end Keeping

section Steps

variable {problem : Problem α} {config : Config α}
  (scored : problem.directions.length = problem.schema.objectives)

include scored

theorem cycles_mirror (round : Nat) (progress : Progress) (n : Nat) :
    ParallelsFrom (Sound problem config) (Run.mirror k) id
      (cycles problem round progress n : Stepping ρ α Unit)
      (cycles (problem.mirror k) round progress n) := by
  induction n with
  | zero => exact .of_parallels (.pure rfl)
  | succ n ih =>
    refine .bind (.of_parallels (vary_mirror progress)) vary_keeps fun _ => ?_
    refine .bind (evaluate_mirror scored round progress) evaluate_keeps fun _ => ?_
    exact .bind (.of_parallels (settle_mirror problem progress)) settle_keeps fun _ => ih

theorem update_mirror (round : Nat) (progress : Progress) (count : Nat) :
    ParallelsFrom (Sound problem config) (Run.mirror k) id
      (update problem round progress count : Stepping ρ α Unit)
      (update (problem.mirror k) round progress count) := by
  cases count with
  | zero => exact .of_parallels (.pure rfl)
  | succ n =>
    refine .bind (evaluate_mirror scored round progress) evaluate_keeps fun _ => ?_
    exact .bind (.of_parallels (settle_mirror problem progress)) settle_keeps fun _ =>
      cycles_mirror scored round progress n

end Steps

omit [RandomSource ρ α] in
theorem statistics_mirror (config : Config α) (iteration : Nat) :
    Parallels (Run.mirror k) (Statistics.mirror k)
      (statistics config iteration : Stepping ρ α (Statistics α))
      (statistics config iteration) := by
  refine .bind .get fun run => ?_
  split
  · have column := run.population.rewardColumn_mirror config.algorithm.incumbent 0 k
    refine .bind (ofExcept_mirror column) fun column => .pure ?_
    exact Statistics.ofColumn_mirror iteration column k
  · exact .pure (Statistics.ofColumn_mirror iteration run.ledger.latest k)

omit [RandomSource ρ α] in
theorem recording_mirror (config : Config α) (iteration : Nat) :
    Parallels (Run.mirror k) (List.map (Statistics.mirror k))
      (recording config iteration : Stepping ρ α (List (Statistics α)))
      (recording config iteration) := by
  unfold recording
  split
  · exact .bind (statistics_mirror config iteration) fun s => .pure rfl
  · exact .pure rfl

omit [Scalar.LawfulNegation α] in
theorem between_mirror (config : Config α) (left iteration : Nat) :
    Parallels (Run.mirror k) id (between config left iteration : Stepping ρ α Unit)
      (between config left iteration) := by
  unfold between
  split
  · exact .pure rfl
  · exact vary_mirror _

theorem iterate_mirror {problem : Problem α} {config : Config α}
    (scored : problem.directions.length = problem.schema.objectives) (round left iteration : Nat) :
    ParallelsFrom (Sound problem config) (Run.mirror k) (List.map (Statistics.mirror k))
      (iterate problem config round left iteration : Stepping ρ α (List (Statistics α)))
      (iterate (problem.mirror k) config round left iteration) := by
  induction left generalizing iteration with
  | zero => exact .of_parallels (.pure rfl)
  | succ left ih =>
    rw [iterate_succ, iterate_succ]
    refine .bind (update_mirror scored round _ _) (update_keeps _) fun _ => ?_
    refine .bind (.of_parallels (recording_mirror config iteration)) (recording_keeps iteration)
      fun entry => ?_
    refine .bind (.of_parallels (between_mirror config left iteration))
      (between_keeps left iteration) fun _ => ?_
    refine .bind (ih (iteration + 1)) (Q := fun _ _ => True) (fun _ _ _ _ _ => trivial)
      fun rest => ?_
    exact .of_parallels (.pure (by rw [List.map_append]))

theorem start_mirror (problem : Problem α) (config : Config α) (passes : Nat) (random : ρ) :
    start (problem.mirror k) config passes random =
      (start problem config passes random).map (Run.mirror k) := by
  have layout := problem.layout_mirror config.algorithm k
  have directions : (problem.mirror k).directions = mirrorDirections k problem.directions := rfl
  have drawn : (Population.draw (problem.layout config.algorithm)
        (mirrorDirections k problem.directions) config.agents : Draw ρ _).run.run random = _ :=
    Population.draw_mirror (problem.layout config.algorithm) problem.directions config.agents k
      random
  unfold start
  rw [layout, directions, Ledger.empty_mirror]
  dsimp only
  rw [drawn]
  cases (Population.draw (problem.layout config.algorithm) problem.directions config.agents :
    Draw ρ _).run.run random with
  | mk result source =>
    cases result with
    | error cause => rfl
    | ok population =>
      have strategy := Strategy.strategy_mirror config.algorithm k
      exact congrArg (fun s => Except.ok (⟨s, population.mirror k, _, source⟩ : Run ρ α))
        strategy.symm

end Run
end Metaheuristic
