import Metaheuristic.Population.Sampling
import Metaheuristic.Quality.Record
import Metaheuristic.Search.Config
import Metaheuristic.Search.Statistics

/-! Runs: a strategy at work on a problem.

A run alternates between evaluating the trial agents, settling which to keep, and
varying them. Its ledger holds every agent in the order of evaluation, with the
fitness and the feasibility it was given then, and the record of the best. A
step that fails leaves the run where it failed. -/
namespace Metaheuristic

/-- A model with what discovery found and the scoring of its objectives. -/
structure Problem (α : Type) where
  model : Model α
  schema : Schema α
  scoring : Scoring α

/-- What has been evaluated. -/
structure Ledger (α : Type) where
  /-- Number of evaluation passes begun, those of earlier runs included. -/
  passes : Nat
  /-- The agents of each evaluation, the latest evaluation first. -/
  batches : List (List (Agent α))
  /-- First rewards of the last evaluation, in row order. -/
  latest : List α
  /-- The best evaluated agents. -/
  record : Record α

/-- A run under way. -/
structure Run (ρ α : Type) where
  strategy : Strategy α
  population : Population α
  ledger : Ledger α
  random : ρ

/-- A step of a run. -/
abbrev Stepping (ρ α β : Type) := ExceptT (Failure α) (StateM (Run ρ α)) β

namespace Problem

variable {α : Type} [Scalar α]

/-- Discovers a model and scores it with a penalty coefficient. -/
def make (model : Model α) (coefficient : α) : Except (Failure α) (Problem α) := do
  let schema ← (Schema.discover (model 0)).1
  let scoring ← (Scoring.make coefficient schema.directions schema.constraints.length).mapError
    fun cause => .error (.config cause)
  return ⟨model, schema, scoring⟩

def directions (p : Problem α) : List Direction := p.scoring.directions

/-- The layout of a population for an algorithm. -/
def layout (p : Problem α) (a : Algorithm α) : Layout :=
  ⟨p.schema.genes, p.scoring.objectives, a.twoPhase⟩

end Problem

namespace Ledger

variable {α : Type}

/-- Nothing evaluated, after that many passes of earlier runs. -/
def empty (directions : List Direction) (capacity : Option Nat) (passes : Nat) : Ledger α :=
  ⟨passes, [], [], .empty directions capacity⟩

/-- All evaluated agents in order. -/
def log (l : Ledger α) : List (Agent α) := l.batches.reverse.flatten

def evaluations (l : Ledger α) : Nat := l.log.length

def beginPass (l : Ledger α) : Ledger α := { l with passes := l.passes + 1 }

def enter [Scalar α] (l : Ledger α) (agents : List (Agent α)) (latest : List α) :
    Except Fault (Ledger α) := do
  let record ← l.record.observeAll agents
  return { l with batches := agents :: l.batches, latest := latest, record := record }

end Ledger

namespace Run

variable {ρ α : Type} [Scalar α] [RandomSource ρ α]

/-- A result that can fault, as a step. -/
def ofExcept {β : Type} (r : Except Fault β) : Stepping ρ α β :=
  match r with
  | .ok x => return x
  | .error cause => throw (.fault cause)

/-- A computation that draws, as a step that advances the source of the run. -/
def ofDraw {β : Type} (d : Draw ρ β) : Stepping ρ α β := do
  let run ← get
  let (result, random) := d.run.run run.random
  set { run with random := random }
  ofExcept result

/-- A run before its first evaluation. The source yields the first population. -/
def start (problem : Problem α) (config : Config α) (passes : Nat) (random : ρ) :
    Except Fault (Run ρ α) :=
  let layout := problem.layout config.algorithm
  let draw := Population.draw layout problem.directions config.agents
  let (result, random) := draw.run.run random
  result.map fun population =>
    { strategy := config.algorithm.strategy
      population := population
      ledger := .empty problem.directions config.archiveCapacity passes
      random := random }

/-- Evaluates the trial agents: passes the model over them, writes their fitness
and feasibility, and enters them into the ledger. -/
def evaluate (problem : Problem α) (round : Nat) (progress : Progress) : Stepping ρ α Unit := do
  let run ← get
  let view ← ofExcept (run.population.view .trial)
  set { run with ledger := run.ledger.beginPass }
  let program := problem.model run.ledger.passes
  match (problem.schema.evaluate program view).1 with
  | .error (.error cause) => throw (.error (.evaluation round progress.iteration cause))
  | .error (.fault cause) => throw (.fault cause)
  | .ok evaluation =>
    let population ← ofExcept (problem.scoring.assign evaluation run.population .trial)
    let latest ← ofExcept (population.rewardColumn .trial 0)
    let agents ← ofExcept (population.agents .trial)
    let ledger ← ofExcept (run.ledger.beginPass.enter agents latest)
    set { run with population := population, ledger := ledger }

def settle (problem : Problem α) (progress : Progress) : Stepping ρ α Unit := do
  let run ← get
  let (strategy, population) ←
    ofDraw (run.strategy.settle problem.directions progress run.population)
  modify fun run => { run with strategy := strategy, population := population }

def vary (progress : Progress) : Stepping ρ α Unit := do
  let run ← get
  let (strategy, population) ← ofDraw (run.strategy.vary progress run.population)
  modify fun run => { run with strategy := strategy, population := population }

/-- Evaluates and settles, that many more times, with new trials before each. -/
def cycles (problem : Problem α) (round : Nat) (progress : Progress) :
    Nat → Stepping ρ α Unit
  | 0 => return ()
  | n + 1 => do
    vary progress
    evaluate problem round progress
    settle problem progress
    cycles problem round progress n

/-- The first part of an iteration: a number of evaluations, each one settled,
with new trials between them. -/
def update (problem : Problem α) (round : Nat) (progress : Progress) :
    (count : Nat) → Stepping ρ α Unit
  | 0 => return ()
  | n + 1 => do
    evaluate problem round progress
    settle problem progress
    cycles problem round progress n

/-- Statistics of the current agents: those of the incumbents where there are
some, and else those of the last evaluation, before rows were selected. -/
def statistics (config : Config α) (iteration : Nat) : Stepping ρ α (Statistics α) := do
  let run ← get
  if config.algorithm.twoPhase then
    let column ← ofExcept (run.population.rewardColumn config.algorithm.incumbent 0)
    return .ofColumn iteration column
  else return .ofColumn iteration run.ledger.latest

/-- Runs that many more iterations, the next one being `iteration`, and answers
their statistics if they are kept. Nothing is varied after the last update. -/
def iterate (problem : Problem α) (config : Config α) (round : Nat) :
    (left iteration : Nat) → Stepping ρ α (List (Statistics α))
  | 0, _ => return []
  | left + 1, iteration => do
    let progress : Progress := ⟨iteration, config.iterations⟩
    update problem round progress config.algorithm.cycles
    let entry ←
      if config.recordHistory then
        let s ← statistics config iteration
        pure [s]
      else pure []
    if left ≠ 0 then vary progress
    let rest ← iterate problem config round left (iteration + 1)
    return entry ++ rest

end Run
end Metaheuristic
