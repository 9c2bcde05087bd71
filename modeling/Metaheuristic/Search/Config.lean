import Metaheuristic.Quality.Scoring
import Metaheuristic.Strategy.Basic

/-! Configurations of searches. -/
namespace Metaheuristic

/-- An algorithm with the budget and the surroundings of its runs. -/
structure Config (α : Type) where
  algorithm : Algorithm α
  populationSize : Nat
  iterations : Nat
  penaltyCoefficient : α
  repeats : Nat
  /-- Seed of all repeats; without one the caller supplies it. -/
  seed : Option UInt64
  /-- Whether repeats may run side by side; results do not depend on it. -/
  parallel : Bool
  /-- Whether statistics of every iteration are kept. -/
  recordHistory : Bool
  /-- Bound on the archive of a search with several objectives. -/
  archiveCapacity : Option Nat

namespace Config

variable {α : Type} [Scalar α]

/-- One repeat of a hundred iterations with fifty agents. -/
def ofAlgorithm (a : Algorithm α) : Config α :=
  { algorithm := a
    populationSize := 50
    iterations := 100
    penaltyCoefficient := Scalar.zero
    repeats := 1
    seed := none
    parallel := true
    recordHistory := false
    archiveCapacity := none }

def default : Config α := ofAlgorithm .default

def withAlgorithm (c : Config α) (a : Algorithm α) : Config α := { c with algorithm := a }

def withPopulationSize (c : Config α) (n : Nat) : Config α := { c with populationSize := n }

def withIterations (c : Config α) (n : Nat) : Config α := { c with iterations := n }

def withPenaltyCoefficient (c : Config α) (x : α) : Config α := { c with penaltyCoefficient := x }

def withRepeats (c : Config α) (n : Nat) : Config α := { c with repeats := n }

def withSeed (c : Config α) (seed : UInt64) : Config α := { c with seed := some seed }

/-- Sets whether repeats may run side by side. -/
def withParallel (c : Config α) (b : Bool) : Config α := { c with parallel := b }

def withHistory (c : Config α) (b : Bool) : Config α := { c with recordHistory := b }

def withArchiveCapacity (c : Config α) (n : Nat) : Config α :=
  { c with archiveCapacity := some n }

/-- Reads a configuration from options: first the settings of the algorithm, then
those of the search, and in the end no option may be left over. -/
def read (name : String) : Reading α (Config α) := do
  let c := ofAlgorithm (← Algorithm.read name)
  let populationSize := (← OptionReader.count "population_size").getD c.populationSize
  let iterations := (← OptionReader.count "iterations").getD c.iterations
  let penalty := (← OptionReader.real "penalty_coefficient").getD c.penaltyCoefficient
  let repeats := (← OptionReader.count "repeats").getD c.repeats
  let seed := (← OptionReader.count "seed").map Nat.toUInt64
  let parallel := (← OptionReader.flag "parallel").getD c.parallel
  let recordHistory := (← OptionReader.flag "record_history").getD c.recordHistory
  let archiveCapacity ← OptionReader.count "pareto_capacity"
  OptionReader.finish c.algorithm.name
  return ⟨c.algorithm, populationSize, iterations, penalty, repeats, seed, parallel,
    recordHistory, archiveCapacity⟩

/-- The configuration of an algorithm's name and a table of options. -/
def ofOptions (name : String) (options : Table α) : Except (ConfigError α) (Config α) :=
  ((read name).run.run (OptionReader.ofTable options)).1

/-- Whether the configuration can be used. The settings of the algorithm are
looked at only once the model is known. -/
def validate (c : Config α) : Except (ConfigError α) Unit := do
  requireCount "population_size" c.populationSize
  requireCount "iterations" c.iterations
  requireCount "repeats" c.repeats
  match c.archiveCapacity with
  | some capacity => requireCount "pareto_capacity" capacity
  | none => pure ()
  Scoring.checkCoefficient c.penaltyCoefficient

/-- Number of agents the algorithm uses. -/
def agents (c : Config α) : Nat := c.algorithm.agents c.populationSize

end Config
end Metaheuristic
