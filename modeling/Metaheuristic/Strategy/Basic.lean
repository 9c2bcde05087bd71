import Metaheuristic.Strategy.Annealing
import Metaheuristic.Strategy.Differential
import Metaheuristic.Strategy.Genetic
import Metaheuristic.Strategy.GreyWolf
import Metaheuristic.Strategy.Tabu

/-! Algorithms and the strategies that carry them out.

A strategy is driven in steps. After every evaluation it settles which agents to
keep, and before the next one it varies them. An iteration is a number of such
cycles; only annealing has more than one. -/
namespace Metaheuristic

/-- An algorithm with its settings. -/
inductive Algorithm (α : Type) where
  | genetic (settings : Genetic.Settings α)
  | differential (settings : Differential.Settings α)
  | annealing (settings : Annealing.Settings α)
  | tabu (settings : Tabu.Settings α)
  | greyWolf (settings : GreyWolf.Settings α)

/-- An algorithm at work. -/
inductive Strategy (α : Type) where
  | genetic (state : Genetic.State α)
  | differential (state : Differential.State α)
  | annealing (state : Annealing.State α)
  | tabu (state : Tabu.State α)
  | greyWolf (state : GreyWolf.State α)

namespace Algorithm

variable {α : Type}

def name : Algorithm α → String
  | genetic _ => "ga"
  | differential _ => "de"
  | annealing _ => "sa"
  | tabu _ => "tabu"
  | greyWolf _ => "gwo"

/-- Whether rows keep an incumbent next to the trial. -/
def twoPhase : Algorithm α → Bool
  | genetic _ | greyWolf _ => false
  | differential _ | annealing _ | tabu _ => true

/-- The region of the current agents. -/
def incumbent (a : Algorithm α) : Region := if a.twoPhase then .incumbent else .trial

/-- Number of agents used when so many are asked for. -/
def agents : Algorithm α → Nat → Nat
  | annealing _, _ | tabu _, _ => 1
  | _, requested => requested

/-- Number of evaluations in an iteration. -/
def cycles : Algorithm α → Nat
  | annealing s => s.cycles
  | _ => 1

/-- The strategy before it has done anything. -/
def strategy : Algorithm α → Strategy α
  | genetic s => .genetic ⟨s, 0, 0⟩
  | differential s => .differential ⟨s, 0, 0⟩
  | annealing s => .annealing ⟨s, 0, 0, 0⟩
  | tabu s => .tabu ⟨s, .empty, none, 0, 0, 0, 0⟩
  | greyWolf s => .greyWolf ⟨s, [], 0⟩

variable [Scalar α]

/-- A genetic algorithm, unless something else is asked for. -/
def default : Algorithm α := genetic .default

/-- Whether the settings can be used. -/
def validate : Algorithm α → Except (ConfigError α) Unit
  | genetic s => s.validate
  | differential s => s.validate
  | annealing s => s.validate
  | tabu s => s.validate
  | greyWolf s => s.validate

/-- Whether the algorithm can run so many agents on so many objectives. -/
def validateFor (a : Algorithm α) (agents objectives : Nat) : Except (ConfigError α) Unit := do
  a.validate
  match a with
  | genetic _ => requireAgents a.name 1 agents
  | differential _ => requireAgents a.name 4 agents
  | greyWolf _ => requireAgents a.name 3 agents
  | annealing _ | tabu _ => requireSingleObjective a.name objectives

/-- The algorithm of a name, with its settings read from options. Capitals do not
matter. -/
def read (name : String) : Reading α (Algorithm α) := do
  match name.toLower with
  | "ga" => return genetic (← Genetic.Settings.read)
  | "de" => return differential (← Differential.Settings.read)
  | "sa" => return annealing (← Annealing.Settings.read)
  | "ts" | "tabu" => return tabu (← Tabu.Settings.read)
  | "gwo" => return greyWolf (← GreyWolf.Settings.read)
  | _ => throw (.unknownAlgorithm name)

end Algorithm

namespace Strategy

variable {ρ α : Type}

def report : Strategy α → Report
  | genetic s => Genetic.report s
  | differential s => Differential.report s
  | annealing s => Annealing.report s
  | tabu s => Tabu.report s
  | greyWolf s => GreyWolf.report s

variable [Scalar α] [RandomSource ρ α]

/-- Settles an evaluated population: ranks, selects, accepts or rejects. -/
def settle (directions : List Direction) (progress : Progress) (p : Population α) :
    Strategy α → Draw ρ (Strategy α × Population α)
  | genetic s => do
    let (s, p) ← Genetic.settle directions s p
    return (genetic s, p)
  | differential s => do
    let (s, p) ← Draw.ofExcept (Differential.settle directions s p)
    return (differential s, p)
  | annealing s => do
    let (s, p) ← Annealing.settle directions progress s p
    return (annealing s, p)
  | tabu s => do
    let (s, p) ← Draw.ofExcept (Tabu.settle directions progress s p)
    return (tabu s, p)
  | greyWolf s => do
    let (s, p) ← Draw.ofExcept (GreyWolf.settle directions s p)
    return (greyWolf s, p)

/-- Makes the trials of the next evaluation. -/
def vary (progress : Progress) (p : Population α) :
    Strategy α → Draw ρ (Strategy α × Population α)
  | genetic s => do
    let (s, p) ← Genetic.vary s p
    return (genetic s, p)
  | differential s => do
    let (s, p) ← Differential.vary s p
    return (differential s, p)
  | annealing s => do
    let (s, p) ← Annealing.vary s p
    return (annealing s, p)
  | tabu s => do
    let (s, p) ← Tabu.vary s p
    return (tabu s, p)
  | greyWolf s => do
    let (s, p) ← GreyWolf.vary progress s p
    return (greyWolf s, p)

end Strategy
end Metaheuristic
