import Metaheuristic.Model.Pass
import Metaheuristic.Population.Basic

/-! Penalized fitness.

An objective value is worsened by the square of the summed violation times a
coefficient, whichever its direction. An undefined fitness counts as the worst
value, so a fitness is always defined. What a pass delivers is written into a
population: the feasibility and the fitness of every row, in the region that was
evaluated. -/
namespace Metaheuristic

/-- How objective values and violations become fitness. -/
structure Scoring (α : Type) where
  coefficient : α
  directions : List Direction
  constraints : Nat

namespace Scoring

variable {α : Type} [Scalar α]

/-- What a penalty coefficient has to be. -/
def checkCoefficient (coefficient : α) : Except (ConfigError α) Unit :=
  if !Scalar.isFinite coefficient || Scalar.lt coefficient Scalar.zero then
    .error (.invalidParameter "penalty_coefficient" (.finiteNonNegative coefficient))
  else .ok ()

/-- A scoring refuses to ignore constraints: when there are some, the
coefficient must not be zero. -/
def make (coefficient : α) (directions : List Direction) (constraints : Nat) :
    Except (ConfigError α) (Scoring α) := do
  checkCoefficient coefficient
  if 0 < constraints && coefficient == Scalar.zero then
    .error (.unpenalizedConstraint constraints)
  else .ok ⟨coefficient, directions, constraints⟩

def objectives (s : Scoring α) : Nat := s.directions.length

def fitness (s : Scoring α) (objective penalty : α) (d : Direction) : α :=
  let value := objective - d.sign * s.coefficient * penalty * penalty
  if Scalar.isNaN value then d.worst else value

/-- The feasibility of a summed violation. -/
def classify (s : Scoring α) (penalty : α) : Feasibility :=
  Feasibility.classify s.constraints penalty

/-- Fitness values for the reward slots of a row, from objective `k` on. -/
def rewards (s : Scoring α) (e : Evaluation α) (row : Nat) (penalty : α) :
    List Direction → List α → (k : Nat) → Except Fault (List α)
  | d :: ds, _ :: slots, k => do
    let column ← entry e.objectives k
    let objective ← entry column.values row
    let rest ← rewards s e row penalty ds slots (k + 1)
    return s.fitness objective penalty d :: rest
  | _, slots, _ => .ok slots

def assignRow (s : Scoring α) (e : Evaluation α) (region : Region) (p : Population α)
    (row : Nat) : Except Fault (Population α) := do
  let penalty ← entry e.penalty row
  let p ← p.setStatus row region (s.classify penalty)
  let slots ← p.reward row region
  p.setReward row region (← s.rewards e row penalty s.directions slots 0)

def assign (s : Scoring α) (e : Evaluation α) (p : Population α) (region : Region) :
    Except Fault (Population α) :=
  (List.range p.count).foldlM (s.assignRow e region) p

end Scoring
end Metaheuristic
