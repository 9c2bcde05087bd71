import Metaheuristic.Options
import Metaheuristic.Strategy.Interface
import Metaheuristic.Population.Sampling

/-! Simulated annealing over one agent.

The trial is a candidate and the incumbent the current state. A candidate is
accepted when it is better, when the state has the worst value, or by chance:
the less likely the worse the candidate and the lower the temperature. -/
namespace Metaheuristic

/-- Temperature as a function of the iteration. -/
inductive Cooling (α : Type) where
  /-- Falls to zero at the end of the budget. -/
  | linear
  /-- Is multiplied by a factor in every iteration. -/
  | geometric (factor : α)

/-- The temperature at an iteration. -/
def Cooling.temperature {α : Type} [Scalar α] (c : Cooling α) (highest : α) (p : Progress) : α :=
  match c with
  | .linear =>
    if p.budget = 0 then Scalar.zero
    else Scalar.ratio (p.budget - p.iteration) p.budget * highest
  | .geometric factor =>
    highest * Scalar.powInt factor (Int.ofNat (Nat.min p.iteration 2147483647))

namespace Annealing

structure Settings (α : Type) where
  /-- Temperature at the first iteration; zero accepts nothing worse. -/
  maxTemperature : α
  /-- Evaluations in an iteration. -/
  cycles : Nat
  cooling : Cooling α

structure State (α : Type) where
  settings : Settings α
  acceptedBetter : Nat
  acceptedWorse : Nat
  rejected : Nat

namespace Settings

variable {α : Type} [Scalar α]

/-- One evaluation in an iteration, cooling from a hundred down to zero. -/
def default : Settings α := ⟨Scalar.ofNat 100, 1, .linear⟩

def withMaxTemperature (s : Settings α) (t : α) : Settings α := { s with maxTemperature := t }

/-- Sets the number of evaluations in an iteration. -/
def withCycles (s : Settings α) (n : Nat) : Settings α := { s with cycles := n }

def withCooling (s : Settings α) (c : Cooling α) : Settings α := { s with cooling := c }

/-- What a cooling has to be. -/
def checkCooling : Cooling α → Except (ConfigError α) Unit
  | .linear => .ok ()
  | .geometric factor =>
    if Scalar.lt Scalar.zero factor && Scalar.lt factor Scalar.one then .ok ()
    else .error (.invalidParameter "cooling_alpha" (.strictlyWithinUnit factor))

/-- The first temperature must be finite and not negative, there must be an
evaluation, and a factor must lie strictly between zero and one. -/
def validate (s : Settings α) : Except (ConfigError α) Unit := do
  requireNonNegative "max_temperature" s.maxTemperature
  requireCount "cooling_cycles" s.cycles
  checkCooling s.cooling

def read : Reading α (Settings α) := do
  let s := default
  let maxTemperature := (← OptionReader.real "max_temperature").getD s.maxTemperature
  let cycles := (← OptionReader.count "cooling_cycles").getD s.cycles
  let cooling :=
    match ← OptionReader.real "cooling_alpha" with
    | some factor => .geometric factor
    | none => s.cooling
  return ⟨maxTemperature, cycles, cooling⟩

end Settings

variable {ρ α : Type} [Scalar α] [RandomSource ρ α]

/-- The chance of a candidate that is not better. -/
def acceptance (temperature candidate current : α) : α :=
  let delta := Scalar.abs (candidate - current)
  if Scalar.lt Scalar.zero temperature && Scalar.isFinite delta then
    Scalar.exp (-delta / temperature)
  else Scalar.zero

def settle (directions : List Direction) (progress : Progress) (s : State α) (p : Population α) :
    Draw ρ (State α × Population α) := do
  match directions with
  | [] => throw .outOfRange
  | d :: _ =>
    let candidate ← Draw.ofExcept (p.rewardAt .trial 0 0)
    let current ← Draw.ofExcept (p.rewardAt .incumbent 0 0)
    if current == d.worst || d.isBetter candidate current then
      let p ← Draw.ofExcept (p.promote 0)
      return ({ s with acceptedBetter := s.acceptedBetter + 1 }, p)
    else
      let temperature := s.settings.cooling.temperature s.settings.maxTemperature progress
      let u ← Draw.unit
      if Scalar.lt u (acceptance temperature candidate current) then
        let p ← Draw.ofExcept (p.promote 0)
        return ({ s with acceptedWorse := s.acceptedWorse + 1 }, p)
      else return ({ s with rejected := s.rejected + 1 }, p)

def vary (s : State α) (p : Population α) : Draw ρ (State α × Population α) := do
  return (s, ← p.walk)

/-- Number of candidates accepted because they were better, accepted by chance,
and rejected. -/
def report (s : State α) : Report :=
  ((Report.empty.count "accepted_better" s.acceptedBetter).count
    "accepted_worse" s.acceptedWorse).count "rejected" s.rejected

end Annealing
end Metaheuristic
