import Metaheuristic.Number.Scalar

/-! Directions of optimization and the feasibility of agents. -/
namespace Metaheuristic

/-- Whether smaller or larger values are better. -/
inductive Direction where
  | minimize
  | maximize
  deriving DecidableEq, Repr

namespace Direction

variable {α : Type} [Scalar α]

/-- Plus one for larger, minus one for smaller. -/
def sign : Direction → α
  | minimize => -Scalar.one
  | maximize => Scalar.one

/-- The value that every finite value is better than. -/
def worst : Direction → α
  | minimize => Scalar.infinity
  | maximize => -Scalar.infinity

/-- Whether the first value is strictly better. -/
def isBetter : Direction → α → α → Bool
  | minimize, a, b => Scalar.lt a b
  | maximize, a, b => Scalar.lt b a

/-- Places the better value first, and undefined values last. -/
def compare (d : Direction) (a b : α) : Ordering :=
  match Scalar.isNaN a, Scalar.isNaN b with
  | true, true => .eq
  | true, false => .gt
  | false, true => .lt
  | false, false => if d.isBetter a b then .lt else if d.isBetter b a then .gt else .eq

/-- Turns a value into one to be minimized. -/
def toMinimum (d : Direction) (x : α) : α := -d.sign * x

end Direction

/-- What is known about the constraints of an agent. -/
inductive Feasibility where
  /-- There are none. -/
  | unconstrained
  /-- All of them hold. -/
  | feasible
  /-- Some of them do not hold. -/
  | infeasible
  deriving DecidableEq, Repr

namespace Feasibility

/-- Feasibility from the number of constraints and the summed violation. -/
def classify {α : Type} [Scalar α] (constraints : Nat) (penalty : α) : Feasibility :=
  if constraints = 0 then unconstrained
  else if penalty == Scalar.zero then feasible
  else infeasible

def isFeasible : Feasibility → Bool
  | infeasible => false
  | unconstrained | feasible => true

/-- The number that stands for a feasibility in a population matrix. -/
def code {α : Type} [Scalar α] : Feasibility → α
  | unconstrained => Scalar.zero
  | feasible => Scalar.one
  | infeasible => -Scalar.one

/-- The feasibility that a number in a population matrix stands for. -/
def fromCode {α : Type} [Scalar α] (code : α) : Feasibility :=
  if code == Scalar.zero then unconstrained
  else if Scalar.lt Scalar.zero code then feasible
  else infeasible

def text : Feasibility → String
  | unconstrained => "feasible (unconstrained)"
  | feasible => "feasible (constrained)"
  | infeasible => "infeasible"

end Feasibility
end Metaheuristic
