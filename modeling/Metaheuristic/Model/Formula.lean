import Metaheuristic.Error
import Metaheuristic.Model.Assignment

/-! Formulas over the variables of a model.

A formula is evaluated for all agents at a time. Every node yields a column with
a value for each agent or a column of length one; only `column` can bring in
another length. -/
namespace Metaheuristic

/-- An expression of a model. -/
inductive Formula (α : Type) where
  | agents
  | scalar (x : α)
  /-- A number repeated for every agent. -/
  | constant (x : α)
  /-- Given values. -/
  | column (xs : List α)
  /-- The element of a variable at an offset. -/
  | element (name : String) (flat : Nat)
  /-- The element of a variable at an index tuple, which has to address one. -/
  | entry (name : String) (index : List Nat)
  /-- The element of a variable at an index tuple, or an error of the model. -/
  | lookup (name : String) (index : List Nat)
  /-- The sum of a variable's elements, agent by agent. -/
  | sum (name : String)
  /-- The sum of a variable's columns. -/
  | total (name : String)
  /-- The sum of a variable's columns, each times its weight. -/
  | weighted (name : String) (weights : List α)
  | addAll (terms : List (Formula α))
  /-- A function of each value. -/
  | map (f : α → α) (a : Formula α)
  /-- A function of the values on both sides. -/
  | zip (f : α → α → α) (a b : Formula α)

/-- The variables declared so far, the latest first. -/
abbrev Environment (α : Type) := List (String × Assignment α)

namespace Environment

variable {α : Type}

/-- The values of a variable. -/
def find (env : Environment α) (name : String) : Except (Failure α) (Assignment α) :=
  match env.lookup name with
  | some values => .ok values
  | none => .error (.error (.model ("unknown variable " ++ name)))

end Environment

namespace Formula

variable {α : Type} [Scalar α]

/-- A result that can fault, inside a computation that can fail. -/
def orFault {β : Type} (r : Except Fault β) : Except (Failure α) β := r.mapError .fault

mutual

/-- The column of a formula for `n` agents. Operands are evaluated left to right. -/
def eval (n : Nat) (env : Environment α) : Formula α → Except (Failure α) (Column α)
  | .agents => .ok (.single (Scalar.ofNat n))
  | .scalar x => .ok (.single x)
  | .constant x => .ok (.constant x n)
  | .column xs => .ok ⟨xs⟩
  | .element name flat => do orFault ((← env.find name).element flat)
  | .entry name index => do orFault ((← env.find name).get index)
  | .lookup name index => do
    match ← orFault ((← env.find name).get? index) with
    | some c => .ok c
    | none => .error (.error (.model "no such element"))
  | .sum name => do return (← env.find name).sum
  | .total name => do orFault (Column.total (← env.find name).elements)
  | .weighted name weights => do
    let columns := (← env.find name).elements
    orFault (Column.total (List.zipWith (fun c w => c.map (· * w)) columns weights))
  | .addAll terms => do orFault (Column.total (← evalAll n env terms))
  | .map f a => do return (← eval n env a).map f
  | .zip f a b => do
    let a ← eval n env a
    let b ← eval n env b
    orFault (a.zipWith f b)

/-- The columns of several formulas. -/
def evalAll (n : Nat) (env : Environment α) :
    List (Formula α) → Except (Failure α) (List (Column α))
  | [] => .ok []
  | a :: rest => do
    let a ← eval n env a
    let rest ← evalAll n env rest
    return a :: rest

end

def add : Formula α → Formula α → Formula α := zip (· + ·)

def sub : Formula α → Formula α → Formula α := zip (· - ·)

def mul : Formula α → Formula α → Formula α := zip (· * ·)

def div : Formula α → Formula α → Formula α := zip (· / ·)

def neg : Formula α → Formula α := map (- ·)

def abs : Formula α → Formula α := map Scalar.abs

def sqrt : Formula α → Formula α := map Scalar.sqrt

/-- Greatest whole number that is not above. -/
def floor : Formula α → Formula α := map Scalar.floor

def powInt (a : Formula α) (n : Int) : Formula α := map (fun x => Scalar.powInt x n) a

def pow (a : Formula α) (p : α) : Formula α := map (fun x => Scalar.pow x p) a

def min : Formula α → Formula α → Formula α := zip Scalar.min

def max : Formula α → Formula α → Formula α := zip Scalar.max

end Formula
end Metaheuristic
