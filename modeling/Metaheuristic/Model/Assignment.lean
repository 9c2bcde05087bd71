import Metaheuristic.Model.Column
import Metaheuristic.Space.Variable

/-! The values of one variable in a pass: for each agent a row of its elements in
row-major order. -/
namespace Metaheuristic

/-- Decoded values of a variable for every agent. -/
structure Assignment (α : Type) where
  position : Nat
  kind : Kind
  shape : Shape
  rows : List (List α)

namespace Assignment

variable {α : Type}

def agents (v : Assignment α) : Nat := v.rows.length

def width (v : Assignment α) : Nat := v.shape.size

/-- The elements of one agent. -/
def agent? (v : Assignment α) (i : Nat) : Option (List α) := v.rows[i]?

variable [Scalar α]

/-- The column at an offset below the width. -/
def columnAt (v : Assignment α) (flat : Nat) : Column α :=
  ⟨v.rows.map (fun row => row.getD flat Scalar.zero)⟩

/-- The column at an offset. -/
def element (v : Assignment α) (flat : Nat) : Except Fault (Column α) :=
  if flat < v.width then .ok (v.columnAt flat) else .error (.elementOutOfRange flat v.width)

/-- The column of a scalar variable, and the first column of any other. -/
def value (v : Assignment α) : Except Fault (Column α) := v.element 0

/-- The column at an index tuple that addresses an element. -/
def get? (v : Assignment α) (index : List Nat) : Except Fault (Option (Column α)) :=
  match v.shape.offset? index with
  | none => .ok none
  | some flat => (v.element flat).map some

/-- The column at an index tuple. -/
def get (v : Assignment α) (index : List Nat) : Except Fault (Column α) := do
  match ← v.get? index with
  | some column => .ok column
  | none => .error (.tupleOutOfRange index v.shape.dims)

def elements (v : Assignment α) : List (Column α) := (List.range v.width).map v.columnAt

/-- The sum of each agent's elements. -/
def sum (v : Assignment α) : Column α := ⟨v.rows.map Scalar.sum⟩

end Assignment
end Metaheuristic
