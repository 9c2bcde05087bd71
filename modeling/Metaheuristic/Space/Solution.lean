import Metaheuristic.Space.Variable
import Metaheuristic.Table

/-! Decoded solutions: the values of one agent by variable name. -/
namespace Metaheuristic

/-- The decoded values of one variable, row by row. -/
structure Decoded (α : Type) where
  kind : Kind
  shape : Shape
  values : List α

/-- The decoded values of all variables, by name. -/
structure Solution (α : Type) where
  table : Table (Decoded α)

namespace Solution

variable {α : Type}

def empty : Solution α := ⟨.empty⟩

def insert (s : Solution α) (name : String) (d : Decoded α) : Solution α :=
  ⟨s.table.insert name d⟩

/-- The values of a variable. -/
def var? (s : Solution α) (name : String) : Option (Decoded α) := s.table.get? name

/-- The value at an index tuple. -/
def get? (s : Solution α) (name : String) (index : List Nat) : Option α := do
  let d ← s.var? name
  let flat ← d.shape.offset? index
  d.values[flat]?

def value? (s : Solution α) (name : String) : Option α := s.get? name []

def names (s : Solution α) : List String := s.table.names

def size (s : Solution α) : Nat := s.table.size

/-- The entries of one variable: each offset as a tuple, with its value. -/
def tuples (name : String) (d : Decoded α) : Except Fault (List (String × List Nat × α)) :=
  d.values.zipIdx.mapM fun (v, flat) => do return (name, ← d.shape.tupleAt flat, v)

/-- Every value with its name and index tuple, by name and then row by row. -/
def toList (s : Solution α) : Except Fault (List (String × List Nat × α)) :=
  return (← s.table.entries.mapM fun (name, d) => tuples name d).flatten

variable [Scalar α]

/-- The value at an index tuple as a whole number, for discrete kinds. -/
def integer? (s : Solution α) (name : String) (index : List Nat) : Option Int := do
  let d ← s.var? name
  if d.kind.isDiscrete then (s.get? name index).map Scalar.toSigned else none

/-- The value at an index tuple as a truth value, for the binary kind. -/
def binary? (s : Solution α) (name : String) (index : List Nat) : Option Bool := do
  let d ← s.var? name
  if d.kind = .binary then (s.get? name index).map (Scalar.le (Scalar.ratio 1 2)) else none

def permutation? (s : Solution α) (name : String) : Option (List Nat) := do
  let d ← s.var? name
  if d.kind = .sequence then some (d.values.map Scalar.toWord) else none

end Solution
end Metaheuristic
