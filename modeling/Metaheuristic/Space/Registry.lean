import Metaheuristic.Error
import Metaheuristic.Space.Solution
import Std.Data.HashMap

/-! The registry of declared variables.

Each accepted declaration takes the next free stretch of the chromosome. The
registry decodes whole chromosomes into solutions and encodes solutions back. -/
namespace Metaheuristic

/-- Declared variables in order, their positions by name, and the number of
genes they own together. -/
structure Registry (α : Type) where
  declared : List (Variable α)
  positions : Std.HashMap String Nat
  genes : Nat

namespace Registry

variable {α : Type}

def empty : Registry α := ⟨[], ∅, 0⟩

def size (r : Registry α) : Nat := r.declared.length

/-- The variable declared at a position. -/
def get? (r : Registry α) (position : Nat) : Option (Variable α) := r.declared[position]?

def position? (r : Registry α) (name : String) : Option Nat := r.positions[name]?

variable [Scalar α]

/-- The bound that a declaration stands for, or what is wrong with it. Binary
variables range from zero to one and sequences over their positions, whatever
bound they come with. -/
def checkedBound (d : Declaration α) : Except (ConfigError α) (Bound α) :=
  if d.shape.isEmpty then .error (.unsupportedDimension d.name d.kind d.shape)
  else
    match d.kind with
    | .binary => .ok .unit
    | .sequence =>
      if d.shape.dims.length = 1 then .ok ⟨Scalar.zero, Scalar.ofNat (d.shape.size - 1)⟩
      else .error (.unsupportedDimension d.name d.kind d.shape)
    | _ =>
      if !Scalar.isFinite d.bound.lo || !Scalar.isFinite d.bound.hi then
        .error (.invalidBound d.name d.bound .notFinite)
      else if Scalar.lt d.bound.hi d.bound.lo then
        .error (.invalidBound d.name d.bound .inverted)
      else if d.kind = .positive && Scalar.lt d.bound.lo Scalar.zero then
        .error (.invalidBound d.name d.bound .negative)
      else .ok d.bound

/-- Gives a declaration the next position and the next free stretch of genes. -/
def declare (r : Registry α) (d : Declaration α) :
    Except (Error α) (Variable α × Registry α) :=
  if r.positions.contains d.name then .error (.schema (.duplicateName d.name))
  else
    match checkedBound d with
    | .error cause => .error (.config cause)
    | .ok bound =>
      let position := r.declared.length
      let stop := wrap (r.genes + d.shape.size)
      let v : Variable α := {
        d with bound := bound, position := position, start := r.genes, stop := stop }
      .ok (v,
        { declared := r.declared ++ [v]
          positions := r.positions.insert d.name position
          genes := stop })

/-- Adds the decoded values of each variable to a solution. -/
def decodeOnto (chromosome : List α) : List (Variable α) → Solution α → Except Fault (Solution α)
  | [], s => .ok s
  | v :: vs, s => do
    let genes ← v.stretchOf chromosome
    decodeOnto chromosome vs (s.insert v.name ⟨v.kind, v.shape, v.decode genes⟩)

/-- The solution that a chromosome stands for. -/
def decode (r : Registry α) (chromosome : List α) : Except Fault (Solution α) :=
  decodeOnto chromosome r.declared .empty

/-- The genes of one variable in a solution, zeros when the solution lacks it. -/
def encodeOne (s : Solution α) (v : Variable α) : Except Fault (List α) :=
  match s.var? v.name with
  | none => .ok (List.replicate v.width Scalar.zero)
  | some d =>
    let genes := v.encode d.values
    if v.width ≤ genes.length then .ok (genes.take v.width) else .error .outOfRange

/-- The chromosome that stands for a solution. -/
def encode (r : Registry α) (s : Solution α) : Except Fault (List α) :=
  return (← r.declared.mapM (encodeOne s)).flatten

end Registry
end Metaheuristic
