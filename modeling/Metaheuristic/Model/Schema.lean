import Metaheuristic.Model.Program
import Metaheuristic.Space.Registry

/-! Discovery: running a model once to learn its variables, constraints and
objectives.

There is one agent, and every variable reads as the values of an all-zero
chromosome. A declaration that is refused leaves nothing behind; constraints and
objectives leave only their labels and directions, and are never refused. -/
namespace Metaheuristic

/-- What a model declares. -/
structure Schema (α : Type) where
  registry : Registry α
  constraints : List String
  directions : List Direction

namespace Schema

variable {α : Type}

def empty : Schema α := ⟨.empty, [], []⟩

def genes (s : Schema α) : Nat := s.registry.genes

def objectives (s : Schema α) : Nat := s.directions.length

/-- The label of a constraint; the one without a name is named by its number. -/
def labelOf (index : Nat) (label : Option String) : String := label.getD s!"c{index}"

/-- A schema must have something to decide and something to optimize. -/
def checked (s : Schema α) : Except (Error α) (Schema α) :=
  if s.genes = 0 then .error (.schema .emptySchema)
  else if s.directions.isEmpty then .error (.schema .noObjective)
  else .ok s

variable [Scalar α]

/-- The values of a variable whose genes are all zero, for one agent. -/
def placeholder (v : Variable α) : Assignment α :=
  ⟨v.position, v.kind, v.shape, [v.decode (List.replicate v.width Scalar.zero)]⟩

/-- Follows a program and records what it declares, together with its notes. -/
def extend : Program α → Schema α → Except (Failure α) (Schema α) × List (Note α)
  | .done, s => (.ok s, [])
  | .stop failure, _ => (.error failure, [])
  | .mode next, s => extend (next .discovery) s
  | .agents next, s => extend (next 1) s
  | .declare declaration next, s =>
    match s.registry.declare declaration with
    | .error cause => extend (next (.error cause)) s
    | .ok (v, registry) => extend (next (.ok (placeholder v))) { s with registry := registry }
  | .constrain constraint next, s =>
    extend (next (.ok ()))
      { s with constraints := s.constraints ++ [labelOf s.constraints.length constraint.label] }
  | .optimize direction _ next, s =>
    extend (next (.ok ())) { s with directions := s.directions ++ [direction] }
  | .note note next, s =>
    let (result, notes) := extend next s
    (result, note :: notes)

/-- The schema of a program, and the notes left on the way to it. -/
def discover (program : Program α) : Except (Failure α) (Schema α) × List (Note α) :=
  let (result, notes) := extend program .empty
  (result.bind fun s => s.checked.mapError .error, notes)

/-- The solution that a chromosome stands for. -/
def decode (s : Schema α) (chromosome : List α) : Except Fault (Solution α) :=
  s.registry.decode chromosome

end Schema
end Metaheuristic
