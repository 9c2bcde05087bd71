import Metaheuristic.Model.Schema
import Metaheuristic.Model.View

/-! Passes over a view: running a model again for every row of it.

The program has to declare what discovery found, in the same order. Violations
add up to a penalty for each agent, an undefined violation counting as infinite.
Objectives are collected only when the pass evaluates. A constraint or an objective
is counted before its column is measured, so one that is refused counts as well. -/
namespace Metaheuristic

/-- The outcome of a pass. -/
structure Evaluation (α : Type) where
  /-- One column for each objective. -/
  objectives : List (Column α)
  /-- Summed violation of each agent. -/
  penalty : List α

/-- How far a pass has come. -/
structure Pass (α : Type) where
  declared : Nat
  constraints : Nat
  directions : List Direction
  objectives : List (Column α)
  /-- Summed violation of each agent. -/
  penalty : List α

namespace Pass

variable {α : Type} [Scalar α]

/-- A pass over that many agents, before the program has run. -/
def start (agents : Nat) : Pass α := ⟨0, 0, [], [], List.replicate agents Scalar.zero⟩

/-- A column must have a value for each agent, or one for all of them. -/
def fits (what : Registered) (column : Column α) (agents : Nat) : Except (Error α) Unit :=
  if column.size = agents || column.size = 1 then .ok ()
  else .error (.columnLength what column.size agents)

/-- What a violation adds to the penalty. -/
def charge (violation : α) : α :=
  if Scalar.isNaN violation then Scalar.infinity else Scalar.max violation Scalar.zero

/-- Adds the violations of a column to the penalties, row by row. -/
def addViolation (penalty : List α) (violation : Column α) : List α :=
  match violation.values with
  | [v] => penalty.map (· + charge v)
  | vs => List.zipWith (fun p v => p + charge v) penalty vs

/-- Answers a declaration with the decoded values of every row, provided that it
says what the schema says at this place. -/
def declare (schema : Schema α) (view : View α) (p : Pass α) (d : Declaration α) :
    Except (Failure α) (Assignment α × Pass α) :=
  match schema.registry.get? p.declared with
  | none => .error (.error (.schema (.divergent p.declared none (some d))))
  | some v =>
    if v.toDeclaration.agrees d then
      match view.rows.mapM (fun row => (v.stretchOf row).map v.decode) with
      | .error cause => .error (.fault cause)
      | .ok rows =>
        .ok (⟨p.declared, d.kind, v.shape, rows⟩, { p with declared := p.declared + 1 })
    else .error (.error (.schema (.divergent p.declared (some v.toDeclaration) (some d))))

/-- What an error calls a constraint: its label or else its number. -/
def constraintName (index : Nat) (c : Constraint α) : Registered :=
  match c.label with
  | some label => .labelledConstraint label
  | none => .constraint index

/-- Counts a constraint and adds its violations, if there are enough of them. -/
def constrain (agents : Nat) (p : Pass α) (c : Constraint α) : Except (Error α) Unit × Pass α :=
  let p' := { p with constraints := p.constraints + 1 }
  match fits (constraintName p.constraints c) c.violation agents with
  | .error cause => (.error cause, p')
  | .ok () => (.ok (), { p' with penalty := addViolation p.penalty c.violation })

/-- Counts an objective. An evaluation keeps its column, with one value for each
agent, if there are enough of them. -/
def optimize (mode : Mode) (agents : Nat) (p : Pass α) (d : Direction) (c : Column α) :
    Except (Error α) Unit × Pass α :=
  let p' := { p with directions := p.directions ++ [d] }
  if mode = .evaluate then
    match fits (.objective p.directions.length) c agents with
    | .error cause => (.error cause, p')
    | .ok () =>
      let column :=
        match c.values with
        | [x] => Column.constant x agents
        | _ => c
      (.ok (), { p' with objectives := p.objectives ++ [column] })
  else (.ok (), p')

/-- Follows a program through a pass, together with its notes. What is refused is
answered with the reason; a fault ends the pass. -/
def follow (mode : Mode) (schema : Schema α) (view : View α) :
    Program α → Pass α → Except (Failure α) (Pass α) × List (Note α)
  | .done, p => (.ok p, [])
  | .stop failure, _ => (.error failure, [])
  | .mode next, p => follow mode schema view (next mode) p
  | .agents next, p => follow mode schema view (next view.rows.length) p
  | .declare d next, p =>
    match declare schema view p d with
    | .error (.fault cause) => (.error (.fault cause), [])
    | .error (.error cause) => follow mode schema view (next (.error cause)) p
    | .ok (values, p) => follow mode schema view (next (.ok values)) p
  | .constrain c next, p =>
    let (answer, p) := constrain view.rows.length p c
    follow mode schema view (next answer) p
  | .optimize d c next, p =>
    let (answer, p) := optimize mode view.rows.length p d c
    follow mode schema view (next answer) p
  | .note note next, p =>
    let (result, notes) := follow mode schema view next p
    (result, note :: notes)

/-- The outcome of a finished pass, provided that nothing is missing or too much. -/
def close (schema : Schema α) (p : Pass α) : Except (Error α) (Evaluation α) :=
  match schema.registry.get? p.declared with
  | some v => .error (.schema (.divergent p.declared (some v.toDeclaration) none))
  | none =>
    if p.directions.length ≠ schema.objectives then
      .error (.schema (.objectiveCount schema.objectives p.directions.length))
    else if p.constraints ≠ schema.constraints.length then
      .error (.schema (.constraintCount schema.constraints.length p.constraints))
    else .ok ⟨p.objectives, p.penalty⟩

def run (mode : Mode) (schema : Schema α) (program : Program α) (view : View α) :
    Except (Failure α) (Evaluation α) × List (Note α) :=
  let (result, notes) := follow mode schema view program (start view.rows.length)
  (result.bind fun p => (p.close schema).mapError .error, notes)

end Pass

namespace Schema

variable {α : Type} [Scalar α]

def evaluate (s : Schema α) (program : Program α) (view : View α) :
    Except (Failure α) (Evaluation α) × List (Note α) :=
  Pass.run .evaluate s program view

def classify (s : Schema α) (program : Program α) (view : View α) :
    Except (Failure α) (List Feasibility) × List (Note α) :=
  let (result, notes) := Pass.run .feasibility s program view
  (result.map fun e => e.penalty.map (Feasibility.classify s.constraints.length), notes)

end Schema
end Metaheuristic
