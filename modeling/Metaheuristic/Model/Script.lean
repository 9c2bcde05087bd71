import Metaheuristic.Model.Formula
import Metaheuristic.Model.Program

/-! Scripts: models written as a list of steps.

A line can be limited to some kinds of pass, and to a range of evaluation
passes, so that a script can also describe a model that changes its mind. -/
namespace Metaheuristic

/-- A relation between two formulas. -/
inductive Relation (α : Type) where
  | atMost (l r : Formula α)
  | atLeast (l r : Formula α)
  | equal (l r : Formula α)
  | equalWithin (tolerance : α) (l r : Formula α)

namespace Relation

variable {α : Type} [Scalar α]

/-- The constraint that two columns make. -/
def combine : Relation α → Column α → Column α → Except Fault (Constraint α)
  | atMost _ _ => Constraint.atMost
  | atLeast _ _ => Constraint.atLeast
  | equal _ _ => Constraint.equal
  | equalWithin tolerance _ _ => Constraint.equalWithin tolerance

def left : Relation α → Formula α
  | atMost l _ | atLeast l _ | equal l _ | equalWithin _ l _ => l

def right : Relation α → Formula α
  | atMost _ r | atLeast _ r | equal _ r | equalWithin _ _ r => r

/-- The constraint of a relation for `n` agents. -/
def eval (n : Nat) (env : Environment α) (rel : Relation α) (label : Option String) :
    Except (Failure α) (Constraint α) := do
  let l ← rel.left.eval n env
  let r ← rel.right.eval n env
  let c ← Formula.orFault (rel.combine l r)
  return { c with label := label }

end Relation

inductive Step (α : Type) where
  | declare (declaration : Declaration α)
  | constrain (relation : Relation α) (label : Option String)
  | optimize (direction : Direction) (formula : Formula α)
  | fail (text : String)
  /-- Notes the values of a formula. -/
  | observe (formula : Formula α)
  /-- Notes the values of a variable. -/
  | describe (name : String)

/-- A step with the passes in which it takes place. -/
structure Line (α : Type) where
  /-- The kinds of pass; without a list all of them. -/
  modes : Option (List Mode)
  /-- The evaluation passes from the first number up to the second, not
  included; such a line takes place in no other pass. -/
  passes : Option (Nat × Nat)
  step : Step α

/-- A model as a list of steps. -/
abbrev Script (α : Type) := List (Line α)

namespace Line

variable {α : Type}

/-- Whether the line takes place in every pass. -/
def isUnconditional (l : Line α) : Bool := l.modes.isNone && l.passes.isNone

/-- Whether the line takes place in a pass of that kind, after that many
evaluation passes. -/
def takesPlace (l : Line α) (evaluations : Nat) (mode : Mode) : Bool :=
  (match l.modes with
    | none => true
    | some modes => modes.contains mode) &&
  (match l.passes with
    | none => true
    | some (first, stop) => mode = .evaluate && first ≤ evaluations && evaluations < stop)

end Line

namespace Step

variable {α : Type} [Scalar α]

/-- The requests of a step, followed by those of the steps after it. A step that is
refused is the last one. -/
def issue (env : Environment α) (next : Environment α → Program α) : Step α → Program α
  | .declare d => .declare d (.require fun values => next ((d.name, values) :: env))
  | .constrain relation label =>
    .agents fun n => .proceed (relation.eval n env label) fun c =>
      .constrain c (.require fun _ => next env)
  | .optimize direction formula =>
    .agents fun n => .proceed (formula.eval n env) fun c =>
      .optimize direction c (.require fun _ => next env)
  | .fail text => .stop (.error (.model text))
  | .observe formula =>
    .agents fun n => .proceed (formula.eval n env) fun c =>
      .mode fun mode => .note (.values mode c) (next env)
  | .describe name =>
    .proceed (env.find name) fun values =>
      .mode fun mode => .note (.variable mode values) (next env)

end Step

namespace Script

variable {α : Type} [Scalar α]

/-- The program of a script after that many evaluation passes. -/
def program (evaluations : Nat) : Script α → Environment α → Program α
  | [], _ => .done
  | line :: rest, env =>
    if line.isUnconditional then line.step.issue env (program evaluations rest)
    else .mode fun mode =>
      if line.takesPlace evaluations mode then line.step.issue env (program evaluations rest)
      else program evaluations rest env

def model (script : Script α) : Model α := fun evaluations => script.program evaluations []

end Script
end Metaheuristic
