import Metaheuristic.Error
import Metaheuristic.Model.Assignment
import Metaheuristic.Quality.Direction

/-! Models as programs.

A model talks to a pass through a fixed set of requests: it declares variables
and is answered with their values, it registers constraints and objectives, and
it may ask what kind of pass it is in. A request can be refused: the answer then
says why, and what becomes of it is up to the model, which may stop or go on. The
same program is run once to discover the space and again for every evaluation. -/
namespace Metaheuristic

/-- What a pass is for. -/
inductive Mode where
  /-- Learn what the model declares. -/
  | discovery
  /-- Compute objectives and violations. -/
  | evaluate
  /-- Compute violations only. -/
  | feasibility
  deriving DecidableEq, Repr

/-- Something a model lets its caller see. -/
inductive Note (α : Type) where
  | values (mode : Mode) (column : Column α)
  | variable (mode : Mode) (assignment : Assignment α)

inductive Program (α : Type) where
  /-- Nothing more. -/
  | done
  /-- The model cannot go on. -/
  | stop (failure : Failure α)
  /-- Asks for the kind of the pass. -/
  | mode (next : Mode → Program α)
  /-- Asks for the number of agents. -/
  | agents (next : Nat → Program α)
  /-- Declares a variable and takes its values, unless it is refused. -/
  | declare (declaration : Declaration α) (next : Except (Error α) (Assignment α) → Program α)
  | constrain (constraint : Constraint α) (next : Except (Error α) Unit → Program α)
  | optimize (direction : Direction) (column : Column α)
    (next : Except (Error α) Unit → Program α)
  | note (note : Note α) (next : Program α)

/-- Goes on with a result, or stops with the failure. -/
def Program.proceed {α β : Type} (r : Except (Failure α) β) (next : β → Program α) : Program α :=
  match r with
  | .ok x => next x
  | .error failure => .stop failure

/-- Goes on with what was granted, or stops with the error. -/
def Program.require {α β : Type} (next : β → Program α) (answer : Except (Error α) β) :
    Program α :=
  proceed (answer.mapError .error) next

@[simp]
theorem Program.require_ok {α β : Type} (next : β → Program α) (x : β) :
    require next (.ok x) = next x := rfl

@[simp]
theorem Program.require_error {α β : Type} (next : β → Program α) (cause : Error α) :
    require next (.error cause) = .stop (.error cause) := rfl

/-- A model issues a program for each pass. The number counts the evaluation
passes begun before, so a model may change its mind; one that ignores the number
always behaves the same. -/
abbrev Model (α : Type) := Nat → Program α

/-- Whether a model behaves the same in every pass. -/
def Model.Pure {α : Type} (m : Model α) : Prop := ∀ i j, m i = m j

end Metaheuristic
