import Metaheuristic.Error
import Metaheuristic.Table

/-! Numeric options by name.

A reader hands out options and remembers which names were asked for, so that in
the end the first option nobody asked for can be named. -/
namespace Metaheuristic

/-- Options with the names asked for so far. -/
structure OptionReader (α : Type) where
  options : Table α
  consumed : List String

/-- A computation that reads options. -/
abbrev Reading (α β : Type) := ExceptT (ConfigError α) (StateM (OptionReader α)) β

namespace OptionReader

variable {α : Type}

/-- A reader that has not been asked yet. -/
def ofTable (options : Table α) : OptionReader α := ⟨options, []⟩

/-- The value of an option, if it is there. -/
def ask (key : String) : Reading α (Option α) := do
  modify fun r => { r with consumed := key :: r.consumed }
  return (← get).options.get? key

variable [Scalar α]

/-- A finite number. -/
def real (key : String) : Reading α (Option α) := do
  match ← ask key with
  | none => return none
  | some x =>
    if Scalar.isFinite x then return some x
    else throw (.invalidParameter key (.finite x))

/-- A whole number that is not negative, as a machine word. -/
def count (key : String) : Reading α (Option Nat) := do
  match ← real key with
  | none => return none
  | some x =>
    if Scalar.le Scalar.zero x && Scalar.isWhole x then return some (Scalar.toWord x)
    else throw (.invalidParameter key (.wholeNonNegative x))

/-- A switch: every number but zero is on. -/
def flag (key : String) : Reading α (Option Bool) := do
  return (← real key).map fun x => !(x == Scalar.zero)

/-- The first option nobody asked for is an error. -/
def finish (scope : String) : Reading α Unit := do
  let r ← get
  match r.options.names.find? fun key => !r.consumed.contains key with
  | some key => throw (.unknownOption key scope)
  | none => return ()

end OptionReader
end Metaheuristic
