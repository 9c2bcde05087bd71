import Metaheuristic.Fault
import Metaheuristic.Number.Scalar

/-! Columns: one value for each agent.

A model is written once and computes with all agents at a time. A column of
length one stands for the same value everywhere, so it combines with a column of
any length; other columns combine only with columns of their own length. -/
namespace Metaheuristic

/-- One value for each agent. -/
structure Column (α : Type) where
  values : List α
  deriving DecidableEq, Repr

namespace Column

variable {α : Type}

def single (x : α) : Column α := ⟨[x]⟩

/-- The same value for each of `n` agents. -/
def constant (x : α) (n : Nat) : Column α := ⟨List.replicate n x⟩

def size (c : Column α) : Nat := c.values.length

def map (f : α → α) (c : Column α) : Column α := ⟨c.values.map f⟩

/-- Combines two columns value by value; a column of length one is repeated. -/
def zipWith (f : α → α → α) (a b : Column α) : Except Fault (Column α) :=
  if a.size = b.size then .ok ⟨List.zipWith f a.values b.values⟩
  else
    match a.values, b.values with
    | xs, [y] => .ok ⟨xs.map (fun x => f x y)⟩
    | [x], ys => .ok ⟨ys.map (fun y => f x y)⟩
    | xs, ys => .error (.columnLengths xs.length ys.length)

/-- The value that a row reads: its own, or the only one. -/
def at? (c : Column α) (row : Nat) : Option α :=
  match c.values with
  | [x] => some x
  | xs => xs[row]?

/-- Adds columns one after the other, starting from a single zero. -/
def total [Scalar α] : List (Column α) → Except Fault (Column α) :=
  List.foldlM (zipWith (· + ·)) (single Scalar.zero)

end Column

/-- A constraint by its violation for each agent, zero where it holds. -/
structure Constraint (α : Type) where
  label : Option String
  violation : Column α

namespace Constraint

variable {α : Type} [Scalar α]

/-- The positive part of a difference; an undefined difference stays undefined. -/
def excess (d : α) : α := if Scalar.isNaN d then d else Scalar.max d Scalar.zero

def named (c : Constraint α) (label : String) : Constraint α := { c with label := some label }

/-- A constraint without a name. -/
def ofViolation (violation : Column α) : Constraint α := ⟨none, violation⟩

/-- The left side is at most the right side. -/
def atMost (l r : Column α) : Except Fault (Constraint α) :=
  (Column.zipWith (fun x y => excess (x - y)) l r).map ofViolation

/-- The left side is at least the right side. -/
def atLeast (l r : Column α) : Except Fault (Constraint α) :=
  (Column.zipWith (fun x y => excess (y - x)) l r).map ofViolation

/-- Both sides are equal. -/
def equal (l r : Column α) : Except Fault (Constraint α) :=
  (Column.zipWith (fun x y => Scalar.abs (x - y)) l r).map ofViolation

/-- The sides differ by at most a tolerance. -/
def equalWithin (tolerance : α) (l r : Column α) : Except Fault (Constraint α) :=
  (Column.zipWith (fun x y => excess (Scalar.abs (x - y) - tolerance)) l r).map ofViolation

end Constraint
end Metaheuristic
