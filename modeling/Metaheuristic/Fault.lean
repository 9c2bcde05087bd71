/-! Calls that have no answer.

A fault is a broken precondition: columns that cannot be combined, an index that
addresses nothing, a draw from an empty range. It ends whatever is running, and
it is kept apart from the errors of a model or a configuration, which a search
can report and survive. -/
namespace Metaheuristic

/-- Why a call has no answer. -/
inductive Fault where
  /-- Two columns of different lengths, none of them one. -/
  | columnLengths (left right : Nat)
  /-- An element offset at or above the width of its variable. -/
  | elementOutOfRange (element width : Nat)
  /-- An index tuple that addresses no element of its shape. -/
  | tupleOutOfRange (index dims : List Nat)
  /-- A view whose last row does not fit into its data. -/
  | viewExceedsData
  /-- A position outside a sequence, a matrix or a block. -/
  | outOfRange
  /-- A remainder by an empty dimension. -/
  | emptyDimension
  /-- A chance outside the unit interval. -/
  | improbable
  /-- A draw from an empty or unbounded range. -/
  | emptyRange
  /-- A sample larger than the set it is drawn from. -/
  | oversizedSample
  deriving DecidableEq, Repr

/-- A list of numbers between brackets. -/
def bracketed (items : List Nat) : String :=
  "[" ++ String.intercalate ", " (items.map toString) ++ "]"

/-- The wording of a fault, for those that have one. -/
def Fault.message : Fault → Option String
  | columnLengths l r => some s!"column length mismatch: {l} vs {r}"
  | elementOutOfRange e w => some s!"element {e} out of range for width {w}"
  | tupleOutOfRange i d =>
    some ("index " ++ bracketed i ++ " out of range for shape " ++ bracketed d)
  | viewExceedsData => some "chromosome view exceeds data"
  | _ => none

/-- The entry of a list at a position. -/
def entry {β : Type} (xs : List β) (i : Nat) : Except Fault β :=
  match xs[i]? with
  | some x => .ok x
  | none => .error .outOfRange

end Metaheuristic
