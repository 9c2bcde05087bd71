import Metaheuristic.Quality.Crowding
import Metaheuristic.Quality.Dominance

/-! Archives of mutually non-dominated agents.

An agent enters when it is feasible, has only finite rewards, and no member
dominates it or has the same rewards; the members that it dominates leave. A
bounded archive that overflows drops its most crowded member. -/
namespace Metaheuristic

/-- A chromosome with its rewards and its feasibility. -/
structure Agent (α : Type) where
  chromosome : List α
  reward : List α
  status : Feasibility
  deriving DecidableEq, Repr

/-- The first reward; an agent without rewards leads with no number. -/
def Agent.leading {α : Type} [Scalar α] (a : Agent α) : α := a.reward.headD Scalar.notANumber

/-- Non-dominated agents, in the order in which they entered until one is dropped. -/
structure Archive (α : Type) where
  directions : List Direction
  capacity : Option Nat
  members : List (Agent α)

namespace Archive

variable {α : Type} [Scalar α]

def empty (directions : List Direction) (capacity : Option Nat) : Archive α :=
  ⟨directions, capacity, []⟩

/-- Whether an agent may enter at all. -/
def admissible (a : Agent α) : Bool := a.status.isFeasible && a.reward.all Scalar.isFinite

/-- Whether a member keeps an agent out. -/
def blocks (directions : List Direction) (a member : Agent α) : Bool :=
  Scalar.sameList member.reward a.reward || dominates directions member.reward a.reward

/-- The position of the first least value, looking on from position `i` with the
least value so far. -/
def leastFrom : List α → (i best : Nat) → α → Nat
  | [], _, best, _ => best
  | x :: xs, i, best, least =>
    if Scalar.totalOrder x least == .lt then leastFrom xs (i + 1) i x
    else leastFrom xs (i + 1) best least

/-- The position of the first least value. -/
def least : List α → Option Nat
  | [] => none
  | x :: xs => some (leastFrom xs 1 0 x)

/-- Removes the member at a position; the last one takes its place. -/
def dropAt (members : List (Agent α)) (i : Nat) : List (Agent α) :=
  match members.getLast? with
  | none => []
  | some last => (members.set i last).dropLast

/-- Drops the most crowded member until at most `limit` are left, `fuel` times at
most. -/
def truncate (directions : List Direction) (limit : Nat) :
    Nat → List (Agent α) → Except Fault (List (Agent α))
  | 0, members => .ok members
  | fuel + 1, members =>
    if members.length ≤ limit then .ok members
    else do
      let distances ← Crowding.distances (members.map fun m => toMinima directions m.reward)
      match least distances with
      | none => .ok members
      | some i => truncate directions limit fuel (dropAt members i)

/-- The members that a bounded archive keeps; at least one. -/
def bounded (directions : List Direction) (capacity : Option Nat) (members : List (Agent α)) :
    Except Fault (List (Agent α)) :=
  match capacity with
  | none => .ok members
  | some c => truncate directions (Nat.max c 1) members.length members

/-- Offers an agent and tells whether it entered. -/
def insert (s : Archive α) (a : Agent α) : Except Fault (Archive α × Bool) :=
  if !admissible a || s.members.any (blocks s.directions a) then .ok (s, false)
  else do
    let kept := s.members.filter fun m => !dominates s.directions a.reward m.reward
    let members ← bounded s.directions s.capacity (kept ++ [a])
    return ({ s with members := members }, true)

/-- Offers several agents one after the other. -/
def insertAll : Archive α → List (Agent α) → Except Fault (Archive α)
  | s, [] => .ok s
  | s, a :: rest => do insertAll (← s.insert a).1 rest

/-- Offers every member of another archive. -/
def merge (s other : Archive α) : Except Fault (Archive α) := s.insertAll other.members

end Archive
end Metaheuristic
