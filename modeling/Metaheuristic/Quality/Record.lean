import Metaheuristic.Quality.Archive

/-! The best that has been seen: with one objective the first of the best agents,
with several the archive of non-dominated ones. -/
namespace Metaheuristic

/-- The best agents seen so far. -/
inductive Record (α : Type) where
  | single (direction : Direction) (best : Option (Agent α))
  | archive (members : Archive α)

namespace Record

variable {α : Type}

/-- Nothing seen yet. -/
def empty (directions : List Direction) (capacity : Option Nat) : Record α :=
  match directions with
  | [d] => single d none
  | _ => archive (.empty directions capacity)

variable [Scalar α]

/-- The better of two agents; the first one stays unless the second is strictly
better. -/
def better (d : Direction) (best : Option (Agent α)) (a : Agent α) : Agent α :=
  match best with
  | none => a
  | some b => if d.isBetter a.leading b.leading then a else b

/-- Offers an agent. A single objective needs a reward. -/
def observe (r : Record α) (a : Agent α) : Except Fault (Record α) :=
  match r with
  | single d best =>
    if a.reward.isEmpty then .error .outOfRange else .ok (single d (some (better d best a)))
  | archive members => return archive (← members.insert a).1

/-- Offers several agents one after the other. -/
def observeAll (r : Record α) (agents : List (Agent α)) : Except Fault (Record α) :=
  agents.foldlM observe r

/-- Offers what another record holds. Records of different forms do not mix. -/
def merge (r other : Record α) : Except Fault (Record α) :=
  match r, other with
  | single d best, single _ (some a) => .ok (single d (some (better d best a)))
  | archive members, archive others => return archive (← members.merge others)
  | _, _ => .ok r

end Record
end Metaheuristic
