import Metaheuristic.Error
import Metaheuristic.Table

/-! What all algorithms share with the search around them: the place in the budget
that they are told, what they ask of a model and of their settings, and the
counters that they report. -/
namespace Metaheuristic

/-- An iteration of so many. -/
structure Progress where
  iteration : Nat
  budget : Nat
  deriving DecidableEq, Repr

/-- The part of the budget that is behind; nothing of an empty one. -/
def Progress.fraction {α : Type} [Scalar α] (p : Progress) : α :=
  if p.budget = 0 then Scalar.zero else Scalar.ratio p.iteration p.budget

section Requirements

variable {α : Type}

/-- An algorithm for one objective refuses several. -/
def requireSingleObjective (algorithm : String) (objectives : Nat) :
    Except (ConfigError α) Unit :=
  if 1 < objectives then .error (.unsupportedMultiObjective algorithm objectives) else .ok ()

/-- An algorithm that needs several agents refuses fewer. -/
def requireAgents (algorithm : String) (required actual : Nat) : Except (ConfigError α) Unit :=
  if actual < required then .error (.populationTooSmall algorithm required actual) else .ok ()

/-- A setting that counts something must not be zero. -/
def requireCount (name : String) (value : Nat) : Except (ConfigError α) Unit :=
  if value = 0 then .error (.invalidParameter name .atLeastOne) else .ok ()

variable [Scalar α]

/-- A setting from zero to a natural number. -/
def requireWithin (name : String) (hi : Nat) (x : α) : Except (ConfigError α) Unit :=
  if Scalar.le Scalar.zero x && Scalar.le x (Scalar.ofNat hi) then .ok ()
  else .error (.invalidParameter name (.within hi x))

/-- A setting that is finite and not negative. -/
def requireNonNegative (name : String) (x : α) : Except (ConfigError α) Unit :=
  if Scalar.isFinite x && Scalar.le Scalar.zero x then .ok ()
  else .error (.invalidParameter name (.finiteNonNegative x))

end Requirements

/-- What a strategy counted, by name. Counters are machine words. -/
structure Report where
  counters : Table UInt64

namespace Report

def empty : Report := ⟨.empty⟩

/-- Adds to a counter, which starts from zero. -/
def add (r : Report) (name : String) (value : UInt64) : Report :=
  ⟨r.counters.alter name fun old => old.getD 0 + value⟩

/-- Adds a number of events to a counter. -/
def count (r : Report) (name : String) (events : Nat) : Report := r.add name events.toUInt64

def get? (r : Report) (name : String) : Option UInt64 := r.counters.get? name

/-- The counters in the order of their names. -/
def toList (r : Report) : List (String × UInt64) := r.counters.entries

def isEmpty (r : Report) : Bool := r.toList.isEmpty

def merge (r other : Report) : Report :=
  other.toList.foldl (fun r entry => r.add entry.1 entry.2) r

end Report
end Metaheuristic
