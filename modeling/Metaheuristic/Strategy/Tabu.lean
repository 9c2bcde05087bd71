import Metaheuristic.Options
import Metaheuristic.Strategy.Interface
import Metaheuristic.Population.Sampling
import Std.Data.HashSet

/-! Tabu search over one agent.

States are compared on a grid. The memory holds the last states on the grid that
were moved to, the oldest leaving first. A strict search does not move back to a
state in memory unless it is the best of all; the default search only climbs. -/
namespace Metaheuristic.Tabu

/-- A state on the grid. -/
abbrev Key := List Int

/-- A first-in first-out memory of bounded size, with the set of its keys. -/
structure Memory where
  queue : List Key
  members : Std.HashSet Key

namespace Memory

def empty : Memory := ⟨[], ∅⟩

def contains (m : Memory) (key : Key) : Bool := m.members.contains key

def forgetOldest (m : Memory) : Memory :=
  match m.queue with
  | [] => m
  | oldest :: rest => ⟨rest, m.members.erase oldest⟩

/-- Adds a key that is not in memory yet; a full memory forgets its oldest. -/
def remember (tenure : Nat) (m : Memory) (key : Key) : Memory :=
  if m.contains key then m
  else
    let m := if tenure ≤ m.queue.length then m.forgetOldest else m
    ⟨m.queue ++ [key], m.members.insert key⟩

def size (m : Memory) : Nat := m.queue.length

end Memory

structure Settings (α : Type) where
  /-- Number of states in a full memory. -/
  tenure : Nat
  /-- Whether the memory is consulted. -/
  strict : Bool
  /-- Grid points per unit. -/
  resolution : α

/-- Settings with the memory, the best reward and what has been counted. -/
structure State (α : Type) where
  settings : Settings α
  memory : Memory
  best : Option α
  moves : Nat
  rejected : Nat
  hits : Nat
  aspirations : Nat

namespace Settings

variable {α : Type} [Scalar α]

/-- Seven states on a grid of hundredths, never consulted. -/
def default : Settings α := ⟨7, false, Scalar.ofNat 100⟩

/-- Sets the number of states in memory. -/
def withTenure (s : Settings α) (n : Nat) : Settings α := { s with tenure := n }

def withStrict (s : Settings α) (strict : Bool) : Settings α := { s with strict := strict }

def withResolution (s : Settings α) (r : α) : Settings α := { s with resolution := r }

/-- The memory must hold a state, and the grid must be finite and positive. -/
def validate (s : Settings α) : Except (ConfigError α) Unit := do
  requireCount "tabu_tenure" s.tenure
  if Scalar.isFinite s.resolution && Scalar.lt Scalar.zero s.resolution then .ok ()
  else .error (.invalidParameter "resolution" (.positive s.resolution))

def read : Reading α (Settings α) := do
  let s := default
  let tenure := (← OptionReader.count "tabu_tenure").getD s.tenure
  let strict := (← OptionReader.flag "strict").getD s.strict
  let resolution := (← OptionReader.real "resolution").getD s.resolution
  return ⟨tenure, strict, resolution⟩

end Settings

variable {ρ α : Type} [Scalar α] [RandomSource ρ α]

/-- The state of a chromosome on the grid. -/
def keyOf (s : Settings α) (chromosome : List α) : Key :=
  chromosome.map fun g => Scalar.toSigned (Scalar.round (g * s.resolution))

/-- Moves to the candidate and keeps the best reward. -/
def commit (d : Direction) (reward : α) (s : State α) (p : Population α) :
    Except Fault (State α × Population α) := do
  let p ← p.promote 0
  let improves :=
    match s.best with
    | none => true
    | some best => d.isBetter reward best
  return ({ s with
    moves := s.moves + 1, best := if improves then some reward else s.best }, p)

/-- Puts a key into memory and moves to the candidate. -/
def enter (d : Direction) (key : Key) (reward : α) (s : State α) (p : Population α) :
    Except Fault (State α × Population α) :=
  commit d reward { s with memory := s.memory.remember s.settings.tenure key } p

/-- Whether a candidate beats the best reward. -/
def aspires (d : Direction) (reward : α) (s : State α) : Bool :=
  match s.best with
  | none => true
  | some best => d.isBetter reward best

/-- Moves to the candidate or stays. The first candidate is always moved to. -/
def settle (directions : List Direction) (progress : Progress) (s : State α) (p : Population α) :
    Except Fault (State α × Population α) := do
  match directions with
  | [] => .error .outOfRange
  | d :: _ =>
    let reward ← p.rewardAt .trial 0 0
    let key := keyOf s.settings (← p.chromosome 0 .trial)
    if progress.iteration = 0 then enter d key reward s p
    else if !s.settings.strict then
      let current ← p.rewardAt .incumbent 0 0
      if d.isBetter reward current then commit d reward s p
      else return ({ s with rejected := s.rejected + 1 }, p)
    else if !s.memory.contains key then enter d key reward s p
    else if aspires d reward s then
      enter d key reward { s with hits := s.hits + 1, aspirations := s.aspirations + 1 } p
    else return ({ s with hits := s.hits + 1, rejected := s.rejected + 1 }, p)

def vary (s : State α) (p : Population α) : Draw ρ (State α × Population α) := do
  return (s, ← p.walk)

/-- Number of moves and rejections, of candidates found in memory, of those moved
to nevertheless, and of states in memory. -/
def report (s : State α) : Report :=
  ((((Report.empty.count "moves" s.moves).count "rejected" s.rejected).count
    "tabu_hits" s.hits).count "aspirations" s.aspirations).count "memory" s.memory.size

end Metaheuristic.Tabu
