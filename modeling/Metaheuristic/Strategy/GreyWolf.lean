import Metaheuristic.Options
import Metaheuristic.Population.Ranking
import Metaheuristic.Strategy.Interface
import Metaheuristic.Random.Source

/-! The grey wolf optimizer.

The three best rows of an evaluation lead. Every gene moves to the mean of three
points, one around each leader, and the points close in on the leaders as the
budget runs out. -/
namespace Metaheuristic.GreyWolf

structure Settings (α : Type) where
  /-- Reach around the leaders at the first iteration. -/
  reach : α

/-- Settings with the leaders and the number of times the first one changed. -/
structure State (α : Type) where
  settings : Settings α
  leaders : List (List α)
  leaderChanges : Nat

namespace Settings

variable {α : Type} [Scalar α]

/-- A reach of two units. -/
def default : Settings α := ⟨Scalar.ofNat 2⟩

def withReach (s : Settings α) (reach : α) : Settings α := { s with reach := reach }

/-- The reach must be finite and not negative. -/
def validate (s : Settings α) : Except (ConfigError α) Unit := requireNonNegative "a_max" s.reach

def read : Reading α (Settings α) := do
  return ⟨(← OptionReader.real "a_max").getD default.reach⟩

end Settings

variable {ρ α : Type} [Scalar α] [RandomSource ρ α]

/-- Ranks the rows and lets the three best lead. -/
def settle (directions : List Direction) (s : State α) (p : Population α) :
    Except Fault (State α × Population α) := do
  let p ← p.sortBestFirst .trial directions
  let first ← p.chromosome 0 .trial
  let second ← p.chromosome 1 .trial
  let third ← p.chromosome 2 .trial
  let changed :=
    match s.leaders with
    | [] => true
    | old :: _ => !Scalar.sameList old first
  return ({ s with
    leaders := [first, second, third]
    leaderChanges := if changed then s.leaderChanges + 1 else s.leaderChanges }, p)

/-- Adds a point around each leader's gene at a place to a sum. -/
def addPoints (reach gene : α) (place : Nat) : List (List α) → α → Draw ρ α
  | [], sum => return sum
  | leader :: leaders, sum => do
    let spread ← Draw.unit
    let pull ← Draw.unit
    let a := Scalar.ofNat 2 * reach * spread - reach
    let c := Scalar.ofNat 2 * pull
    let lead ← Draw.ofExcept (entry leader place)
    addPoints reach gene place leaders (sum + (lead - a * Scalar.abs (c * lead - gene)))

/-- Moves the genes of a row, from place `place` on. -/
def moveGenes (reach : α) (leaders : List (List α)) : (place : Nat) → List α → Draw ρ (List α)
  | _, [] => return []
  | place, gene :: genes => do
    let sum ← addPoints reach gene place leaders Scalar.zero
    let rest ← moveGenes reach leaders (place + 1) genes
    return Scalar.clampUnit (sum / Scalar.ofNat leaders.length) :: rest

def moveRows (reach : α) (leaders : List (List α)) :
    List Nat → Population α → Draw ρ (Population α)
  | [], p => return p
  | row :: rows, p => do
    let genes ← Draw.ofExcept (p.chromosome row .trial)
    let genes ← moveGenes reach leaders 0 genes
    moveRows reach leaders rows (← Draw.ofExcept (p.setChromosome row .trial genes))

/-- Moves every row; without leaders nothing moves. -/
def vary (progress : Progress) (s : State α) (p : Population α) :
    Draw ρ (State α × Population α) := do
  if s.leaders.isEmpty then return (s, p)
  else
    let reach := s.settings.reach * (Scalar.one - progress.fraction)
    return (s, ← moveRows reach s.leaders (List.range p.count) p)

/-- Number of times the first leader changed. -/
def report (s : State α) : Report := Report.empty.count "leader_changes" s.leaderChanges

end Metaheuristic.GreyWolf
