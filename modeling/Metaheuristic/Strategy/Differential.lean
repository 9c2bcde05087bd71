import Metaheuristic.Options
import Metaheuristic.Population.Basic
import Metaheuristic.Random.Source
import Metaheuristic.Strategy.Interface

/-! Differential evolution.

An incumbent gives way to its trial when the trial is strictly better or, with
several objectives, dominates it. A new trial adds a scaled difference of two
incumbents to a third one, in at least one gene. -/
namespace Metaheuristic.Differential

structure Settings (α : Type) where
  /-- Weight of the difference. -/
  scaleFactor : α
  /-- Chance that a gene is taken from the mutant. -/
  crossoverRate : α

structure State (α : Type) where
  settings : Settings α
  replacements : Nat
  kept : Nat

namespace Settings

variable {α : Type} [Scalar α]

/-- Half the difference, in seven genes of ten. -/
def default : Settings α := ⟨Scalar.ratio 1 2, Scalar.ratio 7 10⟩

/-- Sets the weight of the difference, clamped to at most two. -/
def withScaleFactor (s : Settings α) (f : α) : Settings α :=
  { s with scaleFactor := Scalar.clamp Scalar.zero (Scalar.ofNat 2) f }

/-- Sets the chance of a mutant gene, clamped to a probability. -/
def withCrossoverRate (s : Settings α) (rate : α) : Settings α :=
  { s with crossoverRate := Scalar.clampUnit rate }

/-- The weight must lie between zero and two, the rate must be a probability. -/
def validate (s : Settings α) : Except (ConfigError α) Unit := do
  requireWithin "scale_factor" 2 s.scaleFactor
  requireWithin "crossover_rate" 1 s.crossoverRate

def read : Reading α (Settings α) := do
  let s := default
  let scaleFactor := (← OptionReader.real "scale_factor").getD s.scaleFactor
  let crossoverRate := (← OptionReader.real "crossover_rate").getD s.crossoverRate
  return ⟨scaleFactor, crossoverRate⟩

end Settings

variable {ρ α : Type} [Scalar α] [RandomSource ρ α]

/-- Whether a trial replaces its incumbent. -/
def improves (directions : List Direction) (trial incumbent : List α) : Except Fault Bool :=
  match directions with
  | [d] =>
    match trial.head?, incumbent.head? with
    | some x, some y => .ok (d.isBetter x y)
    | _, _ => .error .outOfRange
  | _ => .ok (dominates directions trial incumbent)

/-- Lets the trials of the rows listed replace their incumbents. -/
def settleRows (directions : List Direction) :
    List Nat → State α → Population α → Except Fault (State α × Population α)
  | [], s, p => .ok (s, p)
  | row :: rows, s, p => do
    let trial ← p.reward row .trial
    let incumbent ← p.reward row .incumbent
    if ← improves directions trial incumbent then
      settleRows directions rows { s with replacements := s.replacements + 1 } (← p.promote row)
    else settleRows directions rows { s with kept := s.kept + 1 } p

/-- Lets the trials replace their incumbents. -/
def settle (directions : List Direction) (s : State α) (p : Population α) :
    Except Fault (State α × Population α) :=
  settleRows directions (List.range p.count) s p

/-- Three different rows, none of them the given one: numbers from the given one
on are moved up by one. -/
def partners (rows row : Nat) : Draw ρ (List Nat) := do
  let picks ← Draw.sample (rows - 1) 3
  return picks.map fun k => if row ≤ k then k + 1 else k

/-- The genes of a trial: those of the mutant at the place `forced` and, by
chance, at others, and those of the incumbent elsewhere. -/
def trialGenes (s : Settings α) (forced : Nat) :
    (place : Nat) → (base a b current : List α) → Draw ρ (List α)
  | place, x :: base, y :: a, z :: b, w :: current => do
    let mutant ← if place = forced then pure true else Draw.chance s.crossoverRate
    let gene := if mutant then x + s.scaleFactor * (y - z) else w
    let rest ← trialGenes s forced (place + 1) base a b current
    return gene :: rest
  | _, _, _, _, _ => return []

/-- Writes new trials of the rows listed, reading only incumbents. -/
def varyRows (s : Settings α) : List Nat → Population α → Draw ρ (Population α)
  | [], p => return p
  | row :: rows, p => do
    match ← partners p.count row with
    | [r0, r1, r2] =>
      let forced ← Draw.index p.layout.genes
      let base ← Draw.ofExcept (p.chromosome r0 .incumbent)
      let a ← Draw.ofExcept (p.chromosome r1 .incumbent)
      let b ← Draw.ofExcept (p.chromosome r2 .incumbent)
      let current ← Draw.ofExcept (p.chromosome row .incumbent)
      let genes ← trialGenes s forced 0 base a b current
      varyRows s rows (← Draw.ofExcept (p.setChromosome row .trial genes))
    | _ => throw .outOfRange

def vary (s : State α) (p : Population α) : Draw ρ (State α × Population α) := do
  let p ← varyRows s.settings (List.range p.count) p
  return (s, ← Draw.ofExcept (p.clip .trial))

/-- Number of incumbents replaced and kept. -/
def report (s : State α) : Report :=
  (Report.empty.count "replacements" s.replacements).count "kept" s.kept

end Metaheuristic.Differential
