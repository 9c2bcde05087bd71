import Metaheuristic.Options
import Metaheuristic.Population.Ranking
import Metaheuristic.Strategy.Interface
import Metaheuristic.Strategy.Selection

/-! Genetic algorithms.

After an evaluation the rows are ranked and survivors selected. A new generation
blends every row with a mate, or with itself, and redraws some of the genes. -/
namespace Metaheuristic.Genetic

structure Settings (α : Type) where
  selection : Selection
  /-- Chance that a row mates with a row drawn among all. -/
  crossoverRate : α
  /-- Chance that a gene is drawn anew. -/
  mutationRate : α
  /-- Ends of the range from which the surviving fraction is drawn. -/
  survivalLow : α
  survivalHigh : α

structure State (α : Type) where
  settings : Settings α
  matings : Nat
  mutations : Nat

namespace Settings

variable {α : Type} [Scalar α]

/-- Seven rows in ten mate, one gene in ten is redrawn, and between two and
eight rows in ten survive. -/
def default : Settings α :=
  ⟨.random, Scalar.ratio 7 10, Scalar.ratio 1 10, Scalar.ratio 2 10, Scalar.ratio 8 10⟩

def withSelection (s : Settings α) (selection : Selection) : Settings α :=
  { s with selection := selection }

/-- Sets the chance to mate, clamped to a probability. -/
def withCrossoverRate (s : Settings α) (rate : α) : Settings α :=
  { s with crossoverRate := Scalar.clampUnit rate }

/-- Sets the chance to redraw, clamped to a probability. -/
def withMutationRate (s : Settings α) (rate : α) : Settings α :=
  { s with mutationRate := Scalar.clampUnit rate }

/-- Sets the range of the surviving fraction, both ends clamped. -/
def withSurvival (s : Settings α) (low high : α) : Settings α :=
  { s with survivalLow := Scalar.clampUnit low, survivalHigh := Scalar.clampUnit high }

/-- The rates must be probabilities, and the surviving fraction must come from a
range above zero. -/
def validate (s : Settings α) : Except (ConfigError α) Unit := do
  requireWithin "crossover_rate" 1 s.crossoverRate
  requireWithin "mutation_rate" 1 s.mutationRate
  if Scalar.lt Scalar.zero s.survivalLow && Scalar.le s.survivalLow s.survivalHigh &&
      Scalar.le s.survivalHigh Scalar.one then
    .ok ()
  else
    .error (.invalidParameter "survival_lb" (.survivalRange s.survivalLow s.survivalHigh))

/-- The selection that a number stands for. -/
def selectionOf : Nat → Except (ConfigError α) Selection
  | 0 => .ok .random
  | 1 => .ok .tournament
  | code => .error (.invalidParameter "selection" (.selectionCode code))

def read : Reading α (Settings α) := do
  let s := default
  let selection ←
    match ← OptionReader.count "selection" with
    | some code => liftExcept (selectionOf code : Except (ConfigError α) Selection)
    | none => pure s.selection
  let crossoverRate := (← OptionReader.real "crossover_rate").getD s.crossoverRate
  let mutationRate := (← OptionReader.real "mutation_rate").getD s.mutationRate
  let survivalLow := (← OptionReader.real "survival_lb").getD s.survivalLow
  let survivalHigh := (← OptionReader.real "survival_ub").getD s.survivalHigh
  return ⟨selection, crossoverRate, mutationRate, survivalLow, survivalHigh⟩

end Settings

variable {ρ α : Type} [Scalar α] [RandomSource ρ α]

/-- The surviving fraction; a range without width is not drawn from. -/
def survivingFraction (s : Settings α) : Draw ρ α :=
  if Scalar.lt s.survivalLow s.survivalHigh then Draw.between s.survivalLow s.survivalHigh
  else pure s.survivalLow

/-- Ranks the rows and selects the survivors. -/
def settle (directions : List Direction) (s : State α) (p : Population α) :
    Draw ρ (State α × Population α) := do
  let p ← Draw.ofExcept (p.sortBestFirst .trial directions)
  let fraction ← survivingFraction s.settings
  let order ← s.settings.selection.order p.count fraction
  let p ← Draw.ofExcept (p.reorder order)
  return (s, p)

/-- A gene of the next generation, and whether it was drawn anew. With equal
odds it is the old gene or a blend with the gene of the mate. -/
def varyGene (s : Settings α) (gene other : α) : Draw ρ (α × Bool) := do
  let gene ←
    if ← Draw.chance (Scalar.ratio 1 2 : α) then pure gene
    else do
      let weight ← Draw.walk
      pure (gene + weight * (other - gene))
  if ← Draw.chance s.mutationRate then
    let fresh ← Draw.unit
    return (fresh, true)
  else return (gene, false)

/-- The genes of a row, and how many of them were drawn anew. -/
def varyGenes (s : Settings α) : List α → List α → Draw ρ (List α × Nat)
  | gene :: genes, other :: others => do
    let (gene, drawn) ← varyGene s gene other
    let (rest, count) ← varyGenes s genes others
    return (gene :: rest, if drawn then count + 1 else count)
  | genes, _ => return (genes, 0)

/-- The row to blend with. -/
def mateOf (s : Settings α) (rows row : Nat) : Draw ρ Nat := do
  if ← Draw.chance s.crossoverRate then Draw.index rows else return row

/-- Writes the next generation of the rows listed, reading only the parents. -/
def varyRows (parents : Population α) :
    List Nat → State α → Population α → Draw ρ (State α × Population α)
  | [], s, p => return (s, p)
  | row :: rows, s, p => do
    let mate ← mateOf s.settings parents.count row
    let others ← Draw.ofExcept (parents.chromosome mate .trial)
    let own ← Draw.ofExcept (parents.chromosome row .trial)
    let (genes, drawn) ← varyGenes s.settings own others
    let s := { s with
      matings := if mate = row then s.matings else s.matings + 1
      mutations := s.mutations + drawn }
    varyRows parents rows s (← Draw.ofExcept (p.setChromosome row .trial genes))

def vary (s : State α) (p : Population α) : Draw ρ (State α × Population α) := do
  let (s, p) ← varyRows p (List.range p.count) s p
  return (s, ← Draw.ofExcept (p.clip .trial))

/-- Number of matings with another row and of genes drawn anew. -/
def report (s : State α) : Report :=
  (Report.empty.count "matings" s.matings).count "mutations" s.mutations

end Metaheuristic.Genetic
