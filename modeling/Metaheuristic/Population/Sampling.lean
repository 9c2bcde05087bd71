import Metaheuristic.Population.Basic
import Metaheuristic.Random.Source

/-! Drawing genes, row after row. In a new population every gene is drawn uniformly.
Nothing is evaluated yet, so every agent counts as infeasible and has the worst
rewards. In a random walk every trial gene is drawn from around its incumbent, at
most one unit away, and clamped into the unit interval. -/
namespace Metaheuristic.Population

variable {ρ α : Type} [Scalar α] [RandomSource ρ α]

def drawGenes : Nat → Draw ρ (List α)
  | 0 => return []
  | n + 1 => do
    let gene ← Draw.unit
    let rest ← drawGenes n
    return gene :: rest

/-- A row that has not been evaluated; both blocks are the same. -/
def freshRow (layout : Layout) (directions : List Direction) (genes : List α) : Row α :=
  let block : Block α := ⟨genes, .infeasible, directions.map Direction.worst⟩
  ⟨block, if layout.twoPhase then some block else none⟩

def drawRows (layout : Layout) (directions : List Direction) : Nat → Draw ρ (List (Row α))
  | 0 => return []
  | n + 1 => do
    let genes ← drawGenes layout.genes
    let rest ← drawRows layout directions n
    return freshRow layout directions genes :: rest

/-- A new population of that many rows. -/
def draw (layout : Layout) (directions : List Direction) (count : Nat) :
    Draw ρ (Population α) := do
  let rows ← drawRows layout directions count
  return ⟨layout, count, rows⟩

/-- A step away from each gene. -/
def walkGenes : List α → Draw ρ (List α)
  | [] => return []
  | base :: rest => do
    let move ← Draw.walk
    let rest ← walkGenes rest
    return Scalar.clampUnit (base + move) :: rest

def walkRows : List Nat → Population α → Draw ρ (Population α)
  | [], p => return p
  | row :: rows, p => do
    let base ← Draw.ofExcept (p.chromosome row .incumbent)
    let genes ← walkGenes base
    walkRows rows (← Draw.ofExcept (p.setChromosome row .trial genes))

def walk (p : Population α) : Draw ρ (Population α) := walkRows (List.range p.count) p

end Metaheuristic.Population
