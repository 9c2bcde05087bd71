import Metaheuristic.Population.Basic

/-! Populations in one vector of numbers.

Row follows row, and inside a row block follows block: the genes, the number of the
feasibility, the rewards. A field is a stretch of the vector, found by adding up the rows
before it, the blocks before it in its row, and the fields before it in its block. Reading
and writing is reading and overwriting stretches; what reaches beyond the vector faults. -/
namespace Metaheuristic

section Stretches

variable {α : Type}

/-- Writes a list over the stretch of data that starts at a place. -/
def overwrite (data : List α) (start : Nat) (xs : List α) : Except Fault (List α) :=
  if start + xs.length ≤ data.length then
    .ok (data.take start ++ xs ++ data.drop (start + xs.length))
  else .error .outOfRange

/-- Copies a stretch of data to another place. -/
def copyWithin (data : List α) (source length target : Nat) : Except Fault (List α) := do
  overwrite data target (← View.slice data source length)

end Stretches

/-- Agents of one layout, cell after cell. -/
structure Flat (α : Type) where
  layout : Layout
  count : Nat
  data : List α

namespace Flat

variable {α : Type}

/-- Where a block starts. -/
def start (p : Flat α) (row : Nat) (region : Region) : Nat :=
  row * p.layout.stride + p.layout.offset region

/-- Writes a list over a stretch. -/
def write (p : Flat α) (start : Nat) (xs : List α) : Except Fault (Flat α) :=
  (overwrite p.data start xs).map fun data => { p with data := data }

/-- Copies a block's worth of cells. -/
def copyBlock (p : Flat α) (source target : Nat) : Except Fault (Flat α) :=
  (copyWithin p.data source p.layout.block target).map fun data => { p with data := data }

/-- The cells of a block. -/
def cells (p : Flat α) (row : Nat) (region : Region) : Except Fault (List α) :=
  View.slice p.data (p.start row region) p.layout.block

def chromosome (p : Flat α) (row : Nat) (region : Region) : Except Fault (List α) :=
  View.slice p.data (p.start row region) p.layout.genes

/-- Writes the genes of a row; there must be as many as the layout has. -/
def setChromosome (p : Flat α) (row : Nat) (region : Region) (genes : List α) :
    Except Fault (Flat α) :=
  if genes.length = p.layout.genes then p.write (p.start row region) genes
  else .error .outOfRange

def reward (p : Flat α) (row : Nat) (region : Region) : Except Fault (List α) :=
  View.slice p.data (p.start row region + p.layout.genes + 1) p.layout.objectives

/-- Writes the rewards of a row; there must be as many as the layout has. -/
def setReward (p : Flat α) (row : Nat) (region : Region) (rewards : List α) :
    Except Fault (Flat α) :=
  if rewards.length = p.layout.objectives then
    p.write (p.start row region + p.layout.genes + 1) rewards
  else .error .outOfRange

/-- Copies the trial block of a row to where the next block starts. With a single phase there
is nothing to do. -/
def promote (p : Flat α) (row : Nat) : Except Fault (Flat α) :=
  if !p.layout.twoPhase then .ok p
  else p.copyBlock (p.start row .trial) (p.start row .trial + p.layout.block)

def promoteAll (p : Flat α) : Except Fault (Flat α) := (List.range p.count).foldlM promote p

/-- Copies a block of one row over that of another. -/
def copyRow (p : Flat α) (source target : Nat) (region : Region) : Except Fault (Flat α) :=
  if source = target then .ok p
  else p.copyBlock (p.start source region) (p.start target region)

/-- Rebuilds the vector from rows of it, which may repeat. -/
def reorder (p : Flat α) (order : List Nat) : Except Fault (Flat α) := do
  let rows ← order.mapM fun row => View.slice p.data (row * p.layout.stride) p.layout.stride
  return { p with data := rows.flatten }

/-- The chromosomes of a region, one stride apart. The last one must fit into the vector. -/
def view (p : Flat α) (region : Region) : Except Fault (View α) := do
  if 0 < p.count && p.data.length < p.start (p.count - 1) region + p.layout.genes then
    throw .viewExceedsData
  return ⟨p.layout.genes, ← (List.range p.count).mapM fun row =>
    View.slice p.data (p.start row region) p.layout.genes⟩

variable [Scalar α]

def status (p : Flat α) (row : Nat) (region : Region) : Except Fault Feasibility :=
  (entry p.data (p.start row region + p.layout.genes)).map Feasibility.fromCode

def setStatus (p : Flat α) (row : Nat) (region : Region) (status : Feasibility) :
    Except Fault (Flat α) :=
  p.write (p.start row region + p.layout.genes) [status.code]

/-- Clamps the genes of a row into the unit interval. -/
def clipRow (region : Region) (p : Flat α) (row : Nat) : Except Fault (Flat α) := do
  p.setChromosome row region ((← p.chromosome row region).map Scalar.clampUnit)

def clip (p : Flat α) (region : Region) : Except Fault (Flat α) :=
  (List.range p.count).foldlM (clipRow region) p

/-- A copy of a row's agent. -/
def agent (p : Flat α) (row : Nat) (region : Region) : Except Fault (Agent α) := do
  let chromosome ← p.chromosome row region
  let reward ← p.reward row region
  let status ← p.status row region
  return ⟨chromosome, reward, status⟩

end Flat
end Metaheuristic
