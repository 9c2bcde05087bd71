import Metaheuristic.Model.View
import Metaheuristic.Quality.Archive

/-! Populations.

A row holds an agent as a block of genes, feasibility and rewards. Two-phase
rows hold a second block: the trial block is what gets evaluated, the incumbent
block is what the row has settled on. In single-phase rows both names mean the
only block.

A population also reads as a matrix, row after row and block after block. What
is addressed must lie inside the matrix, so an empty field may be addressed just
behind the last row. -/
namespace Metaheuristic

/-- Which block of a row. -/
inductive Region where
  | trial
  | incumbent
  deriving DecidableEq, Repr

/-- Sizes of a row. -/
structure Layout where
  genes : Nat
  objectives : Nat
  twoPhase : Bool
  deriving DecidableEq, Repr

namespace Layout

/-- Cells of a block: the genes, the feasibility and the rewards. -/
def block (l : Layout) : Nat := l.genes + 1 + l.objectives

/-- Cells of a row. -/
def stride (l : Layout) : Nat := if l.twoPhase then 2 * l.block else l.block

/-- Where a block starts in its row. -/
def offset (l : Layout) : Region → Nat
  | .trial => 0
  | .incumbent => if l.twoPhase then l.block else 0

end Layout

/-- An agent inside a row. -/
structure Block (α : Type) where
  genes : List α
  status : Feasibility
  rewards : List α
  deriving DecidableEq, Repr

/-- A row: the trial block and, in two phases, the incumbent block. -/
structure Row (α : Type) where
  trial : Block α
  incumbent : Option (Block α)
  deriving DecidableEq, Repr

namespace Row

variable {α : Type}

def block (r : Row α) : Region → Block α
  | .trial => r.trial
  | .incumbent => r.incumbent.getD r.trial

def modify (r : Row α) (region : Region) (f : Block α → Block α) : Row α :=
  match region, r.incumbent with
  | .incumbent, some b => { r with incumbent := some (f b) }
  | _, _ => { r with trial := f r.trial }

/-- Copies the trial block over the incumbent block. -/
def promote (r : Row α) : Row α := { r with incumbent := some r.trial }

end Row

def Block.cells {α : Type} [Scalar α] (b : Block α) : List α :=
  b.genes ++ b.status.code :: b.rewards

def Row.cells {α : Type} [Scalar α] (r : Row α) : List α :=
  r.trial.cells ++ (r.incumbent.map Block.cells).getD []

/-- Agents of one layout. `count` is the number of rows that the population was
made with; reordering keeps it whatever the order holds. -/
structure Population (α : Type) where
  layout : Layout
  count : Nat
  rows : List (Row α)

namespace Population

variable {α : Type}

/-- All cells, row after row. -/
def matrix [Scalar α] (p : Population α) : List α := p.rows.flatMap Row.cells

/-- Whether a field of a block, from a cell on and with a length, lies inside the
matrix. -/
def fits (p : Population α) (row : Nat) (region : Region) (start length : Nat) : Bool :=
  row * p.layout.stride + p.layout.offset region + start + length ≤
    p.rows.length * p.layout.stride

/-- Reads a field of a block; `none` is what an empty field behind the last row
reads as. -/
def field {β : Type} (p : Population α) (row : Nat) (region : Region) (start length : Nat)
    (f : Block α → β) (none : β) : Except Fault β :=
  if p.fits row region start length then
    .ok (((p.rows[row]?).map fun r => f (r.block region)).getD none)
  else .error .outOfRange

/-- Changes a field of a block. -/
def modifyField (p : Population α) (row : Nat) (region : Region) (start length : Nat)
    (f : Block α → Block α) : Except Fault (Population α) :=
  if p.fits row region start length then
    .ok { p with rows := p.rows.modify row fun r => r.modify region f }
  else .error .outOfRange

def chromosome (p : Population α) (row : Nat) (region : Region) : Except Fault (List α) :=
  p.field row region 0 p.layout.genes Block.genes []

def status (p : Population α) (row : Nat) (region : Region) : Except Fault Feasibility :=
  p.field row region p.layout.genes 1 Block.status .infeasible

def reward (p : Population α) (row : Nat) (region : Region) : Except Fault (List α) :=
  p.field row region (p.layout.genes + 1) p.layout.objectives Block.rewards []

/-- The cells of a row's block. -/
def cells [Scalar α] (p : Population α) (row : Nat) (region : Region) :
    Except Fault (List α) :=
  p.field row region 0 p.layout.block Block.cells []

/-- Writes the genes of a row; there must be as many as the layout has. -/
def setChromosome (p : Population α) (row : Nat) (region : Region) (genes : List α) :
    Except Fault (Population α) :=
  if genes.length = p.layout.genes then
    p.modifyField row region 0 p.layout.genes fun b => { b with genes := genes }
  else .error .outOfRange

def setStatus (p : Population α) (row : Nat) (region : Region) (status : Feasibility) :
    Except Fault (Population α) :=
  p.modifyField row region p.layout.genes 1 fun b => { b with status := status }

/-- Writes the rewards of a row; there must be as many as the layout has. -/
def setReward (p : Population α) (row : Nat) (region : Region) (rewards : List α) :
    Except Fault (Population α) :=
  if rewards.length = p.layout.objectives then
    p.modifyField row region (p.layout.genes + 1) p.layout.objectives
      fun b => { b with rewards := rewards }
  else .error .outOfRange

/-- Copies the trial block of a row over its incumbent block. With a single
phase there is nothing to do. -/
def promote (p : Population α) (row : Nat) : Except Fault (Population α) :=
  if !p.layout.twoPhase then .ok p
  else if row < p.rows.length then .ok { p with rows := p.rows.modify row Row.promote }
  else .error .outOfRange

def promoteAll (p : Population α) : Except Fault (Population α) :=
  (List.range p.count).foldlM promote p

/-- Copies a block of one row over that of another. -/
def copyRow (p : Population α) (source target : Nat) (region : Region) :
    Except Fault (Population α) :=
  if source = target then .ok p
  else
    match p.rows[source]?, p.rows[target]? with
    | some r, some _ =>
      .ok { p with rows := p.rows.modify target fun t => t.modify region fun _ => r.block region }
    | _, _ => .error .outOfRange

/-- Clamps every gene of a region into the unit interval. -/
def clip [Scalar α] (p : Population α) (region : Region) : Except Fault (Population α) :=
  (List.range p.count).foldlM (fun p row =>
    p.modifyField row region 0 p.layout.genes
      fun b => { b with genes := b.genes.map Scalar.clampUnit }) p

/-- The chromosomes of a region, as a pass looks at them. -/
def view (p : Population α) (region : Region) : Except Fault (View α) := do
  if 0 < p.count && !p.fits (p.count - 1) region 0 p.layout.genes then throw .viewExceedsData
  return ⟨p.layout.genes, ← (List.range p.count).mapM fun row => p.chromosome row region⟩

/-- A copy of a row's agent. -/
def agent (p : Population α) (row : Nat) (region : Region) : Except Fault (Agent α) := do
  let chromosome ← p.chromosome row region
  let reward ← p.reward row region
  let status ← p.status row region
  return ⟨chromosome, reward, status⟩

def agents (p : Population α) (region : Region) : Except Fault (List (Agent α)) :=
  (List.range p.count).mapM fun row => p.agent row region

/-- Reward `k` of a row. -/
def rewardAt (p : Population α) (region : Region) (k row : Nat) : Except Fault α := do
  match (← p.reward row region)[k]? with
  | some x => .ok x
  | none => .error .outOfRange

/-- Reward `k` of every row. -/
def rewardColumn (p : Population α) (region : Region) (k : Nat) : Except Fault (List α) :=
  (List.range p.count).mapM (p.rewardAt region k)

/-- Makes row `i` a copy of the row at entry `i` of an order, which may repeat. -/
def reorder (p : Population α) (order : List Nat) : Except Fault (Population α) := do
  let rows ← order.mapM fun row =>
    match p.rows[row]? with
    | some r => Except.ok r
    | none => .error .outOfRange
  return { p with rows := rows }

end Population
end Metaheuristic
