import Metaheuristic.Fault
import Metaheuristic.Number.Scalar

/-! The chromosomes a pass looks at, one row for each agent. -/
namespace Metaheuristic

/-- Rows of chromosomes, each with the same number of genes. -/
structure View (α : Type) where
  genes : Nat
  rows : List (List α)

namespace View

variable {α : Type}

def single (chromosome : List α) : View α := ⟨chromosome.length, [chromosome]⟩

/-- The stretch of data that starts at an offset. -/
def slice (data : List α) (start genes : Nat) : Except Fault (List α) :=
  if start + genes ≤ data.length then .ok ((data.drop start).take genes) else .error .outOfRange

/-- Rows of `genes` values, `stride` apart from one another, the first at
`offset`. The last row must fit into the data. -/
def strided (data : List α) (rows stride offset genes : Nat) : Except Fault (View α) := do
  if 0 < rows && data.length < wrap ((rows - 1) * stride + offset + genes) then
    throw .viewExceedsData
  return ⟨genes, ← (List.range rows).mapM fun i => slice data (wrap (i * stride + offset)) genes⟩

/-- Rows back to back; what is left at the end belongs to no row. -/
def contiguous (data : List α) (genes : Nat) : Except Fault (View α) :=
  strided data (if genes = 0 then 0 else data.length / genes) genes 0 genes

end View
end Metaheuristic
