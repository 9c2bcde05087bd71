import Metaheuristic.Number.Scalar

/-! Statistics of one iteration. -/
namespace Metaheuristic

/-- The spread of the first objective over the agents. -/
structure Statistics (α : Type) where
  iteration : Nat
  min : α
  max : α
  mean : α
  /-- Standard deviation of the population. -/
  std : α

namespace Statistics

variable {α : Type} [Scalar α]

/-- The statistics of the finite values of a column, undefined when there are
none. -/
def ofColumn (iteration : Nat) (column : List α) : Statistics α :=
  let finite := column.filter Scalar.isFinite
  if finite.isEmpty then
    ⟨iteration, Scalar.notANumber, Scalar.notANumber, Scalar.notANumber, Scalar.notANumber⟩
  else
    let n := Scalar.ofNat finite.length
    let mean := Scalar.sum finite / n
    let variance := Scalar.sum (finite.map fun v => Scalar.powInt (v - mean) 2) / n
    { iteration := iteration
      min := finite.foldl Scalar.min Scalar.infinity
      max := finite.foldl Scalar.max (-Scalar.infinity)
      mean := mean
      std := Scalar.sqrt variance }

end Statistics
end Metaheuristic
