import Metaheuristic.Fault
import Metaheuristic.Number.Scalar

/-! Random draws.

A source answers draws that make sense; `Draw` is a computation over a source
that faults on the others and keeps the position of the source when it does. -/
namespace Metaheuristic

/-- A source of random values whose real draws are numbers of type `α`. -/
class RandomSource (ρ : Type) (α : outParam Type) where
  /-- The source that starts from a seed. -/
  ofSeed : UInt64 → ρ
  word : ρ → UInt64 × ρ
  /-- A number from zero up to, and not including, one. -/
  unit : ρ → α × ρ
  /-- A number between two others. -/
  between : α → α → ρ → α × ρ
  chance : α → ρ → Bool × ρ
  /-- A natural number below a positive bound. -/
  index : Nat → ρ → Nat × ρ
  /-- That many different natural numbers below a bound. -/
  sample : (bound count : Nat) → ρ → List Nat × ρ

/-- A computation that draws from a source. -/
abbrev Draw (ρ β : Type) := ExceptT Fault (StateM ρ) β

namespace Draw

variable {ρ α : Type} [RandomSource ρ α]

/-- Advances the source by one draw. -/
def step {β : Type} (f : ρ → β × ρ) : Draw ρ β := fun s => (.ok (f s).1, (f s).2)

/-- A result that needs no draw. -/
def ofExcept {β : Type} (r : Except Fault β) : Draw ρ β := fun s => (r, s)

def word : Draw ρ UInt64 := step RandomSource.word

/-- A number in the unit interval, one excluded. -/
def unit : Draw ρ α := step RandomSource.unit

/-- A number between two others, which must be in order and a finite distance
apart. -/
def between [Scalar α] (lo hi : α) : Draw ρ α :=
  if Scalar.lt lo hi && Scalar.isFinite (hi - lo) then step (RandomSource.between lo hi)
  else throw .emptyRange

/-- A number from minus one to one. -/
def walk [Scalar α] : Draw ρ α := step (RandomSource.between (-Scalar.one) Scalar.one)

/-- True with the given chance, which must be a probability. -/
def chance [Scalar α] (p : α) : Draw ρ Bool :=
  if Scalar.le Scalar.zero p && Scalar.le p Scalar.one then step (RandomSource.chance p)
  else throw .improbable

/-- A natural number below a bound, which must not be zero. -/
def index (n : Nat) : Draw ρ Nat :=
  if n = 0 then throw .emptyRange else step (RandomSource.index n)

/-- Different natural numbers below a bound, no more than there are. -/
def sample (bound count : Nat) : Draw ρ (List Nat) :=
  if bound < count then throw .oversizedSample else step (RandomSource.sample bound count)

end Draw

/-- Seeds of independent streams, drawn one after the other from a source. -/
def streamSeeds {ρ α : Type} [RandomSource ρ α] : Nat → ρ → List UInt64
  | 0, _ => []
  | n + 1, s => (RandomSource.word s).1 :: streamSeeds n (RandomSource.word s).2

end Metaheuristic
