import Metaheuristic.Number.Scalar
import Metaheuristic.Space.Shape

/-! Decision variables and their coding by genes.

A variable owns a stretch of the chromosome. Its genes lie in the unit interval:
real values are affine in them, whole values are the rounded real values, and a
permutation lists the positions of its genes from the smallest to the largest. -/
namespace Metaheuristic

/-- What a variable ranges over. -/
inductive Kind where
  /-- Real values. -/
  | continuous
  /-- Real values that are not negative. -/
  | positive
  /-- Whole values. -/
  | integer
  /-- Zero or one. -/
  | binary
  /-- A permutation of the positions. -/
  | sequence
  deriving DecidableEq, Repr

def Kind.name : Kind → String
  | continuous => "continuous"
  | positive => "positive"
  | integer => "integer"
  | binary => "binary"
  | sequence => "sequence"

/-- Whether decoded values are whole. -/
def Kind.isDiscrete : Kind → Bool
  | continuous | positive => false
  | integer | binary | sequence => true

/-- The closed interval of decoded values. -/
structure Bound (α : Type) where
  lo : α
  hi : α
  deriving DecidableEq, Repr

namespace Bound

variable {α : Type} [Scalar α]

def unit : Bound α := ⟨Scalar.zero, Scalar.one⟩

/-- Distance of the ends. -/
def width (b : Bound α) : α := b.hi - b.lo

end Bound

/-- What a model says about a variable. -/
structure Declaration (α : Type) where
  name : String
  kind : Kind
  shape : Shape
  bound : Bound α

def Declaration.text {α : Type} [NumberText α] (d : Declaration α) : String :=
  "`" ++ d.name ++ "` " ++ d.kind.name ++ " " ++ bracketed d.shape.dims ++ " [" ++
    NumberText.text d.bound.lo ++ ", " ++ NumberText.text d.bound.hi ++ "]"

/-- Whether two declarations say the same. The bounds of binary and sequence
variables are implied by their kind and are not compared. -/
def Declaration.agrees {α : Type} [Scalar α] (known issued : Declaration α) : Bool :=
  let bounds :=
    match issued.kind with
    | .binary | .sequence => true
    | _ => known.bound.lo == issued.bound.lo && known.bound.hi == issued.bound.hi
  known.name == issued.name && known.kind == issued.kind && known.shape == issued.shape && bounds

/-- A declared variable with its position among the declarations and the stretch
of genes it owns, the end excluded. -/
structure Variable (α : Type) extends Declaration α where
  position : Nat
  start : Nat
  stop : Nat

namespace Variable

variable {α : Type} [Scalar α]

def width (v : Variable α) : Nat := v.stop - v.start

/-- Positions of the keys from the least to the greatest, equal keys in order. -/
def ascending (keys : List α) : List Nat :=
  (keys.zipIdx.mergeSort (fun a b => Scalar.totalOrder a.1 b.1 != .gt)).map Prod.snd

/-- Maps a gene onto the bound. -/
def stretch (b : Bound α) (gene : α) : α := b.lo + gene * b.width

/-- Maps a value of the bound to a gene; a bound without width has gene zero. -/
def squeeze (b : Bound α) (value : α) : α :=
  if Scalar.lt Scalar.zero b.width then Scalar.clampUnit ((value - b.lo) / b.width)
  else Scalar.zero

/-- Decoded values of the variable's genes. -/
def decode (v : Variable α) (genes : List α) : List α :=
  match v.kind with
  | .continuous | .positive => genes.map (stretch v.bound)
  | .integer | .binary => genes.map (fun g => Scalar.round (stretch v.bound g))
  | .sequence => (ascending genes).map Scalar.ofNat

/-- Gives each listed position its rank as a fraction of the length, starting
from `rank`. Items that are no position are passed over. -/
def rankGenes (length : Nat) : List α → (rank : Nat) → List α → List α
  | [], _, genes => genes
  | item :: items, rank, genes =>
    rankGenes length items (rank + 1) (genes.set (Scalar.toWord item) (Scalar.ratio rank length))

/-- Genes that decode to the given values. -/
def encode (v : Variable α) (values : List α) : List α :=
  match v.kind with
  | .sequence =>
    rankGenes (Nat.max values.length 1) values 0 (List.replicate values.length Scalar.zero)
  | _ => values.map (squeeze v.bound)

/-- The stretch of a chromosome that the variable owns. -/
def stretchOf (v : Variable α) (chromosome : List α) : Except Fault (List α) :=
  if v.start ≤ v.stop && v.stop ≤ chromosome.length then
    .ok ((chromosome.drop v.start).take v.width)
  else .error .outOfRange

end Variable
end Metaheuristic
