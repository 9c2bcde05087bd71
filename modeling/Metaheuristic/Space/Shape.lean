import Metaheuristic.Fault
import Metaheuristic.Number.Scalar

/-! Shapes of variables and their row-major index arithmetic.

Offsets are mixed-radix numerals whose digits are the index entries and whose
radices are the dimensions, the last dimension varying fastest. Sizes and
offsets are machine words. -/
namespace Metaheuristic

/-- The index ranges of a variable; none at all for a scalar. -/
structure Shape where
  dims : List Nat
  deriving DecidableEq, Repr

namespace Shape

def scalar : Shape := ⟨[]⟩

def vector (n : Nat) : Shape := ⟨[n]⟩

/-- Whether there is no index at all. -/
def isScalar (s : Shape) : Bool := s.dims.isEmpty

/-- Number of index tuples. -/
def count : List Nat → Nat
  | [] => 1
  | d :: ds => d * count ds

/-- Number of elements, as a machine word. -/
def size (s : Shape) : Nat := wrap (count s.dims)

def isEmpty (s : Shape) : Bool := s.size == 0

/-- Reads index entries as digits after the digits already read in `acc`. -/
def offsetFrom : List Nat → List Nat → Nat → Option Nat
  | [], [], acc => some acc
  | d :: ds, i :: is, acc => if i < d then offsetFrom ds is (wrap (acc * d + i)) else none
  | _, _, _ => none

/-- The offset of an index tuple; none when the tuple has the wrong length or an
entry outside its range. -/
def offset? (s : Shape) (index : List Nat) : Option Nat := offsetFrom s.dims index 0

/-- The last digits of an offset, one per dimension, with what is left over. -/
def digits : List Nat → Nat → Except Fault (List Nat × Nat)
  | [], flat => .ok ([], flat)
  | d :: ds, flat => do
    let (rest, carry) ← digits ds flat
    if d = 0 then .error .emptyDimension else .ok (carry % d :: rest, carry / d)

/-- The index tuple of an offset. Offsets past the end start over. -/
def tupleAt (s : Shape) (flat : Nat) : Except Fault (List Nat) :=
  (digits s.dims flat).map Prod.fst

end Shape
end Metaheuristic
