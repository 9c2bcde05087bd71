import Metaheuristic.Number.Scalar
import Metaheuristic.Number.Double

/-! Reading numbers.

A numeral is a sign, digits with or without a point, and a power of ten. It is
read as the nearest double, so that whatever a layout writes is read back as the
number that was written; the names of the numbers that have no digits are read
as well. -/
namespace Metaheuristic

/-- The number `digits * 10 ^ exponent`, with a sign of its own because zero has
one too. -/
structure Numeral where
  negative : Bool
  digits : Nat
  exponent : Int
  deriving DecidableEq, Repr

namespace Numeral

/-- Value of a run of digits. -/
def natOfDigits (cs : List Char) : Nat :=
  cs.foldl (fun n c => 10 * n + (c.toNat - '0'.toNat)) 0

/-- A run of digits that is not empty, all of the text. -/
def readNat? (cs : List Char) : Option Nat :=
  if cs.isEmpty || cs.any (fun c => !c.isDigit) then none else some (natOfDigits cs)

/-- The power of ten after the digits: nothing, or a mark and a whole number
with or without a sign. -/
def readExponent? : List Char → Option Int
  | [] => some 0
  | mark :: cs =>
    if mark = 'e' || mark = 'E' then
      match cs with
      | '-' :: cs => (readNat? cs).map fun n => -(n : Int)
      | '+' :: cs => (readNat? cs).map fun n => (n : Int)
      | cs => (readNat? cs).map fun n => (n : Int)
    else none

/-- What follows the sign. -/
def readMagnitude? (negative : Bool) (cs : List Char) : Option Numeral :=
  let whole := cs.takeWhile Char.isDigit
  let rest := cs.dropWhile Char.isDigit
  let (places, rest) :=
    match rest with
    | '.' :: rest => (rest.takeWhile Char.isDigit, rest.dropWhile Char.isDigit)
    | rest => ([], rest)
  if whole.isEmpty then none
  else
    (readExponent? rest).map fun e =>
      { negative := negative, digits := natOfDigits (whole ++ places),
        exponent := e - (places.length : Int) }

/-- Reads a numeral that takes up the whole text. -/
def ofText? (s : String) : Option Numeral :=
  match s.toList with
  | '-' :: cs => readMagnitude? true cs
  | cs => readMagnitude? false cs

/-- The double nearest to the numeral. -/
def nearest (n : Numeral) : Float :=
  let magnitude := Float.ofScientific n.digits (n.exponent < 0) n.exponent.natAbs
  if n.negative then -magnitude else magnitude

end Numeral

/-- Reads a number as any layout writes it. -/
def Double.ofText? (s : String) : Option Float :=
  match s with
  | "NaN" => some Scalar.notANumber
  | "inf" => some Scalar.infinity
  | "-inf" => some (-Scalar.infinity)
  | s => (Numeral.ofText? s).map Numeral.nearest

end Metaheuristic
