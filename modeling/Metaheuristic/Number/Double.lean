import Metaheuristic.Number.Scalar

/-! Double precision numbers as scalars.

Sums, products, quotients and square roots are the type's own correctly rounded
ones. Whole parts are taken through the conversion to a machine word, which is
exact below two to the fifty-second, where every larger number is already
whole. -/
namespace Metaheuristic.Double

/-- From here on every number is whole. -/
def wholeFrom : Float := 4503599627370496.0

/-- Whole part of the magnitude of a number below `wholeFrom`. -/
def wholePart (x : Float) : Float := x.abs.toUInt64.toFloat

/-- Greatest whole number that is not above; zeros keep their sign. -/
def floor (x : Float) : Float :=
  if x.abs < wholeFrom then
    let w := wholePart x
    if x < 0.0 then (if w == x.abs then x else -(w + 1.0))
    else if x == 0.0 then x
    else w
  else x

/-- Nearest whole number, halves away from zero; zeros keep their sign. -/
def round (x : Float) : Float :=
  if x.abs < wholeFrom then
    let w := wholePart x
    let r := if 0.5 ≤ x.abs - w then w + 1.0 else w
    if x < 0.0 then -r else if x == 0.0 then x else r
  else x

/-- Half the number of machine words: signed words lie below it, and the bits of
a negative number do not. -/
def half : Nat := Nat.pow 2 63

/-- Whole part as a signed word, clamped at both ends. -/
def toSigned (x : Float) : Int :=
  let magnitude := x.abs.toUInt64.toNat
  if x < 0.0 then -(Nat.min magnitude half : Nat) else (Nat.min magnitude (half - 1) : Nat)

/-- The natural number as the nearest double. -/
def ofNat (n : Nat) : Float :=
  if n < 2 * half then n.toUInt64.toFloat else Float.ofNat n

/-- Place of a number in the total order: the bits of a number that is not
negative, and below them the negative numbers in reverse. -/
def rank (x : Float) : Int :=
  let bits := x.toBits.toNat
  if bits < half then (bits : Int) else -((bits - half : Nat) : Int) - 1

instance : Scalar Float where
  ofNat := ofNat
  infinity := 1.0 / 0.0
  notANumber := 0.0 / 0.0
  lt x y := x < y
  le x y := x ≤ y
  isFinite := Float.isFinite
  totalOrder x y := compare (rank x) (rank y)
  abs := Float.abs
  sqrt := Float.sqrt
  floor := floor
  round := round
  exp := Float.exp
  pow := Float.pow
  toWord x := x.toUInt64.toNat
  toSigned := toSigned

end Metaheuristic.Double
