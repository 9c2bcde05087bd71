import Metaheuristic.Number.Double
import Metaheuristic.Number.Shortest

/-! How numbers are written.

Both layouts write the shortest digits that read back as the number. A report
keeps a fraction digit and turns to scientific notation for very large and very
small numbers; a message writes every number out in full. -/
namespace Metaheuristic

/-- Where positional notation ends and what it keeps. -/
structure NumberLayout where
  /-- Exponents of the leading digit that are written positionally, the first
  one included and the second one not; without limits all are. -/
  positional : Option (Int × Int)
  /-- Whether a whole number keeps a zero after the point. -/
  keepFraction : Bool

namespace NumberLayout

/-- Reports write from a ten-thousandth up to ten to the sixteenth positionally. -/
def report : NumberLayout := ⟨some (-4, 16), true⟩

/-- Messages never use an exponent and never add a fraction. -/
def message : NumberLayout := ⟨none, false⟩

def zeros (n : Nat) : String := String.ofList (List.replicate n '0')

/-- Writes a decimal with its point in place. -/
def positionally (layout : NumberLayout) (digits : List Char) (exponent : Int) : String :=
  if 0 ≤ exponent then
    String.ofList digits ++ zeros exponent.toNat ++ (if layout.keepFraction then ".0" else "")
  else
    let places := (-exponent).toNat
    if digits.length ≤ places then
      "0." ++ zeros (places - digits.length) ++ String.ofList digits
    else
      let whole := digits.length - places
      String.ofList (digits.take whole) ++ "." ++ String.ofList (digits.drop whole)

/-- Writes a decimal with one digit before the point and a signed exponent. -/
def scientifically (digits : List Char) (leading : Int) : String :=
  let mantissa :=
    match digits with
    | [] => "0"
    | [d] => String.ofList [d]
    | d :: rest => String.ofList (d :: '.' :: rest)
  let sign := if leading < 0 then "e-" else "e+"
  mantissa ++ sign ++ toString leading.natAbs

/-- Writes a positive decimal. -/
def decimal (layout : NumberLayout) (d : Shortest.Decimal) : String :=
  let digits := Nat.toDigits 10 d.digits
  let leading := d.exponent + digits.length - 1
  match layout.positional with
  | none => layout.positionally digits d.exponent
  | some (low, high) =>
    if low ≤ leading && leading < high then layout.positionally digits d.exponent
    else scientifically digits leading

/-- Writes a double. A negative zero keeps its sign. -/
def write (layout : NumberLayout) (x : Float) : String :=
  if x.isNaN then "NaN"
  else
    let bits := x.toBits.toNat
    let sign := if bits < Double.half then "" else "-"
    let magnitude := bits % Double.half
    if !x.isFinite then sign ++ "inf"
    else if magnitude = 0 then sign ++ (if layout.keepFraction then "0.0" else "0")
    else sign ++ layout.decimal (Shortest.ofBits magnitude)

end NumberLayout

instance : NumberText Float := ⟨NumberLayout.message.write⟩

end Metaheuristic
