/-! The fewest decimal digits that name a binary number.

A positive number `mantissa * 2 ^ exponent` is named by every decimal that lies
closer to it than to its neighbours, and by the midpoints when the mantissa is
even. The search tries one digit, two digits and so on. On each grid only the
two points next to the number have to be tested: if any point of the grid lies
in the interval, so does one of those two. -/
namespace Metaheuristic.Shortest

/-- The decimal `digits * 10 ^ exponent`. -/
structure Decimal where
  digits : Nat
  exponent : Int
  deriving DecidableEq, Repr

/-- A number with the ends of the interval that it is read back from, all
three over one denominator. -/
structure Target where
  low : Nat
  value : Nat
  high : Nat
  denominator : Nat
  /-- Whether the ends themselves read back as the number. -/
  closed : Bool

/-- The target of `mantissa * 2 ^ exponent`. The gap below is half as wide when
`narrow` says that the number is a power of two above the least exponent. -/
def Target.ofBinary (mantissa : Nat) (exponent : Int) (narrow : Bool) : Target :=
  let quarter := exponent - 2
  let scale := Nat.pow 2 quarter.toNat
  { low := (4 * mantissa - if narrow then 1 else 2) * scale
    value := 4 * mantissa * scale
    high := (4 * mantissa + 2) * scale
    denominator := Nat.pow 2 (-quarter).toNat
    closed := mantissa % 2 == 0 }

/-- Whether `x / denominator` is at most `d * 10 ^ k`. -/
def atMost (x denominator d : Nat) (k : Int) : Bool :=
  x * Nat.pow 10 (-k).toNat ≤ d * Nat.pow 10 k.toNat * denominator

/-- Whether `x / denominator` is at least `d * 10 ^ k`. -/
def atLeast (x denominator d : Nat) (k : Int) : Bool :=
  d * Nat.pow 10 k.toNat * denominator ≤ x * Nat.pow 10 (-k).toNat

/-- Whether the decimal `d * 10 ^ k` reads back as the target. -/
def Target.names (t : Target) (d : Nat) (k : Int) : Bool :=
  if t.closed then atMost t.low t.denominator d k && atLeast t.high t.denominator d k
  else !atLeast t.low t.denominator d k && !atMost t.high t.denominator d k

/-- The grid point at or below the target, in steps of `10 ^ k`. -/
def Target.floorAt (t : Target) (k : Int) : Nat :=
  (t.value * Nat.pow 10 (-k).toNat) / (t.denominator * Nat.pow 10 k.toNat)

/-- Whether the target lies closer to `d` than to `d + 1`, in steps of `10 ^ k`.
Halfway goes to the larger point. -/
def Target.closerBelow (t : Target) (d : Nat) (k : Int) : Bool :=
  2 * t.value * Nat.pow 10 (-k).toNat < (2 * d + 1) * Nat.pow 10 k.toNat * t.denominator

/-- Number of decimal digits; zero has one. -/
def digitCount (n : Nat) : Nat := (Nat.toDigits 10 n).length

/-- The exponent of the leading decimal digit. -/
def Target.leading (t : Target) : Int :=
  if t.denominator ≤ t.value then Int.ofNat (digitCount (t.value / t.denominator)) - 1
  else -Int.ofNat (digitCount ((t.denominator + t.value - 1) / t.value - 1))

/-- Drops the zeros at the end. At most `fuel` of them, and a number has fewer
zeros than digits. -/
def Decimal.trimmed (fuel : Nat) (d : Decimal) : Decimal :=
  match fuel with
  | 0 => d
  | fuel + 1 =>
    if d.digits ≠ 0 && d.digits % 10 = 0 then
      trimmed fuel { digits := d.digits / 10, exponent := d.exponent + 1 }
    else d

/-- Tries the grids from exponent `k` downwards, `fuel` finer ones at most. -/
def Target.search (t : Target) (k : Int) : Nat → Decimal
  | 0 =>
    let d := t.floorAt k
    { digits := if t.closerBelow d k then d else d + 1, exponent := k }
  | fuel + 1 =>
    let d := t.floorAt k
    match t.names d k, t.names (d + 1) k with
    | true, true => { digits := if t.closerBelow d k then d else d + 1, exponent := k }
    | true, false => { digits := d, exponent := k }
    | false, true => { digits := d + 1, exponent := k }
    | false, false => search t (k - 1) fuel

/-- The shortest decimal of the target, without zeros at the end. Seventeen
digits always suffice for a double. -/
def Target.decimal (t : Target) : Decimal :=
  let d := t.search t.leading 16
  d.trimmed (digitCount d.digits)

/-- The first mantissa of full length: below it are the fractions of a double. -/
def hiddenBit : Nat := Nat.pow 2 52

/-- The shortest decimal of a positive finite double, given by its bits without
the sign. -/
def ofBits (bits : Nat) : Decimal :=
  let field : Nat := bits / hiddenBit
  let fraction : Nat := bits % hiddenBit
  let target :=
    if field = 0 then Target.ofBinary fraction (-1074) false
    else Target.ofBinary (hiddenBit + fraction) ((field : Int) - 1075) (fraction = 0 && field > 1)
  target.decimal

end Metaheuristic.Shortest
