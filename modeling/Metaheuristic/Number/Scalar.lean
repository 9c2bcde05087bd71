/-! The numbers that genes, objective values and settings are made of.

A search only adds, compares and rounds, so everything above this module is
written for any type with these operations. The comparisons are decided, and a
value that is not a number compares as false with every value, itself included;
`totalOrder` is the one relation that places such values too. -/
namespace Metaheuristic

/-- The arithmetic of a search. -/
class Scalar (α : Type) extends Add α, Sub α, Mul α, Div α, Neg α, BEq α where
  /-- The number nearest to a natural number. -/
  ofNat : Nat → α
  /-- Above every finite number. -/
  infinity : α
  /-- The value of an undefined operation. -/
  notANumber : α
  lt : α → α → Bool
  le : α → α → Bool
  /-- Neither infinite nor undefined. -/
  isFinite : α → Bool
  /-- Places every two values, undefined ones last. -/
  totalOrder : α → α → Ordering
  abs : α → α
  sqrt : α → α
  /-- Greatest whole number that is not above. -/
  floor : α → α
  /-- Nearest whole number, halves away from zero. -/
  round : α → α
  exp : α → α
  pow : α → α → α
  /-- Whole part as a machine word: values outside go to the nearer end, an
  undefined value to zero. -/
  toWord : α → Nat
  /-- Whole part as a signed machine word, with the same rule at the ends. -/
  toSigned : α → Int

namespace Scalar

variable {α : Type} [Scalar α]

def zero : α := ofNat 0

def one : α := ofNat 1

def ratio (n d : Nat) : α := ofNat n / ofNat d

/-- Only an undefined value differs from itself. -/
def isNaN (x : α) : Bool := !(x == x)

/-- The smaller operand; an undefined one gives way to the other, and of two
equal operands the second is taken. -/
def min (x y : α) : α :=
  if isNaN x then y else if isNaN y then x else if lt x y then x else y

/-- The larger operand, with the same rule for undefined and equal operands. -/
def max (x y : α) : α :=
  if isNaN x then y else if isNaN y then x else if lt y x then x else y

/-- Moves a value that lies outside an interval to the nearer end. An undefined
value stays as it is. -/
def clamp (lo hi x : α) : α :=
  if lt x lo then lo else if lt hi x then hi else x

def clampUnit (x : α) : α := clamp zero one x

/-- Whether a value is a whole number. -/
def isWhole (x : α) : Bool := floor x == x

/-- Whether two lists hold equal numbers. -/
def sameList : List α → List α → Bool
  | [], [] => true
  | x :: xs, y :: ys => x == y && sameList xs ys
  | _, _ => false

/-- Adds left to right, starting from negative zero, the neutral start that
keeps the sign of a sum of zeros. -/
def sum (xs : List α) : α := xs.foldl (· + ·) (-zero)

/-- Multiplies `acc` by the power `p` of `base`, by repeated squaring from the
lowest bit of `p`. -/
def powLoop (acc base : α) (p : Nat) : α :=
  let acc := if p % 2 == 1 then acc * base else acc
  if p / 2 = 0 then acc else powLoop acc (base * base) (p / 2)
termination_by p

/-- Power with a whole exponent; a negative one divides one by the power. -/
def powInt (x : α) (n : Int) : α :=
  let r := powLoop one x n.natAbs
  if n < 0 then one / r else r

end Scalar

/-- Numbers that can be written into a message. -/
class NumberText (α : Type) where
  text : α → String

/-! Sizes and counters are machine words: sums and products of them are taken
modulo the number of words. -/

def wordCount : Nat := 18446744073709551616

/-- The machine word congruent to a natural number. -/
def wrap (n : Nat) : Nat := n % wordCount

theorem wrap_of_lt {n : Nat} (h : n < wordCount) : wrap n = n := Nat.mod_eq_of_lt h

theorem wrap_lt (n : Nat) : wrap n < wordCount := Nat.mod_lt n (by decide)

end Metaheuristic
