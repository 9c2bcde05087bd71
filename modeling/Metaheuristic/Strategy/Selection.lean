import Metaheuristic.Random.Source

/-! Survivor selection among rows that are ranked best first.

A selection is an order: its entry `i` names the row that comes to place `i`. A
lower number means a better row. -/
namespace Metaheuristic

inductive Selection where
  /-- The best rows stay, and the other places are filled by drawing from them. -/
  | random
  /-- Each place goes to the best row of a random sample. -/
  | tournament
  deriving DecidableEq, Repr

namespace Selection

variable {ρ α : Type} [RandomSource ρ α]

/-- Number of rows that a fraction stands for, at least one and at most all. -/
def sizeOf [Scalar α] (rows : Nat) (fraction : α) : Nat :=
  let size := Scalar.toWord (Scalar.round (fraction * Scalar.ofNat rows))
  if size < 1 then 1 else Nat.min size (Nat.max rows 1)

/-- The order that keeps the first rows and draws the others, for the rows listed. -/
def survivors (keep : Nat) : List Nat → Draw ρ (List Nat)
  | [] => return []
  | row :: rows => do
    let entry ← if row < keep then pure row else Draw.index keep
    let rest ← survivors keep rows
    return entry :: rest

/-- The winners of that many tournaments. -/
def tournaments (rows size : Nat) : (count : Nat) → Draw ρ (List Nat)
  | 0 => return []
  | count + 1 => do
    let sample ← Draw.sample rows size
    let rest ← tournaments rows size count
    return sample.min?.getD 0 :: rest

/-- The order of the next generation. -/
def order [Scalar α] (s : Selection) (rows : Nat) (fraction : α) : Draw ρ (List Nat) :=
  let size := sizeOf rows fraction
  match s with
  | random => survivors size (List.range rows)
  | tournament => tournaments rows size rows

end Selection
end Metaheuristic
