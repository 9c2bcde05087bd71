import Metaheuristic.Random.ChaCha
import Metaheuristic.Random.Source

/-! Draws computed from a word stream.

Real draws use the high bits of a word. A natural number below a bound is the
high half of a product, with one correction draw where the low half falls into
the biased end. Samples of different numbers take one of three ways: a small one
replaces a repeated pick by the newest candidate, a dense one shuffles the head
of the whole range, and a large sparse one draws again whatever it has already. -/
namespace Metaheuristic

/-- A word stream whose real draws are numbers of type `α`. -/
structure Generator (α : Type) where
  stream : ChaCha

namespace Generator

variable {α : Type}

def word32 (g : Generator α) : UInt32 × Generator α :=
  let (w, s) := g.stream.word32
  (w, ⟨s⟩)

def word64 (g : Generator α) : UInt64 × Generator α :=
  let (w, s) := g.stream.word64
  (w, ⟨s⟩)

/-- A word of either width, as a natural number. -/
def wordOf (wide : Bool) (g : Generator α) : Nat × Generator α :=
  if wide then
    let (w, g) := g.word64
    (w.toNat, g)
  else
    let (w, g) := g.word32
    (w.toNat, g)

/-- Number of words of either width. -/
def wordSpan (wide : Bool) : Nat := if wide then Nat.pow 2 64 else Nat.pow 2 32

def below (wide : Bool) (n : Nat) (g : Generator α) : Nat × Generator α :=
  let span := wordSpan wide
  let (w, g) := g.wordOf wide
  let high := w * n / span
  let low := w * n % span
  if span - n < low then
    let (w, g) := g.wordOf wide
    (if span ≤ low + w * n / span then high + 1 else high, g)
  else (high, g)

/-- A natural number below `n`, from the narrower word that can hold `n`. -/
def index (n : Nat) (g : Generator α) : Nat × Generator α :=
  g.below (wordSpan false ≤ n) n

/-- Picks with candidates `next`, `next + 1`, … : a pick that is already there
hands its place to the newest candidate. -/
def sampleByReplacement : (count next : Nat) → List Nat → Generator α → List Nat × Generator α
  | 0, _, picks, g => (picks, g)
  | count + 1, next, picks, g =>
    let (t, g) := g.below false (next + 1)
    let picks := picks.map (fun p => if p = t then next else p)
    sampleByReplacement count (next + 1) (picks ++ [t]) g

def swap (a : Array Nat) (i j : Nat) : Array Nat :=
  (a.setIfInBounds i (a.getD j 0)).setIfInBounds j (a.getD i 0)

/-- Shuffles the places from `i` on, as many as `count`. -/
def shuffleHead : (count i : Nat) → Array Nat → Generator α → Array Nat × Generator α
  | 0, _, a, g => (a, g)
  | count + 1, i, a, g =>
    let (t, g) := g.below false (a.size - i)
    shuffleHead count (i + 1) (swap a i (i + t)) g

/-- The head of the shuffled range. -/
def sampleByShuffle (n count : Nat) (g : Generator α) : List Nat × Generator α :=
  let (a, g) := shuffleHead count 0 (Array.range n) g
  (a.toList.take count, g)

/-- Draws until `count` different numbers are there, with `fuel` words at most.
A word whose product falls into the biased end is drawn again. -/
def sampleByRejection (wide : Bool) (n count : Nat) :
    (fuel : Nat) → List Nat → Generator α → List Nat × Generator α
  | 0, picks, g => (picks.reverse, g)
  | fuel + 1, picks, g =>
    if picks.length = count then (picks.reverse, g)
    else
      let span := wordSpan wide
      let (w, g) := g.wordOf wide
      let low := w * n % span
      let high := w * n / span
      if low < (span - n) % n || picks.contains high then
        sampleByRejection wide n count fuel picks g
      else sampleByRejection wide n count fuel (high :: picks) g

/-- Whether a sample of fewer than 163 numbers is dense enough to shuffle. -/
def denseSmall (n count : Nat) : Bool :=
  let k := Float32.ofNat count
  let limit :=
    if n < 500000 then ((10.0 : Float32) + (1.6 : Float32) * k) * k
    else ((70.0 : Float32) / (9.0 : Float32) + (8.0 : Float32) / (45.0 : Float32) * k) * k
  11 < count && Float32.ofNat n < limit

/-- Whether a larger sample is dense enough to shuffle. -/
def denseLarge (n count : Nat) : Bool :=
  let k := Float32.ofNat count
  let limit :=
    if n < 500000 then (270.0 : Float32) * k else (330.0 : Float32) / (9.0 : Float32) * k
  Float32.ofNat n < limit

/-- Bound on the words that a sample draws again. -/
def rejectionFuel : Nat := Nat.pow 2 60

/-- Different natural numbers below `n`. -/
def sample (n count : Nat) (g : Generator α) : List Nat × Generator α :=
  if wordSpan false ≤ n then sampleByRejection true n count rejectionFuel [] g
  else if count < 163 then
    if denseSmall n count then sampleByShuffle n count g
    else sampleByReplacement count (n - count) [] g
  else if denseLarge n count then sampleByShuffle n count g
  else sampleByRejection false n count rejectionFuel [] g

variable [Scalar α]

/-- The upper 53 bits of a word as a fraction. -/
def unit (g : Generator α) : α × Generator α :=
  let (w, g) := g.word64
  (Scalar.ratio (w >>> 11).toNat (Nat.pow 2 53), g)

/-- The upper 52 bits of a word as a place between two numbers. -/
def between (lo hi : α) (g : Generator α) : α × Generator α :=
  let (w, g) := g.word64
  (Scalar.ratio (w >>> 12).toNat (Nat.pow 2 52) * (hi - lo) + lo, g)

/-- Whether a word is below the chance, scaled to the span of words. A certain
event draws nothing. -/
def chance (p : α) (g : Generator α) : Bool × Generator α :=
  if p == Scalar.one then (true, g)
  else
    let (w, g) := g.word64
    (w.toNat < Scalar.toWord (p * Scalar.ofNat (wordSpan true)), g)

instance : RandomSource (Generator α) α where
  ofSeed seed := ⟨ChaCha.ofSeed seed⟩
  word := word64
  unit := unit
  between := between
  chance := chance
  index := index
  sample := sample

end Generator
end Metaheuristic
