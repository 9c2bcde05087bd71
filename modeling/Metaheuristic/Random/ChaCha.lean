/-! The ChaCha stream cipher with twelve rounds as a stream of words.

A seed is stretched to a key by a linear congruential step with a permuted
output. Blocks of sixteen words follow one another by a block counter, and words
leave a block in order. -/
namespace Metaheuristic

/-- A position in a stream: the words of the current block not yet taken, and
the number of the next block. -/
structure ChaCha where
  key : Vector UInt32 8
  block : UInt64
  pending : List UInt32

namespace ChaCha

def rotateLeft (x : UInt32) (n : UInt32) : UInt32 := (x <<< n) ||| (x >>> (32 - n))

/-- Mixes four words of a block. -/
def quarterRound (s : Vector UInt32 16) (a b c d : Fin 16) : Vector UInt32 16 :=
  let s := s.set a (s[a] + s[b])
  let s := s.set d (rotateLeft (s[d] ^^^ s[a]) 16)
  let s := s.set c (s[c] + s[d])
  let s := s.set b (rotateLeft (s[b] ^^^ s[c]) 12)
  let s := s.set a (s[a] + s[b])
  let s := s.set d (rotateLeft (s[d] ^^^ s[a]) 8)
  let s := s.set c (s[c] + s[d])
  s.set b (rotateLeft (s[b] ^^^ s[c]) 7)

/-- One round over the columns and one over the diagonals. -/
def doubleRound (s : Vector UInt32 16) : Vector UInt32 16 :=
  let s := quarterRound s 0 4 8 12
  let s := quarterRound s 1 5 9 13
  let s := quarterRound s 2 6 10 14
  let s := quarterRound s 3 7 11 15
  let s := quarterRound s 0 5 10 15
  let s := quarterRound s 1 6 11 12
  let s := quarterRound s 2 7 8 13
  quarterRound s 3 4 9 14

def rounds : Nat → Vector UInt32 16 → Vector UInt32 16
  | 0, s => s
  | n + 1, s => rounds n (doubleRound s)

/-- The words that a block starts from: four constants, the key and the block
number. -/
def start (key : Vector UInt32 8) (block : UInt64) : Vector UInt32 16 :=
  #v[0x61707865, 0x3320646e, 0x79622d32, 0x6b206574,
    key[0], key[1], key[2], key[3], key[4], key[5], key[6], key[7],
    block.toUInt32, (block >>> 32).toUInt32, 0, 0]

def blockWords (key : Vector UInt32 8) (block : UInt64) : List UInt32 :=
  let s := start key block
  (Vector.zipWith (· + ·) (rounds 6 s) s).toList

/-- The congruential step that stretches a seed. -/
def stretch (state : UInt64) : UInt64 := state * 6364136223846793005 + 11634580027462260723

/-- The permuted output of a congruential state. -/
def permuted (state : UInt64) : UInt32 :=
  let x := (((state >>> 18) ^^^ state) >>> 27).toUInt32
  let r := (state >>> 59).toUInt32
  (x >>> r) ||| (x <<< ((32 - r) % 32))

/-- The first `n` key words from a congruential state. -/
def keyWords : Nat → UInt64 → List UInt32
  | 0, _ => []
  | n + 1, state => permuted (stretch state) :: keyWords n (stretch state)

theorem length_keyWords (n : Nat) (state : UInt64) : (keyWords n state).length = n := by
  induction n generalizing state with
  | zero => rfl
  | succ n ih => simp [keyWords, ih]

/-- The stream of a seed. -/
def ofSeed (seed : UInt64) : ChaCha :=
  { key := ⟨(keyWords 8 seed).toArray, by simp [length_keyWords]⟩, block := 0, pending := [] }

def word32 (s : ChaCha) : UInt32 × ChaCha :=
  match s.pending with
  | w :: rest => (w, { s with pending := rest })
  | [] =>
    match blockWords s.key s.block with
    | w :: rest => (w, { s with block := s.block + 1, pending := rest })
    | [] => (0, { s with block := s.block + 1 })

/-- Two words of the stream, the low one first. -/
def word64 (s : ChaCha) : UInt64 × ChaCha :=
  let (low, s) := s.word32
  let (high, s) := s.word32
  (low.toUInt64 ||| (high.toUInt64 <<< 32), s)

end ChaCha
end Metaheuristic
