import Parterre.Chance.Source

/-! # The seeded source

A stream of words that a 64-bit seed determines.  Eight words of a linear congruential generator
with permuted output make the key of the stream cipher ChaCha with twelve rounds; the words of its
blocks, in order, are the stream. -/
namespace Parterre.Chance

abbrev Block := Vector UInt32 16

/-- Rotates the bits of a word to the left, by less than 32. -/
def rotateLeft (w n : UInt32) : UInt32 := (w <<< n) ||| (w >>> (32 - n))

namespace Block

/-- Adds the word at `b` to the one at `a`, then mixes the result into the word at `d`. -/
def mix (s : Block) (a b d : Fin 16) (n : UInt32) : Block :=
  let s := s.set a (s[a] + s[b])
  s.set d (rotateLeft (s[d] ^^^ s[a]) n)

def quarterRound (s : Block) (a b c d : Fin 16) : Block :=
  (((s.mix a b d 16).mix c d b 12).mix a b d 8).mix c d b 7

/-- A round on the columns of the block and one on its diagonals. -/
def doubleRound (s : Block) : Block :=
  let s := (((s.quarterRound 0 4 8 12).quarterRound 1 5 9 13).quarterRound 2 6 10 14).quarterRound
    3 7 11 15
  (((s.quarterRound 0 5 10 15).quarterRound 1 6 11 12).quarterRound 2 7 8 13).quarterRound 3 4 9 14

/-- Twelve rounds, and the block they began with added. -/
def scramble (s : Block) : Block :=
  Vector.zipWith (· + ·) ((List.range 6).foldl (fun (s : Block) _ => s.doubleRound) s) s

end Block

/-- The first word of every block. -/
def keystreamConstants : List UInt32 := [0x61707865, 0x3320646e, 0x79622d32, 0x6b206574]

/-- The stream of a key: the number of the next block and the words at hand. -/
structure Keystream where
  key : Vector UInt32 8
  counter : UInt64
  ahead : List UInt32

namespace Keystream

/-- The block with a given number: four constants, the key, the number and a zero nonce. -/
def block (key : Vector UInt32 8) (counter : UInt64) : Block :=
  let word (i : Fin 16) : UInt32 :=
    if h : i.val < 4 then keystreamConstants[i.val]
    else if h : i.val < 12 then key[i.val - 4]
    else if i.val = 12 then counter.toUInt32
    else if i.val = 13 then (counter >>> 32).toUInt32
    else 0
  Block.scramble (Vector.ofFn word)

def refill (s : Keystream) : List UInt32 := (block s.key s.counter).toList

def next (s : Keystream) : UInt32 × Keystream :=
  match s.ahead with
  | w :: rest => (w, { s with ahead := rest })
  | [] =>
    match s.refill with
    | w :: rest => (w, { s with counter := s.counter + 1, ahead := rest })
    | [] => (0, s)

instance : WordSource Keystream := ⟨next⟩

/-- Advances the generator that stretches seeds. -/
def stretch (state : UInt64) : UInt64 := state * 6364136223846793005 + 11634580027462260723

/-- The word that a state of the generator stands for. -/
def permuted (state : UInt64) : UInt32 :=
  let mixed : UInt32 := (((state >>> 18) ^^^ state) >>> 27).toUInt32
  let turn : UInt32 := (state >>> 59).toUInt32
  rotateLeft mixed ((32 - turn) % 32)

/-- The first `n` words that a state leads to. -/
def stretched : Nat → UInt64 → List UInt32
  | 0, _ => []
  | n + 1, state => permuted (stretch state) :: stretched n (stretch state)

def ofSeed (seed : UInt64) : Keystream where
  key := Vector.ofFn fun i : Fin 8 => (stretched 8 seed).getD i 0
  counter := 0
  ahead := []

end Keystream
end Parterre.Chance
