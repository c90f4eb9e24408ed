/-!
# TurtleGraphics.Paint.Keystream

The random numbers of a run: the key stream of ChaCha with twelve rounds, under a key that is spread
from a 64-bit seed or, without one, comes from outside. A stream is its key and the number of values
drawn, so equal streams draw equal values.
-/

namespace TurtleGraphics

structure Keystream where
  key : Vector UInt32 8
  /-- How many 64-bit values were drawn. -/
  drawn : Nat
  deriving DecidableEq, Repr

namespace Keystream

/-! ## Seeding -/

def rotateRight (x n : UInt32) : UInt32 :=
  (x >>> n) ||| (x <<< ((32 - n) % 32))

def rotateLeft (x n : UInt32) : UInt32 :=
  (x <<< n) ||| (x >>> (32 - n))

/-- The next state of the generator that spreads a seed. -/
def seedStep (state : UInt64) : UInt64 :=
  state * 6364136223846793005 + 11634580027462260723

/-- The key word taken from a state. -/
def seedWord (state : UInt64) : UInt32 :=
  rotateRight (((state >>> 18) ^^^ state) >>> 27).toUInt32 (state >>> 59).toUInt32

/-- The state after `n` further steps. -/
def seedSteps (state : UInt64) : Nat → UInt64
  | 0 => state
  | n + 1 => seedSteps (seedStep state) n

def ofSeed (seed : UInt64) : Keystream where
  key := Vector.ofFn fun i => seedWord (seedSteps seed (i.val + 1))
  drawn := 0

end Keystream

/-- The keys that come from outside, one after the other. Nothing is known about them. -/
structure Entropy where
  key : Nat → Vector UInt32 8

namespace Entropy

/-- Zeros only. -/
def zeros : Entropy := ⟨fun _ => .replicate 8 0⟩

/-- What is left for later streams: one without a seed takes the first key. -/
def after (entropy : Entropy) : Option UInt64 → Entropy
  | some _ => entropy
  | none => ⟨fun n => entropy.key (n + 1)⟩

end Entropy

namespace Keystream

/-- The stream of a seed, or without one that of the first key from outside. -/
def start (entropy : Entropy) : Option UInt64 → Keystream
  | some seed => ofSeed seed
  | none => ⟨entropy.key 0, 0⟩

/-! ## Blocks -/

abbrev Block := Vector UInt32 16

def quarterRound (s : Block) (i j k l : Fin 16) : Block :=
  let a := s[i]
  let b := s[j]
  let c := s[k]
  let d := s[l]
  let a := a + b
  let d := rotateLeft (d ^^^ a) 16
  let c := c + d
  let b := rotateLeft (b ^^^ c) 12
  let a := a + b
  let d := rotateLeft (d ^^^ a) 8
  let c := c + d
  let b := rotateLeft (b ^^^ c) 7
  (((s.set i a).set j b).set k c).set l d

/-- A round down the columns and one along the diagonals. -/
def doubleRound (s : Block) : Block :=
  let s := quarterRound s 0 4 8 12
  let s := quarterRound s 1 5 9 13
  let s := quarterRound s 2 6 10 14
  let s := quarterRound s 3 7 11 15
  let s := quarterRound s 0 5 10 15
  let s := quarterRound s 1 6 11 12
  let s := quarterRound s 2 7 8 13
  quarterRound s 3 4 9 14

def doubleRounds : Nat → Block → Block
  | 0, s => s
  | n + 1, s => doubleRounds n (doubleRound s)

/-- The state before the rounds: four constants, the key, a 64-bit counter and two zero words. -/
def initial (key : Vector UInt32 8) (counter : Nat) : Block :=
  #v[0x61707865, 0x3320646e, 0x79622d32, 0x6b206574,
    key[0], key[1], key[2], key[3], key[4], key[5], key[6], key[7],
    UInt32.ofNat counter, UInt32.ofNat (counter >>> 32), 0, 0]

/-- The block of the key stream with a given number. -/
def block (key : Vector UInt32 8) (counter : Nat) : Block :=
  let start := initial key counter
  (doubleRounds 6 start).zipWith (· + ·) start

/-! ## Drawing -/

/-- The next 64-bit value: two words of the stream, the low one first. A block holds eight values. -/
def next (s : Keystream) : UInt64 × Keystream :=
  let words := block s.key (s.drawn / 8)
  let at2 := 2 * (s.drawn % 8)
  let low := words[at2]?.getD 0
  let high := words[at2 + 1]?.getD 0
  (low.toUInt64 ||| (high.toUInt64 <<< 32), { s with drawn := s.drawn + 1 })

/-- The next number in `[0, 1)`, with 52 random places. -/
def nextUnit (s : Keystream) : Float × Keystream :=
  let (bits, s) := s.next
  (Float.ofBits ((bits >>> 12) ||| 0x3ff0000000000000) - 1, s)

end Keystream
end TurtleGraphics
