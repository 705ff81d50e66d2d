import ExpiringStore.Random.Source

/-!
# The xoshiro256++ generator

The word source of a store: 256 bits of state, advanced by shifts, rotations and exclusive ors. A
64-bit seed is expanded to a state by eight steps of the PCG32 generator, which yield its eight
32-bit halves, low half first. All arithmetic is modulo the word size.
-/

namespace ExpiringStore

structure Xoshiro where
  s0 : UInt64
  s1 : UInt64
  s2 : UInt64
  s3 : UInt64
  deriving DecidableEq, Repr

namespace Xoshiro

/-- The word `w` rotated to the left by `k` bits, for `0 < k < 64`. -/
def rotateLeft (w : UInt64) (k : UInt64) : UInt64 := (w <<< k) ||| (w >>> (64 - k))

/-- The word `w` rotated to the right by `k` bits, for `k < 32`. -/
def rotateRight (w : UInt32) (k : UInt32) : UInt32 := (w >>> k) ||| (w <<< ((32 - k) % 32))

def expandState (st : UInt64) : UInt64 := st * 6364136223846793005 + 11634580027462260723

/-- The half word that the expander yields in state `st`. -/
def expandHalf (st : UInt64) : UInt32 :=
  rotateRight (((st >>> 18) ^^^ st) >>> 27).toUInt32 (st >>> 59).toUInt32

/-- The full word that the expander yields after state `st`, low half first, with the state reached. -/
def expandWord (st : UInt64) : UInt64 × UInt64 :=
  let low := expandState st
  let high := expandState low
  ((expandHalf low).toUInt64 ||| ((expandHalf high).toUInt64 <<< 32), high)

def ofSeed (seed : UInt64) : Xoshiro :=
  let (s0, st) := expandWord seed
  let (s1, st) := expandWord st
  let (s2, st) := expandWord st
  let (s3, _) := expandWord st
  ⟨s0, s1, s2, s3⟩

def word (g : Xoshiro) : UInt64 := rotateLeft (g.s0 + g.s3) 23 + g.s0

def advance (g : Xoshiro) : Xoshiro :=
  let s2 := g.s2 ^^^ g.s0
  let s3 := g.s3 ^^^ g.s1
  ⟨g.s0 ^^^ s3, g.s1 ^^^ s2, s2 ^^^ (g.s1 <<< 17), rotateLeft s3 45⟩

instance : WordSource Xoshiro where
  next g := (g.word, g.advance)

end Xoshiro

end ExpiringStore
