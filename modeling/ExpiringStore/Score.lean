import ExpiringStore.Bytes

/-!
# Scores

Every key is placed in the index by a 64-bit score, with the key itself breaking ties. The score is
either the 64-bit FNV-1a hash of the key, which spreads keys evenly and means nothing to callers, or
the first eight bytes of the key as a big-endian number, which makes the order of the index the
order of the keys.
-/

namespace ExpiringStore

abbrev Score := UInt64

def fnvBasis : UInt64 := 0xcbf29ce484222325

/-- The multiplier of the hash. It is odd, so multiplying by it loses nothing modulo 2^64. -/
def fnvPrime : UInt64 := 0x100000001b3

/-- One byte of the hash: mix the byte into the low bits, then multiply. -/
def fnvStep (h : UInt64) (b : UInt8) : UInt64 := (h ^^^ b.toUInt64) * fnvPrime

def fnv1a (key : Bytes) : Score := key.foldl fnvStep fnvBasis

/-- The number whose base-256 digits are `b`, most significant first, modulo 2^64. -/
def bigEndian (b : Bytes) : UInt64 := b.foldl (fun n d => n * 256 + d.toUInt64) 0

/-- The first eight bytes of the key as a big-endian number; a shorter key is padded on the right
with zero bytes. -/
def prefixScore (key : Bytes) : Score := bigEndian ((key ++ List.replicate 8 0).take 8)

inductive ScoreMode where
  | hashed
  | ordered
  deriving DecidableEq, Repr

namespace ScoreMode

def score : ScoreMode → Bytes → Score
  | hashed, key => fnv1a key
  | ordered, key => prefixScore key

def preservesKeyOrder : ScoreMode → Bool
  | hashed => false
  | ordered => true

def name : ScoreMode → String
  | hashed => "Hashed"
  | ordered => "Ordered"

end ScoreMode

theorem fnv1a_append (a b : Bytes) : fnv1a (a ++ b) = b.foldl fnvStep (fnv1a a) := by
  simp [fnv1a, List.foldl_append]

end ExpiringStore
