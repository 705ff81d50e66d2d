import ExpiringStore.Bytes

/-!
# Records

A record is a name with a score. It is written as the name, a bar and the score in decimal, in
UTF-8. Reading takes the name up to the first bar; what follows is the score, a number below 2^32 in
decimal digits that may have one plus sign in front.

## Main definitions

* `Record.encode`, `Record.decode?`: the written form, and reading it.
-/

namespace ExpiringStore

structure Record where
  name : String
  score : UInt32
  deriving DecidableEq, Repr

namespace Record

def encode (r : Record) : Bytes := Bytes.ofText (r.name ++ "|" ++ toString r.score.toNat)

/-- What is left of a number without one plus sign in front. -/
def unsigned : List Char → List Char
  | '+' :: digits => digits
  | digits => digits

/-- The number below 2^32 that is written in decimal digits, with one plus sign allowed in front. -/
def readScore? (text : List Char) : Option UInt32 :=
  let digits := unsigned text
  if digits ≠ [] ∧ digits.all Char.isDigit ∧ Nat.ofDigitChars 10 digits 0 < UInt32.size then
    some (Nat.ofDigitChars 10 digits 0).toUInt32
  else none

/-- The parts of a text before and after its first bar. -/
def splitBar? (text : List Char) : Option (List Char × List Char) :=
  match text.dropWhile (· != '|') with
  | [] => none
  | _ :: rest => some (text.takeWhile (· != '|'), rest)

def decode? (b : Bytes) : Option Record := do
  let (name, rest) ← splitBar? (← b.text?).toList
  return { name := String.ofList name, score := ← readScore? rest }

end Record

end ExpiringStore
