import ExpiringStore.SkipList.Basic

/-!
# Skip lists: the descent and the searches built on it

A search starts at the front of the highest level in use. On each level it moves along as long as
the next element precedes the wanted position, and then it goes down a level. The place reached on
each level is the last one before the position there, so the descent yields the predecessors that
an insertion or a removal has to relink.

The descent is given a number of moves that it may make in all. One move for each slot of the arena
is enough, because every move leads to a greater element.

## Main definitions

* `SkipList.locate`: the predecessors of a position, level 0 first.
* `SkipList.seek`: the first element that is not less than a position.
* `SkipList.search`, `SkipList.range`: a single position, and an interval of scores.
-/

namespace ExpiringStore.SkipList

variable {γ : Type}

/-- The next slot on a level, if its element precedes the position. -/
def ahead? (l : SkipList γ) (p : Position) (level : Nat) (place : Link) : Checked Link := do
  match ← l.next place level with
  | none => return none
  | some slot => return if (← l.element slot).position < p then some slot else none

/-- Moves along one level up to the last place before the position. Yields the place and the number
of moves left. -/
def walk (l : SkipList γ) (p : Position) (level : Nat) : Nat → Link → Checked (Link × Nat)
  | 0, place => do
    match ← l.ahead? p level place with
    | none => return (place, 0)
    | some _ => throw .endless
  | moves + 1, place => do
    match ← l.ahead? p level place with
    | none => return (place, moves + 1)
    | some slot => l.walk p level moves (some slot)

/-- Goes down through the levels below `level`, and puts the place reached on each in front of
`found`. -/
def descend (l : SkipList γ) (p : Position) : Nat → Nat → Link → List Link → Checked (List Link)
  | 0, _, _, found => return found
  | level + 1, moves, place, found => do
    let (place, moves) ← l.walk p level moves place
    l.descend p level moves place (place :: found)

/-- The last place before the position on every level in use, level 0 first. -/
def locate (l : SkipList γ) (p : Position) : Checked (List Link) :=
  l.descend p l.level l.slots none []

/-- The predecessor on a level. On a level that is not in use it is the front. -/
def predecessor (found : List Link) (level : Nat) : Link := (found[level]?).join

def seek (l : SkipList γ) (p : Position) : Checked Link := do
  l.next (predecessor (← l.locate p) 0) 0

def occupant? (l : SkipList γ) (p : Position) (found : List Link) :
    Checked (Option (Slot × Element)) := do
  match ← l.next (predecessor found 0) 0 with
  | none => return none
  | some slot =>
    let e ← l.element slot
    return if e.position = p then some (slot, e) else none

def search (l : SkipList γ) (p : Position) : Checked (Option Element) := do
  return (← l.occupant? p (← l.locate p)).map (·.2)

/-- The first `limit` items of a list, or all of them if `limit` is zero. -/
def capped {α : Type} (limit : Nat) (items : List α) : List α :=
  if limit = 0 then items else items.take limit

/-- The elements with a score from `least` to `greatest`, in order; at most `limit` of them unless
`limit` is zero. No key is smaller than the empty one, so the elements of score `least` start at its
position. -/
def range (l : SkipList γ) (least greatest : Score) (limit : Nat) : Checked (List Element) := do
  let rest ← l.elementsFrom (← l.seek ⟨least, []⟩)
  return capped limit (rest.takeWhile (·.score ≤ greatest))

end ExpiringStore.SkipList
