import ExpiringStore.Arena
import ExpiringStore.Position
import ExpiringStore.Random.Source

/-!
# Skip lists: the structure and what is read off it

A skip list keeps elements in the order of their positions. The elements live in the slots of an
arena and are linked by slot number: level 0 links all of them, and level `i` links those of height
more than `i`. Level 0 is linked backwards as well. The front of every level is held beside the
arena, one link for each level up to the ceiling, and the levels in use are those below `level`.

A link that leads to an empty slot, or a level without a link, is a `Fault` and never a default
value: an operation that meets one stops and says so. On lists that were made by these operations
none arises.

## Main definitions

* `Element`, `SkipList`: the structure.
* `Fault`: what can be wrong with it.
* `SkipList.next`, `SkipList.element`: one step along a level.
* `SkipList.chain`: the slots on a level, in order.
* `SkipList.elements`: the elements of the list, in order.
-/

namespace ExpiringStore

/-- A slot, or none: the end of a level when a link leads forward, the front of the list when it
leads back. -/
abbrev Link := Option Slot

structure Element where
  key : Bytes
  value : Bytes
  score : Score
  next : Array Link
  /-- The element before this one on level 0. -/
  prev : Link
  deriving Repr

namespace Element

def position (e : Element) : Position := ⟨e.score, e.key⟩

def height (e : Element) : Nat := e.next.size

end Element

inductive Fault where
  | ceiling (requested : Nat)
  | emptySlot (slot : Slot)
  | missingLevel (level : Nat)
  | missingSlot
  /-- An element is not where the descent looked for it on one of its levels. -/
  | detached (slot : Slot) (level : Nat)
  | endless
  | uncounted
  deriving DecidableEq, Repr

def maxCeiling : Nat := 64

def defaultCeiling : Nat := 32

def Fault.message : Fault → String
  | ceiling n => .join ["skip list max_level ", toString n, " outside 1..=", toString maxCeiling]
  | emptySlot slot => .join ["skip list link leads to empty slot ", toString slot]
  | missingLevel level => .join ["skip list has no link on level ", toString level]
  | missingSlot => "skip list free list names a missing slot"
  | detached slot level =>
    .join ["skip list slot ", toString slot, " is not linked on level ", toString level]
  | endless => "skip list level does not end"
  | uncounted => "skip list counts no element to remove"

abbrev Checked (α : Type) := Except Fault α

def linkAt (links : Array Link) (level : Nat) : Checked Link :=
  match links[level]? with
  | some link => .ok link
  | none => .error (.missingLevel level)

def setLink (links : Array Link) (level : Nat) (link : Link) : Checked (Array Link) :=
  if h : level < links.size then .ok (links.set level link) else .error (.missingLevel level)

/-- An ordered index over positions, with levels drawn from a word source. -/
structure SkipList (γ : Type) where
  arena : Arena Element
  /-- The first element on each level up to the ceiling. -/
  front : Array Link
  back : Link
  length : Nat
  level : Nat
  source : γ

namespace SkipList

variable {γ : Type}

def create (ceiling : Nat) (source : γ) : Checked (SkipList γ) :=
  if 1 ≤ ceiling ∧ ceiling ≤ maxCeiling then
    .ok
      { arena := .empty, front := Array.replicate ceiling none, back := none, length := 0
        level := 1, source }
  else .error (.ceiling ceiling)

def ceiling (l : SkipList γ) : Nat := l.front.size

def isEmpty (l : SkipList γ) : Bool := l.length == 0

def slots (l : SkipList γ) : Nat := l.arena.size

def element (l : SkipList γ) (slot : Slot) : Checked Element :=
  match l.arena.get? slot with
  | some e => .ok e
  | none => .error (.emptySlot slot)

def element? (l : SkipList γ) : Link → Checked (Option Element)
  | none => .ok none
  | some slot => (l.element slot).map some

def next (l : SkipList γ) (place : Link) (level : Nat) : Checked Link :=
  match place with
  | none => linkAt l.front level
  | some slot => do linkAt (← l.element slot).next level

/-- The slots that follow one another on a level from a link on, at most `room` of them. -/
def chainFrom (l : SkipList γ) (level : Nat) : Nat → Link → Checked (List Slot)
  | _, none => .ok []
  | 0, some _ => .error .endless
  | room + 1, some slot => do
    let rest ← l.chainFrom level room (← l.next (some slot) level)
    return slot :: rest

/-- The slots on a level, in order. A level visits no slot twice, so the arena has room for it. -/
def chain (l : SkipList γ) (level : Nat) : Checked (List Slot) := do
  l.chainFrom level l.slots (← l.next none level)

def elementsFrom (l : SkipList γ) (link : Link) : Checked (List Element) := do
  (← l.chainFrom 0 l.slots link).mapM l.element

def elementsOn (l : SkipList γ) (level : Nat) : Checked (List Element) := do
  (← l.chain level).mapM l.element

def elements (l : SkipList γ) : Checked (List Element) := l.elementsOn 0

def first (l : SkipList γ) : Checked (Option Element) := do l.element? (← l.next none 0)

def last (l : SkipList γ) : Checked (Option Element) := l.element? l.back

/-- The number of elements on each level in use, level 0 first. -/
def levelCounts (l : SkipList γ) : Checked (List Nat) :=
  (List.range l.level).mapM fun level => return (← l.chain level).length

end SkipList

end ExpiringStore
