import ExpiringStore.SkipList.Descent

/-!
# Skip lists: walking from both ends

A cursor stands between two ends of a stretch of level 0. It yields elements from the front, along
the forward links, and from the back, along the backward links, in any order of calls. When both
ends stand at the same element, that element is the last one to be yielded.

## Main definitions

* `SkipList.cursor`, `SkipList.cursorFrom`: the cursor over a list, or over the end of one.
* `Cursor.step`: the element at one end.
* `Cursor.takes`: the answers to a series of requests.
* `SkipList.visit`: all elements from one end to the other.
-/

namespace ExpiringStore

/-- The stretch of a skip list that is still to be visited. -/
structure Cursor where
  front : Link
  back : Link
  /-- Whether nothing is left. -/
  done : Bool
  deriving DecidableEq, Repr

inductive End where
  | front
  | back
  deriving DecidableEq, Repr

namespace SkipList

variable {γ : Type}

def cursor (l : SkipList γ) : Checked Cursor := do
  return { front := ← l.next none 0, back := l.back, done := l.isEmpty }

def cursorFrom (l : SkipList γ) (p : Position) : Checked Cursor := do
  let front ← l.seek p
  return { front, back := l.back, done := front.isNone }

end SkipList

namespace Cursor

variable {γ : Type}

def slot? (c : Cursor) : End → Link
  | .front => c.front
  | .back => c.back

/-- The cursor after the element `e` at one end has been yielded. -/
def shrink (c : Cursor) (side : End) (e : Element) : Checked Cursor :=
  if c.front = c.back then .ok { c with done := true }
  else
    match side with
    | .front => return { c with front := ← linkAt e.next 0 }
    | .back => .ok { c with back := e.prev }

/-- The element at one end of the stretch, and the cursor over the rest. -/
def step (l : SkipList γ) (c : Cursor) (side : End) : Checked (Option Element × Cursor) := do
  if c.done then return (none, c)
  match c.slot? side with
  | none => return (none, c)
  | some slot =>
    let e ← l.element slot
    return (some e, ← c.shrink side e)

def takeUpTo (l : SkipList γ) (side : End) : Nat → Cursor → Checked (List Element × Cursor)
  | 0, c => return ([], c)
  | count + 1, c => do
    match ← c.step l side with
    | (none, c) => return ([], c)
    | (some e, c) =>
      let (rest, c) ← takeUpTo l side count c
      return (e :: rest, c)

/-- All elements that are left, taken from one end, and the cursor after them. No stretch has more
elements than the list. -/
def takeAll (l : SkipList γ) (c : Cursor) (side : End) : Checked (List Element × Cursor) :=
  takeUpTo l side l.length c

inductive Take where
  | one (side : End)
  | all (side : End)
  deriving DecidableEq, Repr

def take (l : SkipList γ) (c : Cursor) : Take → Checked (List (Option Element) × Cursor)
  | .one side => do
    let (e, c) ← c.step l side
    return ([e], c)
  | .all side => do
    let (es, c) ← c.takeAll l side
    return (es.map some, c)

def takes (l : SkipList γ) (c : Cursor) : List Take → Checked (List (Option Element) × Cursor)
  | [] => return ([], c)
  | request :: rest => do
    let (answer, c) ← c.take l request
    let (answers, c) ← c.takes l rest
    return (answer ++ answers, c)

end Cursor

def SkipList.visit {γ : Type} (l : SkipList γ) (side : End) : Checked (List Element) := do
  return (← (← l.cursor).takeAll l side).1

end ExpiringStore
