import ExpiringStore.SkipList.Descent

/-!
# Skip lists: insertion and removal

An insertion at a position that is taken replaces the value there and nothing else. An insertion at
a free position draws a height, takes a slot and links the new element behind its predecessor on
each of its levels. A removal unlinks the element on each of its levels and frees its slot; levels
that have become empty fall out of use.

## Main definitions

* `SkipList.insert`, `SkipList.delete`, `SkipList.clear`.
* `SkipList.Edit`, `SkipList.apply`, `SkipList.applyAll`: changes as data.
-/

namespace ExpiringStore.SkipList

variable {γ : Type}

def modify (l : SkipList γ) (slot : Slot) (f : Element → Checked Element) :
    Checked (SkipList γ) := do
  let e ← f (← l.element slot)
  return { l with arena := l.arena.put slot e }

/-- Makes a place lead to `link` on a level, where no slot stands for the front. -/
def setNext (l : SkipList γ) (place : Link) (level : Nat) (link : Link) :
    Checked (SkipList γ) := do
  match place with
  | none => return { l with front := ← setLink l.front level link }
  | some slot => l.modify slot fun e => return { e with next := ← setLink e.next level link }

/-- Makes what follows on level 0 lead back to `link`: the element at `follower`, or the list itself
if nothing follows. -/
def setPrev (l : SkipList γ) (follower : Link) (link : Link) : Checked (SkipList γ) :=
  match follower with
  | none => return { l with back := link }
  | some slot => l.modify slot fun e => return { e with prev := link }

/-! ### Insertion -/

def splice (l : SkipList γ) (found : List Link) (p : Position) (value : Bytes) (height : Nat) :
    Checked (Element × SkipList γ) := do
  let next ← (List.range height).mapM fun level => l.next (predecessor found level) level
  let e : Element :=
    { key := p.key, value, score := p.score, next := next.toArray, prev := predecessor found 0 }
  let some (slot, arena) := l.arena.insert? e | throw .missingSlot
  let l := { l with arena, level := max l.level height, length := l.length + 1 }
  let l ← (List.range height).foldlM
    (fun l level => l.setNext (predecessor found level) level (some slot)) l
  let l ← l.setPrev (← linkAt e.next 0) (some slot)
  return (e, l)

/-- Puts `value` at the position of `key` and `score`, and yields the element that then stands there.
A new element draws one word for its height; a value that is replaced draws none. -/
def insert [WordSource γ] (l : SkipList γ) (key value : Bytes) (score : Score) :
    Checked (Element × SkipList γ) := do
  let p : Position := ⟨score, key⟩
  let found ← l.locate p
  match ← l.occupant? p found with
  | some (slot, e) =>
    let e := { e with value }
    return (e, { l with arena := l.arena.put slot e })
  | none =>
    let (word, source) := WordSource.next l.source
    { l with source }.splice found p value (heightOf word l.ceiling)

/-! ### Removal -/

/-- Unlinks the element `e` of a slot on one of its levels. -/
def unlink (found : List Link) (slot : Slot) (e : Element) (l : SkipList γ) (level : Nat) :
    Checked (SkipList γ) := do
  let place := predecessor found level
  if (← l.next place level) = some slot then
    l.setNext place level (← linkAt e.next level)
  else throw (.detached slot level)

/-- The number of levels in use when those at or above `level` are known to be empty: at least one,
and otherwise the least that leaves no element out. -/
def trimLevel (front : Array Link) : Nat → Checked Nat
  | level + 2 => do
    match ← linkAt front (level + 1) with
    | none => trimLevel front (level + 1)
    | some _ => return level + 2
  | level => return level

def pred? : Nat → Checked Nat
  | 0 => .error .uncounted
  | n + 1 => .ok n

def delete (l : SkipList γ) (key : Bytes) (score : Score) :
    Checked (Option Element × SkipList γ) := do
  let p : Position := ⟨score, key⟩
  let found ← l.locate p
  match ← l.occupant? p found with
  | none => return (none, l)
  | some (slot, e) =>
    let l := { l with arena := l.arena.release slot }
    let l ← (List.range e.height).foldlM (unlink found slot e) l
    let l ← l.setPrev (← linkAt e.next 0) e.prev
    let level ← trimLevel l.front l.level
    let length ← pred? l.length
    return (some e, { l with level, length })

/-- Removes every element and every slot. The word source is kept. -/
def clear (l : SkipList γ) : SkipList γ :=
  { l with
    arena := .empty, front := Array.replicate l.ceiling none, back := none, length := 0, level := 1 }

/-! ### Changes as data -/

inductive Edit where
  | insert (key value : Bytes) (score : Score)
  | delete (key : Bytes) (score : Score)
  | clear
  deriving DecidableEq, Repr

def apply [WordSource γ] (l : SkipList γ) : Edit → Checked (SkipList γ)
  | .insert key value score => return (← l.insert key value score).2
  | .delete key score => return (← l.delete key score).2
  | .clear => return l.clear

def applyAll [WordSource γ] (l : SkipList γ) (edits : List Edit) : Checked (SkipList γ) :=
  edits.foldlM apply l

end ExpiringStore.SkipList
