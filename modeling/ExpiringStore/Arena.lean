/-!
# Arenas

An arena holds values in numbered slots. A released slot stays in the arena, empty, until a later
value takes it; the slot released last is taken first. The size counts the empty slots as well, so
it only grows when no slot is free.
-/

namespace ExpiringStore

/-- The number of a place in an arena. -/
abbrev Slot := Nat

structure Arena (α : Type) where
  /-- The slots; `none` marks an empty one. -/
  cells : Array (Option α) := #[]
  free : List Slot := []

namespace Arena

variable {α : Type}

def empty : Arena α := {}

def size (a : Arena α) : Nat := a.cells.size

/-- The value in a slot, or `none` if the slot is empty or missing. -/
def get? (a : Arena α) (slot : Slot) : Option α := (a.cells[slot]?).join

/-- Puts `x` into a slot of the arena; a missing slot stays missing. -/
def put (a : Arena α) (slot : Slot) (x : α) : Arena α :=
  { a with cells := a.cells.setIfInBounds slot (some x) }

/-- Places `x` in the slot released last, or in a new slot if none is free, and tells which. Fails
if the slot named as free is missing. -/
def insert? (a : Arena α) (x : α) : Option (Slot × Arena α) :=
  match a.free with
  | [] => some (a.cells.size, { a with cells := a.cells.push (some x) })
  | slot :: rest =>
    if h : slot < a.cells.size then some (slot, ⟨a.cells.set slot (some x), rest⟩) else none

def release (a : Arena α) (slot : Slot) : Arena α :=
  ⟨a.cells.setIfInBounds slot none, slot :: a.free⟩

/-! ### What each operation does to a slot -/

@[simp] theorem get?_empty (slot : Slot) : (empty : Arena α).get? slot = none := by
  simp [get?, empty]

@[simp] theorem size_empty : (empty : Arena α).size = 0 := rfl

@[simp] theorem size_put (a : Arena α) (slot : Slot) (x : α) : (a.put slot x).size = a.size := by
  simp [put, size]

@[simp] theorem size_release (a : Arena α) (slot : Slot) : (a.release slot).size = a.size := by
  simp [release, size]

theorem lt_size_of_get? {a : Arena α} {slot : Slot} {x : α} (h : a.get? slot = some x) :
    slot < a.size := by
  rcases Nat.lt_or_ge slot a.cells.size with hlt | hge
  · exact hlt
  · simp [get?, Array.getElem?_eq_none hge] at h

theorem get?_put_self {a : Arena α} {slot : Slot} (h : slot < a.size) (x : α) :
    (a.put slot x).get? slot = some x := by
  simp only [size] at h
  simp [get?, put, h]

theorem get?_put_of_ne (a : Arena α) {slot other : Slot} (h : slot ≠ other) (x : α) :
    (a.put slot x).get? other = a.get? other := by
  simp [get?, put, Array.getElem?_setIfInBounds_ne h]

@[simp] theorem get?_release_self (a : Arena α) (slot : Slot) :
    (a.release slot).get? slot = none := by
  simp only [get?, release, Array.getElem?_setIfInBounds, ↓reduceIte]
  split <;> rfl

theorem get?_release_of_ne (a : Arena α) {slot other : Slot} (h : slot ≠ other) :
    (a.release slot).get? other = a.get? other := by
  simp [get?, release, Array.getElem?_setIfInBounds_ne h]

end Arena

end ExpiringStore
