import ExpiringStore.Arena

/-!
# Arenas: free slots, and changes of all values

An arena is tidy if its free list names every empty slot once and nothing else. Placing a value and
emptying a slot keep it tidy. A change of the values in the occupied slots leaves the free slots
alone.
-/

namespace ExpiringStore.Arena

variable {α : Type}

/-- The free list names the empty slots, each of them once. -/
structure Tidy (a : Arena α) : Prop where
  nodup : a.free.Nodup
  mem_free : ∀ slot, slot ∈ a.free ↔ slot < a.size ∧ a.get? slot = none

theorem tidy_empty : (empty : Arena α).Tidy := by
  constructor <;> simp [empty, size]

/-! ### Changing every value -/

def mapSlots (f : Slot → α → α) (a : Arena α) : Arena α :=
  { a with cells := a.cells.mapIdx fun slot cell => cell.map (f slot) }

@[simp] theorem size_mapSlots (f : Slot → α → α) (a : Arena α) : (a.mapSlots f).size = a.size := by
  simp [mapSlots, size]

@[simp] theorem free_mapSlots (f : Slot → α → α) (a : Arena α) : (a.mapSlots f).free = a.free := rfl

theorem get?_mapSlots (f : Slot → α → α) (a : Arena α) (slot : Slot) :
    (a.mapSlots f).get? slot = (a.get? slot).map (f slot) := by
  simp only [get?, mapSlots, Array.getElem?_mapIdx]
  cases a.cells[slot]? with
  | none => rfl
  | some cell => rfl

theorem ext_get? {a b : Arena α} (hsize : a.size = b.size) (hfree : a.free = b.free)
    (hget : ∀ slot, a.get? slot = b.get? slot) : a = b := by
  obtain ⟨cells, free⟩ := a
  obtain ⟨cells', free'⟩ := b
  simp only [size] at hsize
  simp only at hfree
  have hcells : cells = cells' := by
    apply Array.ext hsize
    intro slot hlt hlt'
    have hslot := hget slot
    simp only [get?, Array.getElem?_eq_getElem hlt, Array.getElem?_eq_getElem hlt',
      Option.join_some] at hslot
    exact hslot
  rw [hcells, hfree]

theorem put_eq_mapSlots {a : Arena α} {slot : Slot} {x : α} (h : a.get? slot = some x)
    (f : α → α) : a.put slot (f x) = a.mapSlots fun s y => if s = slot then f y else y := by
  refine ext_get? (by simp) rfl fun other => ?_
  rw [get?_mapSlots]
  by_cases hother : other = slot
  · rw [hother, get?_put_self (lt_size_of_get? h), h]
    simp
  · rw [get?_put_of_ne a (Ne.symm hother)]
    cases a.get? other <;> simp [hother]

theorem mapSlots_id (a : Arena α) : (a.mapSlots fun _ x => x) = a := by
  refine ext_get? (by simp) rfl fun slot => ?_
  rw [get?_mapSlots]
  cases a.get? slot <;> rfl

theorem Tidy.mapSlots {a : Arena α} (h : a.Tidy) (f : Slot → α → α) : (a.mapSlots f).Tidy := by
  refine ⟨h.nodup, fun slot => ?_⟩
  rw [free_mapSlots, size_mapSlots, get?_mapSlots, Option.map_eq_none_iff]
  exact h.mem_free slot

/-! ### Placing a value -/

def nextSlot (a : Arena α) : Slot := a.free.headD a.size

theorem insert?_eq {a : Arena α} (hfree : ∀ slot ∈ a.free, slot < a.size) (x : α) :
    ∃ b, a.insert? x = some (a.nextSlot, b) ∧ b.free = a.free.tail ∧
      b.size = max a.size (a.nextSlot + 1) ∧ b.get? a.nextSlot = some x ∧
      ∀ slot ≠ a.nextSlot, b.get? slot = a.get? slot := by
  obtain ⟨cells, free⟩ := a
  cases free with
  | nil =>
    refine ⟨⟨cells.push (some x), []⟩, rfl, rfl, by simp [size, nextSlot], ?_, ?_⟩
    · simp [get?, nextSlot, size]
    · intro slot hslot
      simp only [nextSlot, size, List.headD_nil] at hslot
      simp [get?, Array.getElem?_push, hslot]
  | cons slot rest =>
    have hlt : slot < cells.size := hfree slot (by simp)
    refine ⟨⟨cells.set slot (some x), rest⟩, by simp [insert?, hlt, nextSlot], rfl, ?_, ?_, ?_⟩
    · simp only [size, Array.size_set, nextSlot, List.headD_cons]
      exact (Nat.max_eq_left hlt).symm
    · simp [get?, nextSlot, hlt]
    · intro other hother
      simp only [nextSlot, List.headD_cons] at hother
      simp [get?, Array.getElem?_set_ne hlt (Ne.symm hother)]

theorem Tidy.lt_size {a : Arena α} (h : a.Tidy) : ∀ slot ∈ a.free, slot < a.size :=
  fun slot hslot => ((h.mem_free slot).1 hslot).1

theorem Tidy.get?_nextSlot {a : Arena α} (h : a.Tidy) : a.get? a.nextSlot = none := by
  cases hfree : a.free with
  | nil =>
    have hnext : a.nextSlot = a.cells.size := by simp [nextSlot, hfree, size]
    rw [hnext, get?, Array.getElem?_eq_none (Nat.le_refl _), Option.join_none]
  | cons slot rest =>
    have hnext : a.nextSlot = slot := by simp [nextSlot, hfree]
    rw [hnext]
    exact ((h.mem_free slot).1 (by simp [hfree])).2

theorem Tidy.insert? {a b : Arena α} (h : a.Tidy) {x : α} (hfree : b.free = a.free.tail)
    (hsize : b.size = max a.size (a.nextSlot + 1)) (hself : b.get? a.nextSlot = some x)
    (hother : ∀ slot ≠ a.nextSlot, b.get? slot = a.get? slot) : b.Tidy := by
  constructor
  · rw [hfree]
    exact h.nodup.tail
  intro slot
  rw [hfree, hsize]
  cases hlist : a.free with
  | nil =>
    -- the arena has grown by the slot that was taken
    have hnext : a.nextSlot = a.size := by simp [nextSlot, hlist]
    have hgrown : slot < max a.size (a.nextSlot + 1) ↔ slot < a.size ∨ slot = a.nextSlot := by
      rw [hnext, Nat.max_eq_right (Nat.le_succ _)]
      exact Nat.lt_succ_iff_lt_or_eq
    rw [hgrown]
    constructor
    · intro hmem
      cases hmem
    · rintro ⟨hlt, hnone⟩
      by_cases hslot : slot = a.nextSlot
      · rw [hslot, hself] at hnone
        cases hnone
      · rw [hother slot hslot] at hnone
        have hmem := (h.mem_free slot).2 ⟨hlt.resolve_right hslot, hnone⟩
        rwa [hlist] at hmem
  | cons next rest =>
    -- the slot that was taken is gone from the free list
    have hnext : a.nextSlot = next := by simp [nextSlot, hlist]
    have hnodup := h.nodup
    rw [hlist, List.nodup_cons] at hnodup
    have hlt : next < a.size := h.lt_size next (by simp [hlist])
    rw [hnext, Nat.max_eq_left hlt, List.tail_cons]
    rw [hnext] at hself hother
    by_cases hslot : slot = next
    · rw [hslot, hself]
      simp [hnodup.1]
    · have hmem := h.mem_free slot
      rw [hlist, List.mem_cons, or_iff_right hslot] at hmem
      rw [hother slot hslot]
      exact hmem

/-! ### Emptying a slot -/

theorem Tidy.release {a : Arena α} (h : a.Tidy) {slot : Slot} {x : α} (hget : a.get? slot = some x) :
    (a.release slot).Tidy := by
  constructor
  · refine List.nodup_cons.2 ⟨fun hmem => ?_, h.nodup⟩
    rw [((h.mem_free slot).1 hmem).2] at hget
    cases hget
  · intro other
    rw [size_release]
    simp only [Arena.release, List.mem_cons]
    by_cases hother : other = slot
    · have hnone := get?_release_self a slot
      rw [hother]
      simpa [Arena.release, lt_size_of_get? hget] using hnone
    · have hsame := get?_release_of_ne a (Ne.symm hother)
      simp only [Arena.release] at hsame
      rw [or_iff_right hother, hsame]
      exact h.mem_free other

end ExpiringStore.Arena
