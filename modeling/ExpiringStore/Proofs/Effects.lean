import ExpiringStore.Proofs.History
import ExpiringStore.Random.Xoshiro

/-!
# What a change leaves alone

A removal that finds nothing changes nothing at all, and an insertion at a taken position changes one
value. An element that is put in and taken out again leaves every link and every counter as it was:
only a word was drawn for it, and if no slot was free, the arena has kept the slot that it got.

## Main definitions

* `SkipList.Revalued`: a list in which one slot holds another element.
* `SkipList.Restored`: a list out of which an element was taken that had just been put in.
-/

namespace ExpiringStore

namespace Arena

variable {α : Type}

theorem get?_push_none (a : Arena α) (free : List Slot) (slot : Slot) :
    get? ⟨a.cells.push none, free⟩ slot = a.get? slot := by
  rw [get?, get?, Array.getElem?_push]
  split
  next hslot => rw [hslot, Array.getElem?_eq_none (Nat.le_refl _)]; rfl
  next => rfl

end Arena

theorem Element.forall_position_ne_iff {es : List Element} {p : Position} :
    (∀ e ∈ es, e.position ≠ p) ↔ p ∉ es.map position := by
  simp only [List.mem_map, not_exists, not_and, ne_eq]

namespace SkipList

open Tower

variable {γ : Type} {l u : SkipList γ} {ts : List Tower}

/-! ### A miss, and another value -/

/-- `u` is `l`, but for the element `e` in one slot. -/
structure Revalued (l : SkipList γ) (slot : Slot) (e : Element) (u : SkipList γ) : Prop where
  get?_self : u.arena.get? slot = some e
  get?_of_ne : ∀ other ≠ slot, u.arena.get? other = l.arena.get? other
  slots_eq : u.slots = l.slots
  free_eq : u.arena.free = l.arena.free
  unchanged : u = { l with arena := u.arena }

theorem revalued_put {slot : Slot} {d : Element} (h : l.arena.get? slot = some d) (e : Element) :
    l.Revalued slot e { l with arena := l.arena.put slot e } where
  get?_self := Arena.get?_put_self (Arena.lt_size_of_get? h) e
  get?_of_ne := fun _ hother => Arena.get?_put_of_ne l.arena (Ne.symm hother) e
  slots_eq := Arena.size_put l.arena slot e
  free_eq := rfl
  unchanged := rfl

namespace Layout

/-- A position that no element has is one that no tower has. -/
theorem absent_of_elementsIn {p : Position} (h : ∀ e ∈ elementsIn [] ts [], e.position ≠ p) :
    ∀ t ∈ ts, t.position ≠ p := by
  rw [Element.forall_position_ne_iff, map_elementsIn position_element] at h
  exact absent_of_not_mem h

theorem mapM_slots (h : l.Layout ts) : (ts.map slot).mapM l.element = .ok (elementsIn [] ts []) := by
  have helements := h.elements_eq
  rwa [SkipList.elements, elementsOn, h.chain_zero_eq] at helements

theorem insert_revalued [WordSource γ] (h : l.Layout ts) {slot : Slot}
    (hslot : slot ∈ ts.map Tower.slot) {e : Element} (he : l.element slot = .ok e) (value : Bytes) :
    ∃ u, l.insert e.key value e.score = .ok ({ e with value }, u) ∧
      l.Revalued slot { e with value } u := by
  obtain ⟨t, ht, rfl⟩ := List.mem_map.1 hslot
  obtain ⟨before, after, hsplit⟩ := List.append_of_mem ht
  obtain rfl : t.element before after = e := Except.ok.inj ((h.element_eq hsplit).symm.trans he)
  exact ⟨_, (h.insert_taken hsplit value).1, revalued_put (h.cell before t after hsplit) _⟩

end Layout

/-- After every history of changes, a removal at a position that no element has leaves the very same
list, and an insertion at the position of an element changes the value in its slot and nothing else. -/
theorem structure_kept_by_misses_and_overwrites [WordSource γ] {ceiling : Nat} (hpos : 1 ≤ ceiling)
    (hle : ceiling ≤ maxCeiling) (source : γ) (edits : List Edit) :
    ∃ l slots es, ofHistory ceiling source edits = .ok l ∧ l.chain 0 = .ok slots ∧
      slots.mapM l.element = .ok es ∧
      (∀ key score, (∀ e ∈ es, e.position ≠ ⟨score, key⟩) →
        l.delete key score = .ok (none, l)) ∧
      ∀ slot ∈ slots, ∀ e, l.element slot = .ok e → ∀ value, ∃ u,
        l.insert e.key value e.score = .ok ({ e with value }, u) ∧
        l.Revalued slot { e with value } u := by
  obtain ⟨l, ts, hall, hlayout, -⟩ := layout_ofHistory hpos hle source edits
  refine ⟨l, _, _, hall, hlayout.chain_zero_eq, hlayout.mapM_slots, ?_, ?_⟩
  · intro key score habsent
    exact hlayout.delete_absent (Layout.absent_of_elementsIn habsent)
  · intro slot hslot e he value
    exact hlayout.insert_revalued hslot he value

theorem structure_kept_by_misses_and_overwrites_among_equal_scores :
    1 ≤ 4 ∧ 4 ≤ maxCeiling ∧
      ∃ l slots es e u, ofHistory 4 (Xoshiro.ofSeed 7)
          [.insert [98] [1] 5, .insert [97] [2] 5, .insert [97] [3] 4, .delete [98] 5,
            .insert [] [4] 5] = .ok l ∧
        l.chain 0 = .ok slots ∧ slots.mapM l.element = .ok es ∧
        (∀ e ∈ es, e.position ≠ ⟨5, [98]⟩) ∧ l.delete [98] 5 = .ok (none, l) ∧
        1 ∈ slots ∧ l.element 1 = .ok e ∧ e.position = ⟨5, [97]⟩ ∧
        l.insert [97] [9] 5 = .ok ({ e with value := [9] }, u) ∧
        l.Revalued 1 { e with value := [9] } u := by
  obtain ⟨l, slots, es, hall, hslots, hes, hmiss, htaken⟩ :=
    structure_kept_by_misses_and_overwrites (show 1 ≤ 4 by decide) (by decide) (Xoshiro.ofSeed 7)
      [.insert [98] [1] 5, .insert [97] [2] 5, .insert [97] [3] 4, .delete [98] 5,
        .insert [] [4] 5]
  have hchain : (ofHistory 4 (Xoshiro.ofSeed 7)
      [.insert [98] [1] 5, .insert [97] [2] 5, .insert [97] [3] 4, .delete [98] 5,
        .insert [] [4] 5] >>= fun l => l.chain 0) = .ok [2, 0, 1] := rfl
  have hpositions : (ofHistory 4 (Xoshiro.ofSeed 7)
      [.insert [98] [1] 5, .insert [97] [2] 5, .insert [97] [3] 4, .delete [98] 5,
        .insert [] [4] 5] >>= fun l => [2, 0, 1].mapM l.element).map
          (List.map Element.position) =
      .ok [⟨4, [97]⟩, ⟨5, []⟩, ⟨5, [97]⟩] := rfl
  have hlast : (ofHistory 4 (Xoshiro.ofSeed 7)
      [.insert [98] [1] 5, .insert [97] [2] 5, .insert [97] [3] 4, .delete [98] 5,
        .insert [] [4] 5] >>= fun l => l.element 1).map Element.position = .ok ⟨5, [97]⟩ := rfl
  rw [hall, Checked.ok_bind] at hchain hpositions hlast
  obtain rfl : slots = [2, 0, 1] := Except.ok.inj (hslots.symm.trans hchain)
  rw [hes] at hpositions
  have habsent : ∀ e ∈ es, e.position ≠ ⟨5, [98]⟩ := by
    rw [Element.forall_position_ne_iff, Except.ok.inj hpositions]
    decide
  cases he : l.element 1 with
  | error fault =>
    rw [he] at hlast
    cases hlast
  | ok e =>
    rw [he] at hlast
    obtain ⟨key, old, score, next, prev⟩ := e
    obtain ⟨rfl, rfl⟩ := Position.mk.inj (Except.ok.inj hlast)
    obtain ⟨u, hinsert, hrevalued⟩ := htaken 1 (by decide) _ he [9]
    exact ⟨by decide, by decide, l, _, es, _, u, hall, hslots, hes, habsent, hmiss _ _ habsent,
      by decide, he, rfl, hinsert, hrevalued⟩

/-! ### An element that is put in and taken out again -/

/-- `u` is `l` again, but for the words that it will draw, and for a free slot where `l` had none. -/
structure Restored (l u : SkipList γ) : Prop where
  get?_eq : ∀ slot, u.arena.get? slot = l.arena.get? slot
  reused : l.arena.free ≠ [] → u.arena = l.arena
  grown : l.arena.free = [] → u.arena = ⟨l.arena.cells.push none, [l.slots]⟩
  unchanged : u = { l with arena := u.arena, source := u.source }

namespace Layout

/-- A new element is taken out by a removal at its position, and its slot is the first free one. -/
theorem insert_delete [WordSource γ] (h : l.Layout ts) {key : Bytes} {score : Score}
    (habsent : ∀ t ∈ ts, t.position ≠ ⟨score, key⟩) (value : Bytes) :
    ∃ e l' u, l.insert key value score = .ok (e, l') ∧ l'.delete key score = .ok (some e, u) ∧
      (e.key = key ∧ e.value = value ∧ e.score = score ∧
        e.height = heightOf (WordSource.next l.source).1 l.ceiling) ∧
      u.Layout ts ∧ u.ceiling = l.ceiling ∧ u.source = (WordSource.next l.source).2 ∧
      u.arena.free = l.arena.nextSlot :: l.arena.free.tail := by
  obtain ⟨l', hinsert, hlayout, hsource, hceiling, hfree⟩ := h.insert_new habsent value
  have hsplit : place (l.drawnTower ⟨score, key⟩ value) ts =
      below ⟨score, key⟩ ts ++ l.drawnTower ⟨score, key⟩ value :: onward ⟨score, key⟩ ts := rfl
  have hunlinked := hlayout.unlinked hsplit
  rw [below_append_onward] at hunlinked
  refine ⟨_, l', _, hinsert, hlayout.delete_present hsplit, ⟨rfl, rfl, rfl, height_element ..⟩,
    hunlinked, (size_rewire ..).trans hceiling, ?_, ?_⟩
  · rw [source_unlinked, hsource]
  · show _ :: l'.arena.free = _
    rw [hfree]
    rfl

/-- The towers determine the cells, so a list that has its towers back has its cells back. -/
theorem restored (h : l.Layout ts) (hu : u.Layout ts) (hceiling : u.ceiling = l.ceiling)
    (hfree : u.arena.free = l.arena.nextSlot :: l.arena.free.tail) : l.Restored u := by
  have hget := h.get?_congr hu
  have hslots : u.slots = ts.length + (l.arena.free.tail.length + 1) := by
    rw [hu.slots_eq, hfree, List.length_cons]
  constructor
  case get?_eq => exact hget
  case reused =>
    intro hsome
    obtain ⟨slot, rest, hlist⟩ := List.exists_cons_of_ne_nil hsome
    have hsame : u.arena.free = l.arena.free := by
      rw [hfree, Arena.nextSlot, hlist]
      rfl
    refine Arena.ext_get? ?_ hsame hget
    show u.slots = l.slots
    rw [hu.slots_eq, h.slots_eq, hsame]
  case grown =>
    intro hnone
    have hlast : u.arena.free = [l.slots] := by
      rw [hfree, Arena.nextSlot, hnone]
      rfl
    refine Arena.ext_get? ?_ hlast fun slot => ?_
    · show u.slots = (l.arena.cells.push none).size
      rw [hu.slots_eq, hlast, Array.size_push, List.length_singleton]
      have hfull := h.slots_eq
      rw [hnone, List.length_nil, Nat.add_zero] at hfull
      rw [← hfull]
      rfl
    · rw [hget, Arena.get?_push_none]
  case unchanged =>
    have hdrawn : SkipList.Layout { l with source := u.source } ts := { h with }
    exact hdrawn.eq_of_source_eq hu hceiling rfl

end Layout

/-- After every history of changes, an insertion at a position that no element has, whatever words come
next, is undone by a removal there. The removal yields the element that was put in, and but for the
word that was drawn and a slot for the next element the list is what it was. -/
theorem delete_undoes_insert [WordSource γ] {ceiling : Nat} (hpos : 1 ≤ ceiling)
    (hle : ceiling ≤ maxCeiling) (source : γ) (edits : List Edit) :
    ∃ l es, ofHistory ceiling source edits = .ok l ∧ l.elements = .ok es ∧
      ∀ key score, (∀ e ∈ es, e.position ≠ ⟨score, key⟩) → ∀ (value : Bytes) (upcoming : γ),
        ∃ e l' u,
          SkipList.insert { l with source := upcoming } key value score = .ok (e, l') ∧
          l'.delete key score = .ok (some e, u) ∧
          (e.key = key ∧ e.value = value ∧ e.score = score ∧
            e.height = heightOf (WordSource.next upcoming).1 ceiling) ∧
          l.Restored u ∧ u.source = (WordSource.next upcoming).2 := by
  obtain ⟨l, ts, hall, hlayout, hceiling⟩ := layout_ofHistory hpos hle source edits
  refine ⟨l, _, hall, hlayout.elements_eq, fun key score habsent value upcoming => ?_⟩
  have hdrawing : SkipList.Layout { l with source := upcoming } ts := { hlayout with }
  obtain ⟨e, l', u, hinsert, hdelete, hparts, hu, hceiling', hsource, hfree⟩ :=
    hdrawing.insert_delete (Layout.absent_of_elementsIn habsent) value
  subst hceiling
  exact ⟨e, l', u, hinsert, hdelete, hparts, hlayout.restored hu hceiling' hfree, hsource⟩

theorem delete_undoes_insert_of_a_taller_first_element :
    1 ≤ 4 ∧ 4 ≤ maxCeiling ∧
      ∃ l es e l' u,
        ofHistory 4 (Xoshiro.ofSeed 4) [.insert [98] [1] 5, .insert [97] [2] 5, .delete [98] 5] =
          .ok l ∧ l.elements = .ok es ∧ (∀ e ∈ es, e.position ≠ ⟨4, [97]⟩) ∧
        SkipList.insert { l with source := Xoshiro.ofSeed 5 } [97] [3] 4 = .ok (e, l') ∧
        l'.delete [97] 4 = .ok (some e, u) ∧
        (e.key = [97] ∧ e.value = [3] ∧ e.score = 4 ∧ e.height = 4) ∧
        l.Restored u ∧ u.source = (Xoshiro.ofSeed 5).advance := by
  obtain ⟨l, es, hall, helements, hundone⟩ :=
    delete_undoes_insert (show 1 ≤ 4 by decide) (by decide) (Xoshiro.ofSeed 4)
      [.insert [98] [1] 5, .insert [97] [2] 5, .delete [98] 5]
  have hpositions : (ofHistory 4 (Xoshiro.ofSeed 4)
      [.insert [98] [1] 5, .insert [97] [2] 5, .delete [98] 5] >>= elements).map
        (List.map Element.position) = .ok [⟨5, [97]⟩] := rfl
  rw [hall, Checked.ok_bind, helements] at hpositions
  have habsent : ∀ e ∈ es, e.position ≠ ⟨4, [97]⟩ := by
    rw [Element.forall_position_ne_iff, Except.ok.inj hpositions]
    decide
  obtain ⟨e, l', u, hinsert, hdelete, ⟨hkey, hvalue, hscore, hheight⟩, hrestored, hsource⟩ :=
    hundone [97] 4 habsent [3] (Xoshiro.ofSeed 5)
  exact ⟨by decide, by decide, l, es, e, l', u, hall, helements, habsent, hinsert, hdelete,
    ⟨hkey, hvalue, hscore, hheight⟩, hrestored, hsource⟩

end SkipList

end ExpiringStore
