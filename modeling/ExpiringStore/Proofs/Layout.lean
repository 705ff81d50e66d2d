import Mathlib.Data.List.Nodup
import Mathlib.Data.List.Perm.Lattice
import ExpiringStore.Proofs.Arena
import ExpiringStore.Proofs.Tower

/-!
# Layouts

A skip list is laid out as a list of towers if its arena, its links and its counters are the ones
that the towers determine. The layout is the invariant of the list: every operation takes a layout
to another one, and whatever an operation reads is a function of the towers.
-/

namespace ExpiringStore

theorem Checked.ok_bind {α β : Type} (a : α) (f : α → Checked β) :
    ((Except.ok a : Checked α) >>= f) = f a := rfl

theorem Checked.bind_eq_ok {α β : Type} {x : Checked α} {f : α → Checked β} {b : β}
    (h : x >>= f = .ok b) : ∃ a, x = .ok a ∧ f a = .ok b := by
  cases x with
  | error fault => cases h
  | ok a => exact ⟨a, rfl, h⟩

theorem Checked.pure_eq {α : Type} (a : α) : (pure a : Checked α) = .ok a := rfl

theorem Checked.mapM_eq_map {α β : Type} {f : α → Checked β} {g : α → β} {xs : List α}
    (h : ∀ x ∈ xs, f x = .ok (g x)) : xs.mapM f = .ok (xs.map g) := by
  induction xs with
  | nil => rfl
  | cons x xs ih =>
    rw [List.mapM_cons, h x (by simp), Checked.ok_bind,
      ih fun y hy => h y (List.mem_cons_of_mem x hy)]
    rfl

namespace SkipList

open Tower

variable {γ : Type}

/-- `l` is the skip list that has the towers `ts`, in order. -/
structure Layout (l : SkipList γ) (ts : List Tower) : Prop where
  ceiling_pos : 1 ≤ l.ceiling
  ceiling_le : l.ceiling ≤ maxCeiling
  sorted : ts.Pairwise fun t u => t.position < u.position
  height_pos : ∀ t ∈ ts, 1 ≤ t.height
  height_le : ∀ t ∈ ts, t.height ≤ l.ceiling
  front_eq : l.front = links l.ceiling ts
  cell : ∀ before t after, ts = before ++ t :: after →
    l.arena.get? t.slot = some (t.element before after)
  occupied : ∀ slot e, l.arena.get? slot = some e → ∃ t ∈ ts, t.slot = slot
  back_eq : l.back = lastSlot ts
  length_eq : l.length = ts.length
  level_eq : l.level = levels ts
  tidy : l.arena.Tidy

theorem layout_create {ceiling : Nat} (hpos : 1 ≤ ceiling) (hle : ceiling ≤ maxCeiling)
    (source : γ) :
    ∃ l, create ceiling source = .ok l ∧ l.Layout [] ∧ l.ceiling = ceiling ∧ l.source = source ∧
      l.arena = .empty := by
  refine ⟨_, by simp only [create, hpos, hle, and_self, ↓reduceIte]; rfl, ?_, ?_, rfl, rfl⟩
  · constructor <;> simp [SkipList.ceiling, hpos, hle, Arena.tidy_empty]
    apply eq_links (by simp)
    intro level hlevel
    simp [hlevel]
  · simp [SkipList.ceiling]

namespace Layout

variable {l : SkipList γ} {ts : List Tower}

/-! ### Slots -/

theorem get?_of_mem (h : l.Layout ts) {t : Tower} (ht : t ∈ ts) :
    ∃ before after, ts = before ++ t :: after ∧
      l.arena.get? t.slot = some (t.element before after) := by
  obtain ⟨before, after, hsplit⟩ := List.append_of_mem ht
  exact ⟨before, after, hsplit, h.cell before t after hsplit⟩

theorem eq_of_slot_eq (h : l.Layout ts) {t u : Tower} (ht : t ∈ ts) (hu : u ∈ ts)
    (hslot : t.slot = u.slot) : t = u := by
  obtain ⟨before, after, -, hget⟩ := h.get?_of_mem ht
  obtain ⟨before', after', -, hget'⟩ := h.get?_of_mem hu
  rw [hslot, hget', Option.some.injEq] at hget
  have hheight := congrArg Element.height hget
  obtain ⟨slot, key, value, score, height⟩ := t
  obtain ⟨slot', key', value', score', height'⟩ := u
  simp only [height_element] at hheight
  simp only [Tower.element, Element.mk.injEq] at hget
  simp only [Tower.mk.injEq]
  exact ⟨hslot, hget.1.symm, hget.2.1.symm, hget.2.2.1.symm, hheight.symm⟩

theorem nodup (h : l.Layout ts) : ts.Nodup :=
  h.sorted.imp fun {t u} hlt heq => by
    rw [heq] at hlt
    exact Position.lt_irrefl _ hlt

theorem nodup_slots (h : l.Layout ts) : (ts.map slot).Nodup :=
  h.nodup.map_on fun _ ht _ hu hslot => h.eq_of_slot_eq ht hu hslot

theorem slot_ne_of_split (h : l.Layout ts) {before after : List Tower} {t : Tower}
    (hsplit : ts = before ++ t :: after) : ∀ u ∈ before ++ after, u.slot ≠ t.slot := by
  have hnodup := h.nodup_slots
  rw [hsplit, List.map_append, List.map_cons, List.nodup_middle, ← List.map_append] at hnodup
  intro u hu hslot
  exact (List.nodup_cons.1 hnodup).1 (List.mem_map.2 ⟨u, hu, hslot⟩)

theorem mem_slots_iff (h : l.Layout ts) (slot : Slot) :
    slot ∈ ts.map Tower.slot ↔ (l.arena.get? slot).isSome := by
  constructor
  · intro hmem
    obtain ⟨t, ht, rfl⟩ := List.mem_map.1 hmem
    obtain ⟨before, after, -, hget⟩ := h.get?_of_mem ht
    rw [hget]
    rfl
  · intro hsome
    obtain ⟨e, he⟩ := Option.isSome_iff_exists.1 hsome
    obtain ⟨t, ht, hslot⟩ := h.occupied slot e he
    exact List.mem_map.2 ⟨t, ht, hslot⟩

theorem not_mem_free_of_mem (h : l.Layout ts) {t : Tower} (ht : t ∈ ts) :
    t.slot ∉ l.arena.free := by
  intro hfree
  obtain ⟨before, after, -, hget⟩ := h.get?_of_mem ht
  have hnone := ((h.tidy.mem_free t.slot).1 hfree).2
  rw [hget] at hnone
  cases hnone

theorem perm_slots (h : l.Layout ts) :
    (ts.map slot ++ l.arena.free).Perm (List.range l.slots) := by
  have hdisjoint : List.Disjoint (ts.map slot) l.arena.free := by
    intro slot hmem hfree
    obtain ⟨t, ht, rfl⟩ := List.mem_map.1 hmem
    exact h.not_mem_free_of_mem ht hfree
  refine (List.perm_ext_iff_of_nodup ?_ List.nodup_range).2 fun slot => ?_
  · exact List.nodup_append'.2 ⟨h.nodup_slots, h.tidy.nodup, hdisjoint⟩
  · rw [List.mem_append, h.mem_slots_iff, h.tidy.mem_free, List.mem_range]
    constructor
    · rintro (hsome | ⟨hlt, -⟩)
      · obtain ⟨e, he⟩ := Option.isSome_iff_exists.1 hsome
        exact Arena.lt_size_of_get? he
      · exact hlt
    · intro hlt
      cases hget : l.arena.get? slot with
      | none => exact Or.inr ⟨hlt, rfl⟩
      | some e => exact Or.inl rfl

theorem slots_eq (h : l.Layout ts) : l.slots = ts.length + l.arena.free.length := by
  have hlength := h.perm_slots.length_eq
  simp only [List.length_append, List.length_map, List.length_range] at hlength
  exact hlength.symm

theorem length_le_slots (h : l.Layout ts) : ts.length ≤ l.slots := by
  rw [h.slots_eq]
  exact Nat.le_add_right ..

theorem lengths_le_slots (h : l.Layout ts) {before after : List Tower}
    (hsplit : ts = before ++ after) : before.length + after.length ≤ l.slots := by
  rw [← List.length_append, ← hsplit]
  exact h.length_le_slots

/-! ### One step along a level -/

theorem element_eq (h : l.Layout ts) {before after : List Tower} {t : Tower}
    (hsplit : ts = before ++ t :: after) : l.element t.slot = .ok (t.element before after) := by
  simp only [SkipList.element, h.cell before t after hsplit]

theorem next_front (h : l.Layout ts) {level : Nat} (hlevel : level < l.ceiling) :
    l.next none level = .ok (firstOn level ts) := by
  simp only [SkipList.next, h.front_eq, linkAt_links hlevel]

theorem next_slot (h : l.Layout ts) {before after : List Tower} {t : Tower} {level : Nat}
    (hsplit : ts = before ++ t :: after) (hlevel : level < t.height) :
    l.next (some t.slot) level = .ok (firstOn level after) := by
  simp only [SkipList.next, h.element_eq hsplit, Checked.ok_bind]
  exact linkAt_links hlevel after

theorem firstOn_zero_eq (h : l.Layout ts) {before after : List Tower}
    (hsplit : ts = before ++ after) : firstOn 0 after = after.head?.map slot := by
  rw [firstOn, Tower.tall_zero fun t ht => h.height_pos t (hsplit ▸ List.mem_append_right _ ht)]

/-- A place stands behind the towers `done` on a level: at the front, or at a tower that is on the
level. -/
def Anchored (level : Nat) (done : List Tower) : Prop := ∀ t ∈ done.getLast?, level < t.height

theorem anchored_nil (level : Nat) : Anchored level [] := by
  intro t ht
  cases ht

theorem anchored_concat {level : Nat} {t : Tower} (h : level < t.height) (done : List Tower) :
    Anchored level (done ++ [t]) := by
  intro u hu
  rw [List.getLast?_concat, Option.mem_some_iff] at hu
  exact hu ▸ h

theorem Anchored.mono {level level' : Nat} {done : List Tower} (h : Anchored level done)
    (hle : level' ≤ level) : Anchored level' done :=
  fun t ht => Nat.lt_of_le_of_lt hle (h t ht)

theorem Anchored.lastOn_eq {level : Nat} {done : List Tower} (h : Anchored level done) :
    lastOn level done = lastSlot done := by
  rcases List.eq_nil_or_concat' done with rfl | ⟨init, t, rfl⟩
  · rfl
  · have hlt : level < t.height := h t (by simp)
    simp [lastOn, tall, lastSlot, hlt]

theorem next_lastSlot (h : l.Layout ts) {done rest : List Tower} {level : Nat}
    (hsplit : ts = done ++ rest) (hanchor : Anchored level done) (hlevel : level < l.ceiling) :
    l.next (lastSlot done) level = .ok (firstOn level rest) := by
  rcases List.eq_nil_or_concat' done with rfl | ⟨init, t, rfl⟩
  · rw [hsplit] at h
    exact h.next_front hlevel
  · rw [lastSlot_concat]
    exact h.next_slot (by simpa using hsplit) (hanchor t (by simp))

/-- The place where the towers in front of a cut end on a level leads to where the level goes on
behind the cut. -/
theorem next_lastOn (h : l.Layout ts) {before after : List Tower} {level : Nat}
    (hsplit : ts = before ++ after) (hlevel : level < l.ceiling) :
    l.next (lastOn level before) level = .ok (firstOn level after) := by
  by_cases hnil : tall level before = []
  · rw [lastOn_eq_none.2 hnil, h.next_front hlevel, hsplit, firstOn_append,
      firstOn_eq_none.2 hnil, Option.none_or]
  · obtain ⟨init, t, rest, rfl, ht, hrest⟩ := exists_split_last_of_tall hnil
    have hcut : ts = init ++ t :: (rest ++ after) := by rw [hsplit, List.append_assoc]; rfl
    rw [lastOn_append_cons ht hrest, h.next_slot hcut ht, firstOn_append,
      firstOn_eq_none.2 hrest, Option.none_or]

/-! ### Whole levels -/

theorem chainFrom_eq (h : l.Layout ts) {level room : Nat} {done rest : List Tower}
    (hsplit : ts = done ++ rest) (hroom : (tall level rest).length ≤ room) :
    l.chainFrom level room (firstOn level rest) = .ok ((tall level rest).map slot) := by
  induction room generalizing done rest with
  | zero =>
    have hnil : tall level rest = [] := List.eq_nil_of_length_eq_zero (by omega)
    rw [firstOn_eq_none.2 hnil, hnil]
    rfl
  | succ room ih =>
    by_cases hnil : tall level rest = []
    · rw [firstOn_eq_none.2 hnil, hnil]
      rfl
    · obtain ⟨skipped, t, rest, rfl, hskipped, ht⟩ := exists_split_of_tall hnil
      have hsplit' : ts = (done ++ skipped) ++ t :: rest := by simpa using hsplit
      have hsplit'' : ts = (done ++ skipped ++ [t]) ++ rest := by simpa using hsplit'
      simp only [tall_append, hskipped, List.nil_append, tall_cons_of_lt ht, List.length_cons,
        Nat.add_le_add_iff_right] at hroom
      simp only [firstOn, tall_append, hskipped, List.nil_append, tall_cons_of_lt ht,
        List.head?_cons, Option.map_some, chainFrom, h.next_slot hsplit' ht, Checked.ok_bind]
      rw [← firstOn, ih hsplit'' hroom]
      rfl

theorem chain_eq (h : l.Layout ts) {level : Nat} (hlevel : level < l.ceiling) :
    l.chain level = .ok ((tall level ts).map slot) := by
  simp only [chain, h.next_front hlevel, Checked.ok_bind]
  exact h.chainFrom_eq (List.nil_append ts).symm
    (Nat.le_trans (tall_length_le level ts) h.length_le_slots)

theorem mapM_element (h : l.Layout ts) (level : Nat) {before rest : List Tower}
    (hsplit : ts = before ++ rest) :
    ((tall level rest).map slot).mapM l.element =
      .ok ((elementsIn before rest []).filter fun e => level < e.height) := by
  induction rest generalizing before with
  | nil => rfl
  | cons t rest ih =>
    have hrest := ih (show ts = (before ++ [t]) ++ rest by simpa using hsplit)
    by_cases ht : level < t.height
    · rw [tall_cons_of_lt ht, List.map_cons, List.mapM_cons, h.element_eq hsplit, Checked.ok_bind,
        hrest, elementsIn_cons, List.append_nil, List.filter_cons_of_pos (by simpa using ht)]
      rfl
    · rw [tall_cons_of_le (by omega), elementsIn_cons,
        List.filter_cons_of_neg (by simpa using ht)]
      exact hrest

theorem elementsOn_eq (h : l.Layout ts) {level : Nat} (hlevel : level < l.ceiling) :
    l.elementsOn level = .ok ((elementsIn [] ts []).filter fun e => level < e.height) := by
  simp only [elementsOn, h.chain_eq hlevel, Checked.ok_bind]
  exact h.mapM_element level rfl

theorem filter_height_pos (h : l.Layout ts) {before rest : List Tower}
    (hsplit : ts = before ++ rest) :
    (elementsIn before rest []).filter (fun e => 0 < e.height) = elementsIn before rest [] := by
  refine List.filter_eq_self.2 fun e he => ?_
  obtain ⟨t, ht, pre, post, rfl⟩ := exists_of_mem_elementsIn he
  have hpos := h.height_pos t (by simp [hsplit, ht])
  simp only [height_element, decide_eq_true_eq]
  omega

theorem elements_eq (h : l.Layout ts) : l.elements = .ok (elementsIn [] ts []) := by
  rw [SkipList.elements, h.elementsOn_eq h.ceiling_pos, h.filter_height_pos rfl]

theorem elementsFrom_eq (h : l.Layout ts) {before rest : List Tower}
    (hsplit : ts = before ++ rest) :
    l.elementsFrom (firstOn 0 rest) = .ok (elementsIn before rest []) := by
  have hroom : (tall 0 rest).length ≤ l.slots := by
    have hle := h.lengths_le_slots hsplit
    have htall := tall_length_le 0 rest
    omega
  simp only [elementsFrom, h.chainFrom_eq hsplit hroom, Checked.ok_bind, h.mapM_element 0 hsplit,
    h.filter_height_pos hsplit]

theorem first_eq (h : l.Layout ts) : l.first = .ok (elementsIn [] ts []).head? := by
  simp only [first, h.next_front h.ceiling_pos, Checked.ok_bind]
  cases ts with
  | nil => rfl
  | cons t rest =>
    have hsplit : t :: rest = [] ++ t :: rest := rfl
    rw [firstOn_cons_of_lt (h.height_pos t (by simp)), element?, h.element_eq hsplit,
      elementsIn_cons, List.append_nil]
    rfl

theorem last_eq (h : l.Layout ts) : l.last = .ok (elementsIn [] ts []).getLast? := by
  rw [last, h.back_eq]
  rcases List.eq_nil_or_concat' ts with rfl | ⟨init, t, rfl⟩
  · rfl
  · rw [lastSlot_concat, element?, h.element_eq rfl, elementsIn_concat,
      List.getLast?_concat]
    rfl

theorem isEmpty_eq (h : l.Layout ts) : l.isEmpty = ts.isEmpty := by
  rw [isEmpty, h.length_eq]
  cases ts <;> rfl

theorem levels_le_ceiling (h : l.Layout ts) : levels ts ≤ l.ceiling :=
  levels_le_iff.2 ⟨h.ceiling_pos, h.height_le⟩

theorem level_le_ceiling (h : l.Layout ts) : l.level ≤ l.ceiling := h.level_eq ▸ h.levels_le_ceiling

theorem tall_zero (h : l.Layout ts) : tall 0 ts = ts := Tower.tall_zero h.height_pos

theorem chain_zero_eq (h : l.Layout ts) : l.chain 0 = .ok (ts.map slot) := by
  rw [h.chain_eq h.ceiling_pos, h.tall_zero]

/-! ### What the towers determine -/

section Congr

variable {l' : SkipList γ}

theorem front_congr (h : l.Layout ts) (h' : l'.Layout ts) (hceiling : l'.ceiling = l.ceiling) :
    l'.front = l.front := by
  rw [h'.front_eq, h.front_eq, hceiling]

theorem chain_congr (h : l.Layout ts) (h' : l'.Layout ts) (hceiling : l'.ceiling = l.ceiling)
    (level : Nat) : l'.chain level = l.chain level := by
  by_cases hlevel : level < l.ceiling
  · rw [h.chain_eq hlevel, h'.chain_eq (hceiling ▸ hlevel)]
  · -- above the ceiling there is no link to start from
    have hnone : l.front[level]? = none := Array.getElem?_eq_none (Nat.le_of_not_lt hlevel)
    simp only [chain, SkipList.next, linkAt, h.front_congr h' hceiling, hnone]
    rfl

/-- The towers determine what is in a slot. -/
theorem get?_congr (h : l.Layout ts) (h' : l'.Layout ts) (slot : Slot) :
    l'.arena.get? slot = l.arena.get? slot := by
  by_cases hslot : slot ∈ ts.map Tower.slot
  · obtain ⟨t, ht, rfl⟩ := List.mem_map.1 hslot
    obtain ⟨before, after, hsplit, hget⟩ := h.get?_of_mem ht
    rw [hget, h'.cell before t after hsplit]
  · have hempty {m : SkipList γ} (hm : m.Layout ts) : m.arena.get? slot = none := by
      rw [hm.mem_slots_iff, Option.not_isSome_iff_eq_none] at hslot
      exact hslot
    rw [hempty h, hempty h']

/-- Lists of so many levels that will draw the same words and have the same towers can differ in their
arenas alone. -/
theorem eq_of_source_eq (h : l.Layout ts) (h' : l'.Layout ts) (hceiling : l'.ceiling = l.ceiling)
    (hsource : l'.source = l.source) : l' = { l with arena := l'.arena } := by
  have hfront : l'.front = l.front := h.front_congr h' hceiling
  have hback : l'.back = l.back := h'.back_eq.trans h.back_eq.symm
  have hlength : l'.length = l.length := h'.length_eq.trans h.length_eq.symm
  have hlevel : l'.level = l.level := h'.level_eq.trans h.level_eq.symm
  rw [← hfront, ← hback, ← hlength, ← hlevel, ← hsource]

end Congr

end Layout

end SkipList

end ExpiringStore
