import ExpiringStore.Proofs.History
import ExpiringStore.Random.Xoshiro

/-!
# The structure of a skip list

What holds of the links, the counters and the slots of every list that a history of changes makes,
said in terms of the list alone. Each part is read off a layout.
-/

namespace ExpiringStore.SkipList

open Tower

variable {γ : Type}

def reaches (l : SkipList γ) (level : Nat) (slot : Slot) : Bool :=
  (l.arena.get? slot).any fun e => level < e.height

/-- The levels of `l` thread the slots `bottom`, in order, and nothing else is in the arena. -/
structure Threaded (l : SkipList γ) (bottom : List Slot) : Prop where
  one_le_level : 1 ≤ l.level
  level_le_ceiling : l.level ≤ l.ceiling
  front_unused : ∀ level, l.level ≤ level → level < l.ceiling → l.front[level]? = some none
  front_top : 1 < l.level → ∃ slot, l.front[l.level - 1]? = some (some slot)
  chain_zero : l.chain 0 = .ok bottom
  /-- Every level in use ends, visits no slot twice and goes up. -/
  increasing : ∀ level < l.level, ∃ slots es, l.chain level = .ok slots ∧ slots.Nodup ∧
    slots.mapM l.element = .ok es ∧ es.Pairwise fun d e => d.position < e.position
  restricted : ∀ level < l.level, l.chain level = .ok (bottom.filter (l.reaches level))
  height_mem : ∀ slot ∈ bottom, ∃ e, l.element slot = .ok e ∧ 1 ≤ e.height ∧ e.height ≤ l.level
  prev_eq : ∀ before slot after, bottom = before ++ slot :: after →
    ∃ e, l.element slot = .ok e ∧ e.prev = before.getLast?
  back_eq : l.back = bottom.getLast?
  length_eq : l.length = bottom.length
  mem_bottom : ∀ slot, slot ∈ bottom ↔ (l.arena.get? slot).isSome
  free_nodup : l.arena.free.Nodup
  mem_free : ∀ slot, slot ∈ l.arena.free ↔ slot < l.slots ∧ l.arena.get? slot = none
  slots_eq : l.slots = l.length + l.arena.free.length

namespace Layout

variable {l : SkipList γ} {ts : List Tower}

theorem reaches_slot (h : l.Layout ts) (level : Nat) {t : Tower} (ht : t ∈ ts) :
    l.reaches level t.slot = decide (level < t.height) := by
  obtain ⟨before, after, -, hget⟩ := h.get?_of_mem ht
  rw [reaches, hget, Option.any_some, height_element]

theorem filter_reaches (h : l.Layout ts) (level : Nat) :
    (ts.map slot).filter (l.reaches level) = (tall level ts).map slot := by
  rw [List.filter_map, tall]
  congr 1
  refine List.filter_congr fun t ht => ?_
  exact h.reaches_slot level ht

theorem getElem?_front (h : l.Layout ts) {level : Nat} (hlevel : level < l.ceiling) :
    l.front[level]? = some (firstOn level ts) := by
  have hlinks := getElem?_links hlevel ts
  rwa [← h.front_eq] at hlinks

theorem increasing (h : l.Layout ts) {level : Nat} (hlevel : level < l.ceiling) :
    ∃ slots es, l.chain level = .ok slots ∧ slots.Nodup ∧ slots.mapM l.element = .ok es ∧
      es.Pairwise fun d e => d.position < e.position := by
  refine ⟨_, _, h.chain_eq hlevel, ?_, h.mapM_element level (List.nil_append ts).symm, ?_⟩
  · have hsublist : ((tall level ts).map slot).Sublist (ts.map slot) :=
      List.filter_sublist.map slot
    exact hsublist.nodup h.nodup_slots
  · exact (pairwise_elementsIn h.sorted [] []).filter _

theorem threaded (h : l.Layout ts) : l.Threaded (ts.map slot) := by
  have hle : l.level ≤ l.ceiling := h.level_le_ceiling
  constructor
  case one_le_level => rw [h.level_eq]; exact one_le_levels ts
  case level_le_ceiling => exact hle
  case front_unused =>
    intro level hunused hlevel
    rw [h.level_eq] at hunused
    rw [h.getElem?_front hlevel, firstOn_eq_none.2 (tall_of_levels_le hunused)]
  case front_top =>
    intro htop
    have hlevel : l.level - 1 < l.ceiling := by omega
    rw [h.getElem?_front hlevel]
    rw [h.level_eq] at htop
    have hnone : firstOn (l.level - 1) ts ≠ none := by
      rw [h.level_eq, Ne, firstOn_eq_none]
      exact tall_levels_ne_nil htop
    obtain ⟨slot, hslot⟩ := Option.ne_none_iff_exists'.1 hnone
    exact ⟨slot, congrArg some hslot⟩
  case chain_zero => exact h.chain_zero_eq
  case increasing => exact fun level hlevel => h.increasing (Nat.lt_of_lt_of_le hlevel hle)
  case restricted =>
    intro level hlevel
    rw [h.filter_reaches, h.chain_eq (Nat.lt_of_lt_of_le hlevel hle)]
  case height_mem =>
    intro slot hslot
    obtain ⟨t, ht, rfl⟩ := List.mem_map.1 hslot
    obtain ⟨before, after, hsplit⟩ := List.append_of_mem ht
    refine ⟨_, h.element_eq hsplit, ?_, ?_⟩
    · rw [height_element]; exact h.height_pos t ht
    · rw [height_element, h.level_eq]; exact height_le_levels ht
  case prev_eq =>
    intro before slot after hbottom
    obtain ⟨front, rest, hsplit, rfl, hrest⟩ := List.map_eq_append_iff.1 hbottom
    obtain ⟨t, behind, rfl, rfl, rfl⟩ := List.map_eq_cons_iff.1 hrest
    refine ⟨_, h.element_eq hsplit, ?_⟩
    rw [List.getLast?_map]
    rfl
  case back_eq => rw [h.back_eq, List.getLast?_map]; rfl
  case length_eq => rw [h.length_eq, List.length_map]
  case mem_bottom => exact h.mem_slots_iff
  case free_nodup => exact h.tidy.nodup
  case mem_free => exact h.tidy.mem_free
  case slots_eq => rw [h.slots_eq, h.length_eq]

end Layout

/-- Every history of changes, whatever words are drawn in it, leaves a list whose levels thread its
slots. -/
theorem threaded_ofHistory [WordSource γ] {ceiling : Nat} (hpos : 1 ≤ ceiling)
    (hle : ceiling ≤ maxCeiling) (source : γ) (edits : List Edit) :
    ∃ l bottom, ofHistory ceiling source edits = .ok l ∧ l.ceiling = ceiling ∧
      l.Threaded bottom := by
  obtain ⟨l, ts, hall, hlayout, hceiling⟩ := layout_ofHistory hpos hle source edits
  exact ⟨l, ts.map slot, hall, hceiling, hlayout.threaded⟩

theorem threaded_insert_delete :
    1 ≤ 2 ∧ 2 ≤ maxCeiling ∧
      ∃ l bottom,
        ofHistory 2 (Xoshiro.ofSeed 7)
          [.insert [98] [1] 3, .insert [97] [2] 3, .delete [98] 3, .insert [] [3] 0] = .ok l ∧
        l.ceiling = 2 ∧ l.Threaded bottom :=
  ⟨by decide, by decide, threaded_ofHistory (by decide) (by decide) _ _⟩

end ExpiringStore.SkipList
