import ExpiringStore.Proofs.Insertion

/-!
# Removal on a layout

A removal takes one tower out. Its predecessors are relinked to what it led to, its follower leads
back to what it led back to, its slot is the first to be taken again, and the levels that have no
tower any more fall out of use.
-/

namespace ExpiringStore.SkipList

open Tower

variable {γ : Type} {l : SkipList γ} {ts : List Tower}

/-- A row whose place ends the levels that no tower of `mid` is on loses the tower behind `mid`. -/
theorem rewire_links_remove {places : Nat → Link} {place : Link} {height : Nat} {t : Tower}
    {mid : List Tower} (after : List Tower)
    (hplaces : ∀ level < height, places level = place ↔ tall level mid = []) :
    rewire places (fun level => firstOn level after) t.height place
        (links height (mid ++ t :: after)) =
      links height (mid ++ after) := by
  exact rewire_links _ _ _ _ hplaces (fun _ _ => rfl) fun _ hlevel => firstOn_cons_of_le hlevel after

theorem trimLevel_links {ceiling : Nat} {ts : List Tower} {n : Nat} (hle : levels ts ≤ n)
    (hn : n ≤ ceiling) : trimLevel (links ceiling ts) n = .ok (levels ts) := by
  have hpos := one_le_levels ts
  induction n with
  | zero => omega
  | succ n ih =>
    cases n with
    | zero =>
      have hone : levels ts = 1 := by omega
      rw [hone]
      rfl
    | succ n =>
      simp only [trimLevel, linkAt_links (show n + 1 < ceiling by omega), Checked.ok_bind]
      cases hfirst : firstOn (n + 1) ts with
      | none =>
        have hnil := firstOn_eq_none.1 hfirst
        exact ih (levels_le_iff.2 ⟨by omega, tall_eq_nil.1 hnil⟩) (by omega)
      | some slot =>
        have htop : levels ts = n + 2 := by
          by_contra hne
          have hnil := tall_of_levels_le (show levels ts ≤ n + 1 by omega)
          rw [firstOn_eq_none.2 hnil] at hfirst
          cases hfirst
        rw [htop]
        rfl

/-! ### The new layout -/

def bypassed (l : SkipList γ) (t : Tower) (before after : List Tower) : SkipList γ :=
  ({ l with arena := l.arena.release t.slot }.relink
    (fun level => lastOn level before) (fun level => firstOn level after) t.height).relinkBack
    (firstOn 0 after) (lastSlot before)

/-- The list `l` without the tower `t` between `before` and `after`. -/
def unlinked (l : SkipList γ) (t : Tower) (before after : List Tower) : SkipList γ :=
  { l.bypassed t before after with
    level := levels (before ++ after), length := (before ++ after).length }

theorem get?_unlinked (l : SkipList γ) (t : Tower) (before after : List Tower) (slot : Slot) :
    (l.unlinked t before after).arena.get? slot =
      ((l.arena.release t.slot).get? slot).map fun e =>
        { e with
          next := rewire (fun level => lastOn level before) (fun level => firstOn level after)
            t.height (some slot) e.next
          prev := if some slot = firstOn 0 after then lastSlot before else e.prev } := by
  simp only [unlinked, bypassed, relinkBack, relink, Arena.get?_mapSlots, Option.map_map]
  cases (l.arena.release t.slot).get? slot with
  | none => rfl
  | some e =>
    simp only [Option.map_some, Function.comp_apply]
    split <;> rfl

@[simp] theorem slots_unlinked (l : SkipList γ) (t : Tower) (before after : List Tower) :
    (l.unlinked t before after).slots = l.slots := by
  simp [slots, unlinked, bypassed, relinkBack, relink]

@[simp] theorem source_unlinked (l : SkipList γ) (t : Tower) (before after : List Tower) :
    (l.unlinked t before after).source = l.source := by
  simp [unlinked, bypassed, relinkBack, relink]

namespace Layout

section Unlinked

variable {before after : List Tower} {t : Tower}

theorem cell_unlinked_front (h : l.Layout ts) {pre mid : List Tower} {u : Tower}
    (hsplit : ts = (pre ++ u :: mid) ++ t :: after) :
    (l.unlinked t (pre ++ u :: mid) after).arena.get? u.slot =
      some (u.element pre (mid ++ after)) := by
  have hold : ts = pre ++ u :: (mid ++ t :: after) := by rw [hsplit, List.append_assoc]; rfl
  have hne := h.slot_ne_of_split hold
  have hplaces : ∀ level < u.height,
      lastOn level (pre ++ u :: mid) = some u.slot ↔ tall level mid = [] :=
    fun level hlevel => lastOn_eq_slot_iff hlevel fun v hv => hne v (by simp [hv])
  have hfollower : some u.slot ≠ firstOn 0 after :=
    (firstOn_ne_slot fun v hv => hne v (by simp [hv])).symm
  rw [get?_unlinked, Arena.get?_release_of_ne _ (hne t (by simp)), h.cell _ _ _ hold]
  simp only [Option.map_some, Tower.element, rewire_links_remove after hplaces, hfollower,
    ↓reduceIte]

theorem cell_unlinked_behind (h : l.Layout ts) {mid post : List Tower} {u : Tower}
    (hsplit : ts = before ++ t :: (mid ++ u :: post)) :
    (l.unlinked t before (mid ++ u :: post)).arena.get? u.slot =
      some (u.element (before ++ mid) post) := by
  have hold : ts = (before ++ t :: mid) ++ u :: post := by rw [hsplit, List.append_assoc]; rfl
  have hne := h.slot_ne_of_split hold
  have hrow : ∀ level < (links u.height post).size, lastOn level before ≠ some u.slot :=
    fun _ _ => lastOn_ne_slot fun v hv => hne v (by simp [hv])
  have hafter : ts = (before ++ [t]) ++ (mid ++ u :: post) := by simp [hsplit]
  rw [get?_unlinked, h.firstOn_zero_eq hafter, Arena.get?_release_of_ne _ (hne t (by simp)),
    h.cell _ _ _ hold]
  simp only [Option.map_some, Tower.element, rewire_eq_self _ _ _ _ hrow]
  cases mid with
  | nil => simp
  | cons v mid =>
    have hv : ¬ u.slot = v.slot := fun heq => hne v (by simp) heq.symm
    simp [hv, lastSlot]

theorem front_unlinked (h : l.Layout ts) (hsplit : ts = before ++ t :: after) :
    (l.unlinked t before after).front = links l.ceiling (before ++ after) := by
  have hplaces : ∀ level < l.ceiling, lastOn level before = none ↔ tall level before = [] :=
    fun level _ => lastOn_eq_none
  have hrow := rewire_links_remove (t := t) after hplaces
  rw [← hsplit, ← h.front_eq] at hrow
  exact hrow

theorem unlinked (h : l.Layout ts) (hsplit : ts = before ++ t :: after) :
    (l.unlinked t before after).Layout (before ++ after) := by
  have hmem : ∀ u ∈ before ++ after, u ∈ ts := by
    intro u hu
    rw [hsplit]
    simp only [List.mem_append, List.mem_cons] at hu ⊢
    exact hu.imp_right Or.inr
  have hceiling : (l.unlinked t before after).ceiling = l.ceiling := size_rewire ..
  have hafter : ts = (before ++ [t]) ++ after := by simp [hsplit]
  constructor
  case ceiling_pos => rw [hceiling]; exact h.ceiling_pos
  case ceiling_le => rw [hceiling]; exact h.ceiling_le
  case sorted =>
    rw [← remove_eq_of_split h.sorted hsplit]
    exact h.sorted.filter _
  case height_pos => exact fun u hu => h.height_pos u (hmem u hu)
  case height_le => exact fun u hu => hceiling ▸ h.height_le u (hmem u hu)
  case front_eq => rw [hceiling]; exact h.front_unlinked hsplit
  case cell =>
    intro pre u post hcut
    rcases List.append_eq_append_iff.1 hcut with ⟨mid, rfl, rfl⟩ | ⟨mid, rfl, hmid⟩
    · exact h.cell_unlinked_behind hsplit
    · cases mid with
      | nil =>
        simp only [List.nil_append] at hmid
        subst hmid
        have hcell := h.cell_unlinked_behind (show ts = _ ++ t :: ([] ++ u :: post) from hsplit)
        simpa using hcell
      | cons v mid =>
        simp only [List.cons_append, List.cons.injEq] at hmid
        obtain ⟨rfl, rfl⟩ := hmid
        exact h.cell_unlinked_front hsplit
  case occupied =>
    intro slot e he
    rw [get?_unlinked, Option.map_eq_some_iff] at he
    obtain ⟨old, hold, -⟩ := he
    have hslot : slot ≠ t.slot := by
      rintro rfl
      rw [Arena.get?_release_self] at hold
      cases hold
    rw [Arena.get?_release_of_ne _ (Ne.symm hslot)] at hold
    obtain ⟨u, hu, huslot⟩ := h.occupied slot old hold
    refine ⟨u, ?_, huslot⟩
    have hut : u ≠ t := fun heq => hslot (by rw [← huslot, heq])
    rw [hsplit] at hu
    simpa [hut] using hu
  case back_eq =>
    simp only [SkipList.unlinked, bypassed, relinkBack, relink, h.firstOn_zero_eq hafter,
      h.back_eq, hsplit]
    cases after with
    | nil => simp
    | cons u after => simp [lastSlot]
  case length_eq => rfl
  case level_eq => rfl
  case tidy =>
    exact ((h.tidy.release (h.cell before t after hsplit)).mapSlots _).mapSlots _

end Unlinked

/-! ### The operation -/

theorem delete_absent (h : l.Layout ts) {key : Bytes} {score : Score}
    (habsent : ∀ u ∈ ts, u.position ≠ ⟨score, key⟩) : l.delete key score = .ok (none, l) := by
  simp only [SkipList.delete, h.locate_eq, Checked.ok_bind, h.occupant?_eq_none habsent]
  rfl

section Released

variable {before after : List Tower} {t : Tower}

theorem get?_released (h : l.Layout ts) (hsplit : ts = before ++ t :: after) {u : Tower}
    (hu : u ∈ before ++ after) :
    (l.arena.release t.slot).get? u.slot = l.arena.get? u.slot :=
  Arena.get?_release_of_ne _ (Ne.symm (h.slot_ne_of_split hsplit u hu))

/-- The predecessors of a tower lead to it, also after its slot has been freed. -/
theorem next_released (h : l.Layout ts) (hsplit : ts = before ++ t :: after) {level : Nat}
    (hlevel : level < t.height) :
    SkipList.next { l with arena := l.arena.release t.slot } (lastOn level before) level =
      .ok (some t.slot) := by
  have hceiling : level < l.ceiling :=
    Nat.lt_of_lt_of_le hlevel (h.height_le t (by simp [hsplit]))
  rw [← firstOn_cons_of_lt hlevel after]
  refine h.next_lastOn_of_get? hsplit hceiling rfl fun u hu => ?_
  exact h.get?_released hsplit (List.mem_append_left _ hu)

theorem exists_get?_released (h : l.Layout ts) (hsplit : ts = before ++ t :: after) {slot : Slot}
    (hfollower : firstOn 0 after = some slot) (places targets : Nat → Link) (height : Nat) :
    ∃ e, (SkipList.relink places targets height
      { l with arena := l.arena.release t.slot }).arena.get? slot = some e := by
  obtain ⟨u, hu, -, rfl⟩ := exists_of_firstOn hfollower
  obtain ⟨pre, post, -, hget⟩ := h.get?_of_mem (t := u) (by simp [hsplit, hu])
  rw [relink, Arena.get?_mapSlots, h.get?_released hsplit (List.mem_append_right _ hu), hget]
  exact ⟨_, rfl⟩

/-- The levels in use after a removal are found by going down from those in use before. -/
theorem trimLevel_bypassed (h : l.Layout ts) (hsplit : ts = before ++ t :: after) :
    trimLevel (l.bypassed t before after).front l.level = .ok (levels (before ++ after)) := by
  have hfront : (l.bypassed t before after).front = links l.ceiling (before ++ after) :=
    h.front_unlinked hsplit
  have hlevel : levels (before ++ after) ≤ l.level := by
    rw [h.level_eq, hsplit, levels_append, levels_append, levels_cons]
    omega
  rw [hfront]
  exact trimLevel_links hlevel h.level_le_ceiling

end Released

/-- At the position of a tower, a removal takes that tower out. -/
theorem delete_present (h : l.Layout ts) {before after : List Tower} {t : Tower}
    (hsplit : ts = before ++ t :: after) :
    l.delete t.key t.score = .ok (some (t.element before after), l.unlinked t before after) := by
  have hposition : (⟨t.score, t.key⟩ : Position) = t.position := rfl
  have hpos : 0 < t.height := h.height_pos t (by simp [hsplit])
  have hpredecessor : predecessor
      ((List.range l.level).map fun level => lastOn level (below t.position ts)) =
        fun level => lastOn level before := by
    funext level
    rw [h.predecessor_locate, (below_onward_eq_of_split h.sorted hsplit).1]
  have hlinked : ∀ level < t.height,
      SkipList.next { l with arena := l.arena.release t.slot }
        (predecessor ((List.range l.level).map fun level => lastOn level (below t.position ts)) level)
        level = .ok (some t.slot) := by
    intro level hlevel
    rw [hpredecessor]
    exact h.next_released hsplit hlevel
  have htargets : ∀ level < t.height,
      linkAt (t.element before after).next level = .ok (firstOn level after) :=
    fun level hlevel => linkAt_links hlevel after
  have hlength : pred? l.length = .ok (before ++ after).length := by
    rw [h.length_eq, hsplit]
    simp [pred?]
  simp only [SkipList.delete, hposition, h.locate_eq, Checked.ok_bind, h.occupant?_eq_some hsplit,
    height_element, foldlM_unlink hlinked htargets, htargets 0 hpos, hpredecessor]
  rw [show (t.element before after).prev = lastSlot before from rfl,
    setPrev_eq _ fun slot hslot => h.exists_get?_released hsplit hslot _ _ _]
  change (do
    let level ← trimLevel (l.bypassed t before after).front l.level
    let length ← pred? l.length
    return (some (t.element before after), { l.bypassed t before after with level, length })) = _
  rw [h.trimLevel_bypassed hsplit, hlength]
  rfl

end Layout

end ExpiringStore.SkipList
