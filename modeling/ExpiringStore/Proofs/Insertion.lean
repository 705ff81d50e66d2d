import ExpiringStore.Proofs.Descent
import ExpiringStore.Proofs.Relink

/-!
# Insertion on a layout

An insertion at a free position puts a new tower behind the towers in front of it. Its predecessors
on the levels below its height are relinked to it, its follower leads back to it, and every other
link stays. An insertion at a taken position changes one value.
-/

namespace ExpiringStore.SkipList

open Tower

variable {γ : Type} {l : SkipList γ} {ts : List Tower}

/-! ### The row of a predecessor -/

/-- A row whose place ends the levels that no tower of `mid` is on gets the new tower between `mid`
and `after`. -/
theorem rewire_links_insert {places : Nat → Link} {place : Link} {height : Nat} {t : Tower}
    {mid : List Tower} (after : List Tower)
    (hplaces : ∀ level < height, places level = place ↔ tall level mid = []) :
    rewire places (fun _ => some t.slot) t.height place (links height (mid ++ after)) =
      links height (mid ++ t :: after) := by
  refine rewire_links _ _ _ _ hplaces (fun level hlevel => ?_) fun level hlevel => ?_
  · exact (firstOn_cons_of_lt hlevel after).symm
  · exact (firstOn_cons_of_le hlevel after).symm

/-! ### The new layout -/

def newTower (l : SkipList γ) (p : Position) (value : Bytes) (height : Nat) : Tower :=
  ⟨l.arena.nextSlot, p.key, value, p.score, height⟩

/-- The tower that an insertion makes at a new position: its height is drawn from the next word. -/
def drawnTower [WordSource γ] (l : SkipList γ) (p : Position) (value : Bytes) : Tower :=
  l.newTower p value (heightOf (WordSource.next l.source).1 l.ceiling)

/-- The list `l` with the arena `arena`, in which the tower `t` has been placed, and with `t` linked
in between the towers `before` and `after`. -/
def linkedIn (l : SkipList γ) (arena : Arena Element) (t : Tower) (before after : List Tower) :
    SkipList γ :=
  ({ l with arena, level := max l.level t.height, length := l.length + 1 }.relink
    (fun level => lastOn level before) (fun _ => some t.slot) t.height).relinkBack
    (firstOn 0 after) (some t.slot)

theorem get?_linkedIn (l : SkipList γ) (arena : Arena Element) (t : Tower)
    (before after : List Tower) (slot : Slot) :
    (l.linkedIn arena t before after).arena.get? slot = (arena.get? slot).map fun e =>
      { e with
        next := rewire (fun level => lastOn level before) (fun _ => some t.slot) t.height
          (some slot) e.next
        prev := if some slot = firstOn 0 after then some t.slot else e.prev } := by
  simp only [linkedIn, relinkBack, relink, Arena.get?_mapSlots, Option.map_map]
  cases arena.get? slot with
  | none => rfl
  | some e =>
    simp only [Option.map_some, Function.comp_apply]
    split <;> rfl

namespace Layout

theorem sorted_insert {before after : List Tower} {t : Tower}
    (hsorted : (before ++ after).Pairwise fun t u => t.position < u.position)
    (hbefore : ∀ u ∈ before, u.position < t.position)
    (hafter : ∀ u ∈ after, t.position < u.position) :
    (before ++ t :: after).Pairwise fun t u => t.position < u.position := by
  obtain ⟨hinit, hrest, hcross⟩ := List.pairwise_append.1 hsorted
  refine List.pairwise_append.2 ⟨hinit, List.pairwise_cons.2 ⟨hafter, hrest⟩, ?_⟩
  intro u hu v hv
  rcases List.mem_cons.1 hv with rfl | hv
  · exact hbefore u hu
  · exact hcross u hu v hv

section LinkedIn

variable {before after : List Tower} {t : Tower} {arena : Arena Element}

theorem cell_linkedIn_self (hsplit : ts = before ++ after)
    (hfresh : ∀ u ∈ ts, u.slot ≠ t.slot) (hnew : arena.get? t.slot = some (t.element before after)) :
    (l.linkedIn arena t before after).arena.get? t.slot = some (t.element before after) := by
  have hrow : ∀ level < (links t.height after).size, lastOn level before ≠ some t.slot :=
    fun _ _ => lastOn_ne_slot fun u hu => hfresh u (hsplit ▸ List.mem_append_left _ hu)
  have hfollower : some t.slot ≠ firstOn 0 after :=
    (firstOn_ne_slot fun u hu => hfresh u (hsplit ▸ List.mem_append_right _ hu)).symm
  rw [get?_linkedIn, hnew]
  simp only [Option.map_some, Tower.element, rewire_eq_self _ _ _ _ hrow, hfollower, ↓reduceIte]

theorem cell_linkedIn_front (h : l.Layout ts) {pre mid : List Tower} {u : Tower}
    (hsplit : ts = (pre ++ u :: mid) ++ after) (hfresh : ∀ u ∈ ts, u.slot ≠ t.slot)
    (hother : ∀ slot ≠ t.slot, arena.get? slot = l.arena.get? slot) :
    (l.linkedIn arena t (pre ++ u :: mid) after).arena.get? u.slot =
      some (u.element pre (mid ++ t :: after)) := by
  have hold : ts = pre ++ u :: (mid ++ after) := by rw [hsplit, List.append_assoc]; rfl
  have hne := h.slot_ne_of_split hold
  have hplaces : ∀ level < u.height,
      lastOn level (pre ++ u :: mid) = some u.slot ↔ tall level mid = [] :=
    fun level hlevel => lastOn_eq_slot_iff hlevel fun v hv => hne v (by simp [hv])
  have hfollower : some u.slot ≠ firstOn 0 after :=
    (firstOn_ne_slot fun v hv => hne v (by simp [hv])).symm
  rw [get?_linkedIn, hother u.slot (hfresh u (by simp [hold])), h.cell _ _ _ hold]
  simp only [Option.map_some, Tower.element, rewire_links_insert after hplaces, hfollower,
    ↓reduceIte]

theorem cell_linkedIn_behind (h : l.Layout ts) {mid post : List Tower} {u : Tower}
    (hsplit : ts = before ++ (mid ++ u :: post)) (hfresh : ∀ u ∈ ts, u.slot ≠ t.slot)
    (hother : ∀ slot ≠ t.slot, arena.get? slot = l.arena.get? slot) :
    (l.linkedIn arena t before (mid ++ u :: post)).arena.get? u.slot =
      some (u.element (before ++ t :: mid) post) := by
  have hold : ts = (before ++ mid) ++ u :: post := by rw [hsplit, List.append_assoc]
  have hne := h.slot_ne_of_split hold
  have hrow : ∀ level < (links u.height post).size, lastOn level before ≠ some u.slot :=
    fun _ _ => lastOn_ne_slot fun v hv => hne v (by simp [hv])
  rw [get?_linkedIn, h.firstOn_zero_eq hsplit, hother u.slot (hfresh u (by simp [hold])),
    h.cell _ _ _ hold]
  simp only [Option.map_some, Tower.element, rewire_eq_self _ _ _ _ hrow]
  cases mid with
  | nil => simp
  | cons v mid =>
    have hv : ¬ u.slot = v.slot := fun heq => hne v (by simp) heq.symm
    simp [hv, lastSlot]

theorem linkedIn (h : l.Layout ts) (hsplit : ts = before ++ after)
    (hbefore : ∀ u ∈ before, u.position < t.position)
    (hafter : ∀ u ∈ after, t.position < u.position) (hpos : 1 ≤ t.height)
    (hle : t.height ≤ l.ceiling) (hfresh : ∀ u ∈ ts, u.slot ≠ t.slot)
    (hnew : arena.get? t.slot = some (t.element before after))
    (hother : ∀ slot ≠ t.slot, arena.get? slot = l.arena.get? slot) (htidy : arena.Tidy) :
    (l.linkedIn arena t before after).Layout (before ++ t :: after) := by
  have hmem : ∀ u, u ∈ before ++ t :: after ↔ u = t ∨ u ∈ ts := by
    intro u
    rw [hsplit]
    simp only [List.mem_append, List.mem_cons]
    tauto
  have hceiling : (l.linkedIn arena t before after).ceiling = l.ceiling :=
    size_rewire ..
  constructor
  case ceiling_pos => rw [hceiling]; exact h.ceiling_pos
  case ceiling_le => rw [hceiling]; exact h.ceiling_le
  case sorted => exact sorted_insert (hsplit ▸ h.sorted) hbefore hafter
  case height_pos =>
    intro u hu
    rcases (hmem u).1 hu with rfl | hu
    · exact hpos
    · exact h.height_pos u hu
  case height_le =>
    intro u hu
    rw [hceiling]
    rcases (hmem u).1 hu with rfl | hu
    · exact hle
    · exact h.height_le u hu
  case front_eq =>
    rw [hceiling]
    have hplaces : ∀ level < l.ceiling, lastOn level before = none ↔ tall level before = [] :=
      fun level _ => lastOn_eq_none
    have hrow := rewire_links_insert (t := t) after hplaces
    rw [← hsplit, ← h.front_eq] at hrow
    exact hrow
  case cell =>
    intro pre u post hcut
    rcases cut_cases hcut with ⟨mid, rfl, rfl⟩ | ⟨rfl, rfl, rfl⟩ | ⟨mid, rfl, rfl⟩
    · exact h.cell_linkedIn_front hsplit hfresh hother
    · exact cell_linkedIn_self hsplit hfresh hnew
    · exact h.cell_linkedIn_behind hsplit hfresh hother
  case occupied =>
    intro slot e he
    rw [get?_linkedIn, Option.map_eq_some_iff] at he
    obtain ⟨old, hold, -⟩ := he
    by_cases hslot : slot = t.slot
    · exact ⟨t, by simp, hslot.symm⟩
    · rw [hother slot hslot] at hold
      obtain ⟨u, hu, huslot⟩ := h.occupied slot old hold
      exact ⟨u, (hmem u).2 (Or.inr hu), huslot⟩
  case back_eq =>
    simp only [SkipList.linkedIn, relinkBack, relink, h.firstOn_zero_eq hsplit, h.back_eq, hsplit]
    cases after with
    | nil => simp [lastSlot]
    | cons u after => simp [lastSlot]
  case length_eq =>
    simp only [SkipList.linkedIn, relinkBack, relink, h.length_eq, hsplit, List.length_append,
      List.length_cons]
    omega
  case level_eq =>
    simp only [SkipList.linkedIn, relinkBack, relink, h.level_eq, hsplit, levels_append,
      levels_cons]
    omega
  case tidy => exact (htidy.mapSlots _).mapSlots _

end LinkedIn

/-! ### The operation -/

theorem slot_ne_nextSlot (h : l.Layout ts) {u : Tower} (hu : u ∈ ts) :
    u.slot ≠ l.arena.nextSlot := by
  intro heq
  obtain ⟨before, after, -, hget⟩ := h.get?_of_mem hu
  rw [heq, h.tidy.get?_nextSlot] at hget
  cases hget

theorem splice_eq (h : l.Layout ts) (p : Position) (value : Bytes) {height : Nat}
    (hpos : 1 ≤ height) (hle : height ≤ l.ceiling) {arena : Arena Element}
    (hinsert : l.arena.insert? ((l.newTower p value height).element (below p ts) (onward p ts)) =
      some (l.arena.nextSlot, arena))
    (hother : ∀ slot ≠ l.arena.nextSlot, arena.get? slot = l.arena.get? slot) :
    l.splice ((List.range l.level).map fun level => lastOn level (below p ts)) p value height =
      .ok ((l.newTower p value height).element (below p ts) (onward p ts),
        l.linkedIn arena (l.newTower p value height) (below p ts) (onward p ts)) := by
  have hsplit := (below_append_onward p ts).symm
  have hfresh : ∀ u ∈ ts, u.slot ≠ l.arena.nextSlot := fun u hu => h.slot_ne_nextSlot hu
  have hrow : (List.range height).mapM (fun level => l.next (lastOn level (below p ts)) level) =
      .ok ((List.range height).map fun level => firstOn level (onward p ts)) := by
    refine Checked.mapM_eq_map fun level hlevel => h.next_lastOn hsplit ?_
    exact Nat.lt_of_lt_of_le (List.mem_range.1 hlevel) hle
  have hprev : lastOn 0 (below p ts) = lastSlot (below p ts) :=
    lastOn_zero fun u hu => h.height_pos u (hsplit ▸ List.mem_append_left _ hu)
  -- the writes go to the front and to towers, and those are where they were
  have hwrites : ∀ level < height, ∃ link,
      SkipList.next { l with arena, level := max l.level height, length := l.length + 1 }
        (lastOn level (below p ts)) level = .ok link := by
    intro level hlevel
    refine ⟨firstOn level (onward p ts), ?_⟩
    refine h.next_lastOn_of_get? hsplit (Nat.lt_of_lt_of_le hlevel hle) rfl fun u hu => ?_
    exact hother _ (hfresh u (hsplit ▸ List.mem_append_left _ hu))
  have hback : ∀ slot, firstOn 0 (onward p ts) = some slot → ∃ e,
      (SkipList.relink (fun level => lastOn level (below p ts)) (fun _ => some l.arena.nextSlot) height
        { l with arena, level := max l.level height, length := l.length + 1 }).arena.get? slot =
          some e := by
    intro slot hslot
    obtain ⟨u, honward, -, rfl⟩ := exists_of_firstOn hslot
    have hu : u ∈ ts := hsplit ▸ List.mem_append_right _ honward
    obtain ⟨before, after, -, hget⟩ := h.get?_of_mem hu
    rw [relink, Arena.get?_mapSlots, hother _ (hfresh u hu), hget]
    exact ⟨_, rfl⟩
  simp only [Tower.element, newTower, ← hprev] at hinsert
  simp only [links] at hinsert
  simp only [splice, h.predecessor_locate, hrow, Checked.ok_bind, hinsert,
    foldlM_setNext hwrites]
  have hlink := linkAt_links hpos (onward p ts)
  rw [links] at hlink
  simp only [hlink, Checked.ok_bind, setPrev_eq _ hback, newTower, Tower.element, links, hprev]
  rfl

/-- At a position that no tower has, an insertion makes a new tower. -/
theorem insert_new [WordSource γ] (h : l.Layout ts) {key : Bytes} {score : Score}
    (habsent : ∀ u ∈ ts, u.position ≠ ⟨score, key⟩) (value : Bytes) :
    ∃ l', l.insert key value score =
        .ok ((l.drawnTower ⟨score, key⟩ value).element (below ⟨score, key⟩ ts)
          (onward ⟨score, key⟩ ts), l') ∧
      l'.Layout (place (l.drawnTower ⟨score, key⟩ value) ts) ∧
      l'.source = (WordSource.next l.source).2 ∧ l'.ceiling = l.ceiling ∧
      l'.arena.free = l.arena.free.tail := by
  have hpos := one_le_heightOf (WordSource.next l.source).1 h.ceiling_pos
  have hle := heightOf_le_ceiling (WordSource.next l.source).1 l.ceiling
  -- drawing a word changes the source alone
  have hdrawn : SkipList.Layout { l with source := (WordSource.next l.source).2 } ts := { h with }
  obtain ⟨arena, hinsert, hfree, hsize, hnew, hother⟩ :=
    Arena.insert?_eq h.tidy.lt_size ((l.drawnTower ⟨score, key⟩ value).element
      (below ⟨score, key⟩ ts) (onward ⟨score, key⟩ ts))
  have hsplice := hdrawn.splice_eq ⟨score, key⟩ value hpos hle hinsert hother
  refine ⟨_, ?_, hdrawn.linkedIn (below_append_onward _ ts).symm
    (fun u hu => lt_of_mem_below hu) ?_ hpos hle (fun u hu => h.slot_ne_nextSlot hu) hnew hother
    (h.tidy.insert? hfree hsize hnew hother), rfl, size_rewire .., hfree⟩
  · simp only [SkipList.insert, h.locate_eq, Checked.ok_bind, h.occupant?_eq_none habsent]
    exact hsplice
  · intro u hu
    have hnot := not_lt_of_mem_onward h.sorted hu
    rcases Position.lt_or_eq_or_lt u.position ⟨score, key⟩ with hlt | heq | hgt
    · exact absurd hlt hnot
    · exact absurd heq (habsent u (below_append_onward _ ts ▸ List.mem_append_right _ hu))
    · exact hgt

/-! ### Another value at a taken position -/

theorem overwritten (h : l.Layout ts) {value : Bytes} {t : Tower} {e : Element} (ht : t ∈ ts)
    (hget : l.arena.get? t.slot = some e) :
    SkipList.Layout { l with arena := l.arena.put t.slot { e with value } }
      (overwrite t.position value ts) := by
  have hput := Arena.put_eq_mapSlots hget fun e => { e with value }
  have hmem : ∀ u ∈ Tower.overwrite t.position value ts, ∃ v ∈ ts, revalue t.position value v = u :=
    fun u hu => List.mem_map.1 hu
  constructor
  case ceiling_pos => exact h.ceiling_pos
  case ceiling_le => exact h.ceiling_le
  case sorted =>
    refine List.pairwise_map.2 (h.sorted.imp fun {u v} hlt => ?_)
    rwa [position_revalue, position_revalue]
  case height_pos =>
    intro u hu
    obtain ⟨v, hv, rfl⟩ := hmem u hu
    rw [height_revalue]
    exact h.height_pos v hv
  case height_le =>
    intro u hu
    obtain ⟨v, hv, rfl⟩ := hmem u hu
    rw [height_revalue]
    exact h.height_le v hv
  case front_eq => rw [links_overwrite]; exact h.front_eq
  case cell =>
    intro pre u post hcut
    obtain ⟨pre', rest, hsplit, rfl, hrest⟩ := List.map_eq_append_iff.1 hcut
    obtain ⟨v, post', rfl, rfl, rfl⟩ := List.map_eq_cons_iff.1 hrest
    have hcell := h.cell pre' v post' hsplit
    simp only [hput, slot_revalue, Arena.get?_mapSlots, hcell, Option.map_some]
    have hprev := lastSlot_overwrite t.position value pre'
    have hlinks := links_overwrite t.position value v.height post'
    rw [Tower.overwrite] at hprev hlinks
    simp only [Tower.element, height_revalue, hprev, hlinks]
    by_cases hv : v = t
    · simp [hv, revalue]
    · have hslot : ¬ v.slot = t.slot := fun heq => hv (h.eq_of_slot_eq (by simp [hsplit]) ht heq)
      have hposition : v.position ≠ t.position := by
        obtain ⟨before, after, hcut'⟩ := List.append_of_mem ht
        have hv' : v ∈ before ++ t :: after := by rw [← hcut', hsplit]; simp
        refine position_ne_of_split h.sorted hcut' v ?_
        simpa [hv] using hv'
      rw [if_neg hslot, revalue_of_ne value hposition]
  case occupied =>
    intro slot d hd
    simp only [hput, Arena.get?_mapSlots, Option.map_eq_some_iff] at hd
    obtain ⟨old, hold, -⟩ := hd
    obtain ⟨u, hu, hslot⟩ := h.occupied slot old hold
    exact ⟨_, List.mem_map_of_mem hu, by rw [slot_revalue, hslot]⟩
  case back_eq => rw [lastSlot_overwrite]; exact h.back_eq
  case length_eq => rw [Tower.overwrite, List.length_map]; exact h.length_eq
  case level_eq => rw [levels_overwrite]; exact h.level_eq
  case tidy =>
    simp only [hput]
    exact h.tidy.mapSlots _

theorem insert_taken [WordSource γ] (h : l.Layout ts) {before after : List Tower} {t : Tower}
    (hsplit : ts = before ++ t :: after) (value : Bytes) :
    l.insert t.key value t.score =
        .ok ({ t.element before after with value },
          { l with arena := l.arena.put t.slot { t.element before after with value } }) ∧
      SkipList.Layout { l with arena := l.arena.put t.slot { t.element before after with value } }
        (Tower.overwrite t.position value ts) := by
  refine ⟨?_, h.overwritten (by simp [hsplit]) (h.cell before t after hsplit)⟩
  have hposition : (⟨t.score, t.key⟩ : Position) = t.position := rfl
  simp only [SkipList.insert, hposition, h.locate_eq, Checked.ok_bind, h.occupant?_eq_some hsplit]
  rfl

end Layout

end ExpiringStore.SkipList
