import ExpiringStore.Proofs.History
import ExpiringStore.Proofs.SortedMap
import ExpiringStore.Random.Xoshiro

/-!
# The way of a descent

A descent towards a position is a series of turns. In each it moves along its level to the next
element, if that one is in front of the position, and otherwise it leaves the level where it stands.
The turns need no number of moves to spare: they are told of any list, and a descent that succeeds has
taken them. In a list that a history of changes has made, every move leads to a greater element in
front of the position. So the way ends, and it leaves each level at the last element in front of the
position that a walk along the whole level finds.

## Main definitions

* `Stance`: where a descent stands.
* `SkipList.Route`: the turns from one stance to another.
* `SkipList.Scans`: what the descent yields, said of the whole levels, and what its way is like.
-/

namespace ExpiringStore

/-- Where a descent stands: it has still to move on the lowest `levels` levels. -/
structure Stance where
  levels : Nat
  place : Link
  /-- The places where the levels above were left, the lowest level first. -/
  found : List Link
  deriving DecidableEq, Repr

namespace SkipList

open Tower

variable {γ : Type} {l : SkipList γ} {ts : List Tower} {p : Position}

/-- From the one stance the descent comes to the other, and on the way it moves to the slots
`moves`. -/
inductive Route (l : SkipList γ) (p : Position) : Stance → List Slot → Stance → Prop
  | stay (s : Stance) : Route l p s [] s
  | along {level : Nat} {place : Link} {found : List Link} {slot : Slot} {moves : List Slot}
      {t : Stance} : l.ahead? p level place = .ok (some slot) →
      Route l p ⟨level + 1, some slot, found⟩ moves t →
      Route l p ⟨level + 1, place, found⟩ (slot :: moves) t
  | down {level : Nat} {place : Link} {found : List Link} {moves : List Slot} {t : Stance} :
      l.ahead? p level place = .ok none → Route l p ⟨level, place, place :: found⟩ moves t →
      Route l p ⟨level + 1, place, found⟩ moves t

/-- At the front of the highest level in use. -/
def top (l : SkipList γ) : Stance := ⟨l.level, none, []⟩

namespace Route

variable {s t u : Stance} {moves moves' : List Slot}

theorem append (h : l.Route p s moves t) (h' : l.Route p t moves' u) :
    l.Route p s (moves ++ moves') u := by
  induction h with
  | stay => exact h'
  | along hahead _ ih => exact .along hahead (ih h')
  | down hahead _ ih => exact .down hahead (ih h')

theorem levels_add (h : l.Route p s moves t) :
    t.levels + t.found.length = s.levels + s.found.length := by
  induction h with
  | stay => rfl
  | along _ _ ih => exact ih
  | down _ _ ih =>
    rw [ih]
    simp only [List.length_cons]
    omega

/-- There is one way only: what has been gone of it can be gone on to its end. -/
theorem resume (h : l.Route p s moves t) (hend : l.Route p s moves' u) (hu : u.levels = 0) :
    ∃ rest, moves' = moves ++ rest ∧ l.Route p t rest u := by
  induction h generalizing moves' with
  | stay s => exact ⟨moves', rfl, hend⟩
  | along hahead _ ih =>
    cases hend with
    | stay => cases hu
    | along hahead' hend =>
      cases hahead.symm.trans hahead'
      obtain ⟨rest, rfl, hrest⟩ := ih hend
      exact ⟨rest, rfl, hrest⟩
    | down hahead' => cases hahead.symm.trans hahead'
  | down hahead _ ih =>
    cases hend with
    | stay => cases hu
    | along hahead' => cases hahead.symm.trans hahead'
    | down hahead' hend => exact ih hend

/-- Where the way ends is where level 0 was left. -/
theorem place_eq (h : l.Route p s moves t) (hs : 0 < s.levels) (ht : t.levels = 0) :
    t.place = predecessor t.found 0 := by
  induction h with
  | stay => omega
  | along _ _ ih => exact ih (Nat.succ_pos _) ht
  | @down level _ _ _ _ _ hroute ih =>
    rcases Nat.eq_zero_or_pos level with rfl | hpos
    · cases hroute
      rfl
    · exact ih hpos ht

end Route

/-! ### The descent takes the way -/

theorem route_of_walk {level moves left : Nat} {place place' : Link}
    (h : l.walk p level moves place = .ok (place', left)) (found : List Link) :
    ∃ slots, l.Route p ⟨level + 1, place, found⟩ slots ⟨level + 1, place', found⟩ ∧
      l.ahead? p level place' = .ok none ∧ slots.length + left = moves := by
  induction moves generalizing place with
  | zero =>
    obtain ⟨next, hahead, h⟩ := Checked.bind_eq_ok h
    cases next with
    | none =>
      cases h
      exact ⟨[], .stay _, hahead, rfl⟩
    | some slot => cases h
  | succ moves ih =>
    obtain ⟨next, hahead, h⟩ := Checked.bind_eq_ok h
    cases next with
    | none =>
      cases h
      exact ⟨[], .stay _, hahead, by simp⟩
    | some slot =>
      obtain ⟨slots, hroute, hstop, hlength⟩ := ih h
      refine ⟨slot :: slots, .along hahead hroute, hstop, ?_⟩
      rw [List.length_cons]
      omega

theorem route_of_descend {n moves : Nat} {place : Link} {found result : List Link}
    (h : l.descend p n moves place found = .ok result) :
    ∃ slots place', l.Route p ⟨n, place, found⟩ slots ⟨0, place', result⟩ ∧
      slots.length ≤ moves := by
  induction n generalizing moves place found with
  | zero =>
    cases h
    exact ⟨[], place, .stay _, Nat.zero_le _⟩
  | succ n ih =>
    obtain ⟨⟨place', left⟩, hwalk, h⟩ := Checked.bind_eq_ok h
    obtain ⟨slots, hroute, hstop, hlength⟩ := route_of_walk hwalk found
    obtain ⟨slots', last, hroute', hle⟩ := ih h
    refine ⟨slots ++ slots', last, hroute.append (.down hstop hroute'), ?_⟩
    rw [List.length_append]
    omega

theorem route_of_locate {found : List Link} (hlevel : 0 < l.level) (h : l.locate p = .ok found) :
    ∃ moves, l.Route p l.top moves ⟨0, predecessor found 0, found⟩ := by
  obtain ⟨moves, place, hroute, -⟩ := route_of_descend h
  have hplace := hroute.place_eq hlevel rfl
  exact ⟨moves, hplace ▸ hroute⟩

section Ends

variable {s : Stance} {moves : List Slot} {found : List Link}

theorem Route.ends (h : l.Route p l.top moves s) (hlevel : 0 < l.level)
    (hlocate : l.locate p = .ok found) :
    ∃ rest, l.Route p s rest ⟨0, predecessor found 0, found⟩ := by
  obtain ⟨all, hend⟩ := route_of_locate hlevel hlocate
  obtain ⟨rest, -, hrest⟩ := h.resume hend rfl
  exact ⟨rest, hrest⟩

theorem Route.seek_eq (h : l.Route p l.top moves s) (hlevel : 0 < l.level)
    (hlocate : l.locate p = .ok found) (hs : s.levels = 0) : l.seek p = l.next s.place 0 := by
  obtain ⟨rest, hrest⟩ := h.ends hlevel hlocate
  cases hrest with
  | stay => simp only [seek, hlocate, Checked.ok_bind]
  | along => cases hs
  | down => cases hs

end Ends

/-! ### Whole levels -/

/-- Whether the element in a slot is in front of a position. -/
def isBelow (l : SkipList γ) (p : Position) (slot : Slot) : Bool :=
  (l.arena.get? slot).any fun e => e.position < p

/-- The descent towards `p` in the list with the slots `bottom` on level 0 finds what walks along
whole levels find, and on its way it makes no more moves than there are elements in front of `p`. -/
structure Scans (l : SkipList γ) (p : Position) (bottom : List Slot) (found : List Link) :
    Prop where
  seek_eq : l.seek p = .ok (bottom.find? fun slot => !l.isBelow p slot)
  locate_eq : l.locate p = .ok found
  occupied : ∀ slot ∈ bottom, ∃ e, l.element slot = .ok e
  predecessor_eq : ∀ level < l.level, ∃ slots, l.chain level = .ok slots ∧ slots.Sublist bottom ∧
    predecessor found level = (slots.filter (l.isBelow p)).getLast?
  predecessor_unused : ∀ level, l.level ≤ level → predecessor found level = none
  /-- Each move leads to a greater element, and to none that is not in front of the position. -/
  moves_increase : ∀ moves s, l.Route p l.top moves s → ∃ es, moves.mapM l.element = .ok es ∧
    es.Pairwise (fun d e => d.position < e.position) ∧ ∀ e ∈ es, e.position < p
  moves_le : ∀ moves s, l.Route p l.top moves s →
    moves.length ≤ (bottom.filter (l.isBelow p)).length
  /-- Each turn is a move or leaves a level. -/
  turns_le : ∀ moves s, l.Route p l.top moves s →
    moves.length + s.found.length ≤ (bottom.filter (l.isBelow p)).length + l.level
  /-- However far the descent has come, it goes on to the same end. -/
  ends : ∀ moves s, l.Route p l.top moves s →
    ∃ rest, l.Route p s rest ⟨0, predecessor found 0, found⟩
  /-- A search needs the last place alone, and not what was found on the levels above. -/
  seek_of_route : ∀ moves s, l.Route p l.top moves s → s.levels = 0 →
    l.seek p = l.next s.place 0

namespace Layout

theorem isBelow_slot (h : l.Layout ts) (p : Position) {t : Tower} (ht : t ∈ ts) :
    l.isBelow p t.slot = decide (t.position < p) := by
  obtain ⟨before, after, -, hget⟩ := h.get?_of_mem ht
  rw [isBelow, hget, Option.any_some, position_element]

/-- In front of a tower that is in front of the position, all are. -/
theorem pairwise_lt (h : l.Layout ts) (p : Position) :
    ts.Pairwise fun t u => decide (u.position < p) = true → decide (t.position < p) = true := by
  refine h.sorted.imp fun hlt hu => ?_
  rw [decide_eq_true_eq] at hu ⊢
  exact Position.lt_trans hlt hu

theorem filter_isBelow (h : l.Layout ts) (p : Position) (level : Nat) :
    ((tall level ts).map slot).filter (l.isBelow p) = (tall level (below p ts)).map slot := by
  have hbelow : (tall level ts).filter (l.isBelow p ∘ slot) =
      (tall level ts).filter fun t => t.position < p :=
    List.filter_congr fun t ht => h.isBelow_slot p (mem_tall.1 ht).1
  rw [List.filter_map, hbelow, below, takeWhile_eq_filter (h.pairwise_lt p), tall, tall,
    List.filter_comm]

theorem filter_slots_isBelow (h : l.Layout ts) (p : Position) :
    (ts.map slot).filter (l.isBelow p) = (below p ts).map slot := by
  have hpos : ∀ t ∈ below p ts, 1 ≤ t.height := fun t ht =>
    h.height_pos t (List.takeWhile_subset _ ht)
  have hzero := h.filter_isBelow p 0
  rwa [h.tall_zero, Tower.tall_zero hpos] at hzero

theorem find?_not_isBelow (h : l.Layout ts) (p : Position) :
    (ts.map slot).find? (fun slot => !l.isBelow p slot) = firstOn 0 (onward p ts) := by
  have honward : ts.filter ((fun slot => !l.isBelow p slot) ∘ slot) =
      ts.filter fun t => !decide (t.position < p) :=
    List.filter_congr fun t ht => by rw [Function.comp_apply, h.isBelow_slot p ht]
  rw [h.firstOn_zero_eq (below_append_onward p ts).symm, ← List.head?_filter, List.filter_map,
    honward, List.head?_map, onward, dropWhile_eq_filter (h.pairwise_lt p)]

/-! ### The way on a layout -/

/-- From behind some of the towers in front of the position the way passes only later ones of
them. -/
theorem moves_sublist (h : l.Layout ts) {s t : Stance} {moves : List Slot} {done rest : List Tower}
    (hroute : l.Route p s moves t) (hdone : below p ts = done ++ rest)
    (hplace : s.place = lastSlot done) (hanchor : ∀ level < s.levels, Anchored level done)
    (hlevels : s.levels ≤ l.ceiling) : moves.Sublist (rest.map slot) := by
  induction hroute generalizing done rest with
  | stay => exact List.nil_sublist _
  | @along level place found slot moves t hahead _ ih =>
    simp only at hplace hanchor hlevels
    rw [hplace] at hahead
    rcases h.ahead?_cases hdone (hanchor level (Nat.lt_succ_self level)) hlevels with
      ⟨-, hnone⟩ | ⟨skipped, u, rest', rfl, hu, hsome⟩
    · cases hnone.symm.trans hahead
    · cases hsome.symm.trans hahead
      have hrest : moves.Sublist (rest'.map Tower.slot) := by
        have hpassed : below p ts = (done ++ skipped ++ [u]) ++ rest' := by simpa using hdone
        refine ih hpassed (lastSlot_concat _ u).symm ?_ hlevels
        exact fun level' hlt => (anchored_concat hu _).mono (Nat.le_of_lt_succ hlt)
      rw [List.map_append, List.map_cons]
      exact List.sublist_append_of_sublist_right (hrest.cons_cons _)
  | down _ _ ih =>
    simp only at hplace hanchor hlevels
    exact ih hdone hplace (fun level hlt => hanchor level (Nat.lt_succ_of_lt hlt))
      (Nat.le_of_succ_le hlevels)

theorem moves_sublist_below (h : l.Layout ts) {s : Stance} {moves : List Slot}
    (hroute : l.Route p l.top moves s) : moves.Sublist ((below p ts).map slot) :=
  h.moves_sublist hroute (List.nil_append _).symm rfl (fun level _ => anchored_nil level)
    h.level_le_ceiling

theorem length_moves_le (h : l.Layout ts) {s : Stance} {moves : List Slot}
    (hroute : l.Route p l.top moves s) :
    moves.length ≤ ((ts.map slot).filter (l.isBelow p)).length := by
  rw [h.filter_slots_isBelow]
  exact (h.moves_sublist_below hroute).length_le

theorem exists_elements (h : l.Layout ts) {us : List Tower} (hus : ∀ u ∈ us, u ∈ ts) :
    ∃ es, (us.map slot).mapM l.element = .ok es ∧ es.map Element.position = us.map position := by
  induction us with
  | nil => exact ⟨[], rfl, rfl⟩
  | cons u us ih =>
    obtain ⟨es, hes, hpositions⟩ := ih fun v hv => hus v (List.mem_cons_of_mem u hv)
    obtain ⟨before, after, hsplit⟩ := List.append_of_mem (hus u List.mem_cons_self)
    refine ⟨u.element before after :: es, ?_, ?_⟩
    · rw [List.map_cons, List.mapM_cons, h.element_eq hsplit, Checked.ok_bind, hes]
      rfl
    · rw [List.map_cons, hpositions, position_element, List.map_cons]

theorem moves_increase (h : l.Layout ts) {s : Stance} {moves : List Slot}
    (hroute : l.Route p l.top moves s) :
    ∃ es, moves.mapM l.element = .ok es ∧ es.Pairwise (fun d e => d.position < e.position) ∧
      ∀ e ∈ es, e.position < p := by
  obtain ⟨us, hsublist, rfl⟩ := List.sublist_map_iff.1 (h.moves_sublist_below hroute)
  have hsublist' : us.Sublist ts := hsublist.trans (List.takeWhile_sublist _)
  obtain ⟨es, hes, hpositions⟩ := h.exists_elements fun u hu => hsublist'.subset hu
  refine ⟨es, hes, ?_, fun e he => ?_⟩
  · have hsorted : (us.map position).Pairwise (· < ·) :=
      List.pairwise_map.2 (h.sorted.sublist hsublist')
    rw [← hpositions] at hsorted
    exact List.pairwise_map.1 hsorted
  · have hmem : e.position ∈ us.map position := hpositions ▸ List.mem_map_of_mem he
    obtain ⟨u, hu, hposition⟩ := List.mem_map.1 hmem
    exact hposition ▸ lt_of_mem_below (hsublist.subset hu)

theorem scans (h : l.Layout ts) (p : Position) :
    l.Scans p (ts.map slot) ((List.range l.level).map fun level => lastOn level (below p ts)) := by
  have hlevel : 0 < l.level := h.level_eq ▸ one_le_levels ts
  constructor
  case seek_eq => rw [h.seek_eq, h.find?_not_isBelow]
  case locate_eq => exact h.locate_eq p
  case occupied =>
    intro slot hslot
    obtain ⟨t, ht, rfl⟩ := List.mem_map.1 hslot
    obtain ⟨before, after, hsplit⟩ := List.append_of_mem ht
    exact ⟨_, h.element_eq hsplit⟩
  case predecessor_eq =>
    intro level hlt
    refine ⟨_, h.chain_eq (Nat.lt_of_lt_of_le hlt h.level_le_ceiling), ?_, ?_⟩
    · exact List.filter_sublist.map slot
    · rw [h.predecessor_locate, h.filter_isBelow, List.getLast?_map]
      rfl
  case predecessor_unused =>
    intro level hle
    simp [predecessor, hle]
  case moves_increase => exact fun moves s hroute => h.moves_increase hroute
  case moves_le => exact fun moves s hroute => h.length_moves_le hroute
  case turns_le =>
    intro moves s hroute
    have hlevels : s.levels + s.found.length = l.level := hroute.levels_add
    have hle := h.length_moves_le hroute
    omega
  case ends => exact fun moves s hroute => hroute.ends hlevel (h.locate_eq p)
  case seek_of_route => exact fun moves s hroute => hroute.seek_eq hlevel (h.locate_eq p)

end Layout

/-- After every history of changes, a descent towards any position finds on each level what a walk
along the whole level finds, and whatever way it has gone goes on to an end. -/
theorem descents_scan_whole_levels [WordSource γ] {ceiling : Nat} (hpos : 1 ≤ ceiling)
    (hle : ceiling ≤ maxCeiling) (source : γ) (edits : List Edit) :
    ∃ l bottom, ofHistory ceiling source edits = .ok l ∧ l.chain 0 = .ok bottom ∧
      ∀ p, ∃ found, l.Scans p bottom found := by
  obtain ⟨l, ts, hall, hlayout, -⟩ := layout_ofHistory hpos hle source edits
  exact ⟨l, ts.map slot, hall, hlayout.chain_zero_eq, fun p => ⟨_, hlayout.scans p⟩⟩

theorem descents_scan_whole_levels_past_a_skipped_element :
    1 ≤ 4 ∧ 4 ≤ maxCeiling ∧
      ∃ l bottom moves,
        ofHistory 4 (Xoshiro.ofSeed 16)
          [.insert [97] [1] 5, .insert [98] [2] 5, .insert [99] [3] 4, .insert [] [4] 5,
            .delete [99] 4, .insert [100] [5] 5, .insert [97] [6] 6, .insert [99] [7] 2] = .ok l ∧
        l.chain 0 = .ok bottom ∧ l.Scans ⟨5, [99]⟩ bottom [some 1, some 3, none] ∧
        l.Route ⟨5, [99]⟩ l.top moves ⟨0, some 1, [some 1, some 3, none]⟩ ∧
        moves.length ≤ (bottom.filter (l.isBelow ⟨5, [99]⟩)).length := by
  obtain ⟨l, bottom, hall, hbottom, hscans⟩ :=
    descents_scan_whole_levels (show 1 ≤ 4 by decide) (by decide) (Xoshiro.ofSeed 16)
      [.insert [97] [1] 5, .insert [98] [2] 5, .insert [99] [3] 4, .insert [] [4] 5,
        .delete [99] 4, .insert [100] [5] 5, .insert [97] [6] 6, .insert [99] [7] 2]
  obtain ⟨found, h⟩ := hscans ⟨5, [99]⟩
  have hlocate : (ofHistory 4 (Xoshiro.ofSeed 16)
      [.insert [97] [1] 5, .insert [98] [2] 5, .insert [99] [3] 4, .insert [] [4] 5,
        .delete [99] 4, .insert [100] [5] 5, .insert [97] [6] 6, .insert [99] [7] 2] >>=
      fun l => l.locate ⟨5, [99]⟩) = .ok [some 1, some 3, none] := rfl
  rw [hall, Checked.ok_bind, h.locate_eq] at hlocate
  cases hlocate
  obtain ⟨moves, hroute⟩ := h.ends [] l.top (.stay l.top)
  exact ⟨by decide, by decide, l, bottom, moves, hall, hbottom, h, hroute, h.moves_le _ _ hroute⟩

end SkipList

end ExpiringStore
