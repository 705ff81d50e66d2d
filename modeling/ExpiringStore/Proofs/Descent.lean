import ExpiringStore.Proofs.Layout
import ExpiringStore.SkipList.Descent

/-!
# The descent on a layout

On every level the descent ends at the last tower there that is in front of the wanted position. It
starts a level where the level above left it, and that loses nothing: the tower it stands at is on
the lower level as well, and no tower behind it and in front of the position is on the upper one.
-/

namespace ExpiringStore.SkipList.Layout

open Tower

variable {γ : Type} {l : SkipList γ} {ts : List Tower} {p : Position}

/-! ### One level -/

theorem ahead?_eq_none (h : l.Layout ts) {done rest : List Tower} {level : Nat}
    (hsplit : ts = done ++ rest) (hanchor : Anchored level done) (hlevel : level < l.ceiling)
    (hrest : ∀ t ∈ tall level rest, ¬ t.position < p) :
    l.ahead? p level (lastSlot done) = .ok none := by
  simp only [ahead?, h.next_lastSlot hsplit hanchor hlevel, Checked.ok_bind]
  by_cases hnil : tall level rest = []
  · rw [firstOn_eq_none.2 hnil]
    rfl
  · obtain ⟨skipped, t, rest, rfl, hskipped, ht⟩ := exists_split_of_tall hnil
    have hnot : ¬ t.position < p := hrest t (by simp [tall_cons_of_lt ht])
    have hfirst : firstOn level (skipped ++ t :: rest) = some t.slot := by
      rw [firstOn_append, firstOn_eq_none.2 hskipped, firstOn_cons_of_lt ht]
      rfl
    have hcut : ts = (done ++ skipped) ++ t :: rest := by rw [hsplit, List.append_assoc]
    rw [hfirst]
    simp only [h.element_eq hcut, Checked.ok_bind, position_element, hnot, ↓reduceIte]
    rfl

theorem ahead?_eq_some (h : l.Layout ts) {done skipped rest : List Tower} {t : Tower} {level : Nat}
    (hsplit : ts = done ++ (skipped ++ t :: rest)) (hanchor : Anchored level done)
    (hlevel : level < l.ceiling) (hskipped : tall level skipped = []) (ht : level < t.height)
    (hlt : t.position < p) : l.ahead? p level (lastSlot done) = .ok (some t.slot) := by
  have hfirst : firstOn level (skipped ++ t :: rest) = some t.slot := by
    rw [firstOn_append, firstOn_eq_none.2 hskipped, firstOn_cons_of_lt ht]
    rfl
  have hcut : ts = (done ++ skipped) ++ t :: rest := by rw [hsplit, List.append_assoc]
  simp only [ahead?, h.next_lastSlot hsplit hanchor hlevel, hfirst, Checked.ok_bind,
    h.element_eq hcut, position_element, hlt, ↓reduceIte]
  rfl

/-- A place behind some of the towers in front of the position leads on to the next of them that is on
the level, or nowhere if there is none. -/
theorem ahead?_cases (h : l.Layout ts) {done rest : List Tower} {level : Nat}
    (hdone : below p ts = done ++ rest) (hanchor : Anchored level done)
    (hlevel : level < l.ceiling) :
    (tall level rest = [] ∧ l.ahead? p level (lastSlot done) = .ok none) ∨
      ∃ skipped t rest', rest = skipped ++ t :: rest' ∧ level < t.height ∧
        l.ahead? p level (lastSlot done) = .ok (some t.slot) := by
  have hcut : ts = done ++ (rest ++ onward p ts) := by
    rw [← List.append_assoc, ← hdone, below_append_onward]
  by_cases hnil : tall level rest = []
  · refine Or.inl ⟨hnil, h.ahead?_eq_none hcut hanchor hlevel fun t ht => ?_⟩
    rw [tall_append, hnil, List.nil_append] at ht
    exact not_lt_of_mem_onward h.sorted (mem_tall.1 ht).1
  · obtain ⟨skipped, t, rest', rfl, hskipped, ht⟩ := exists_split_of_tall hnil
    have hmem : t ∈ below p ts := by simp [hdone]
    refine Or.inr ⟨skipped, t, rest', rfl, ht, ?_⟩
    exact h.ahead?_eq_some (by simpa using hcut) hanchor hlevel hskipped ht (lt_of_mem_below hmem)

/-- Along a level the walk passes every tower there that is in front of the position, with one move
for each, and stops at the last one. -/
theorem walk_eq (h : l.Layout ts) {done rest : List Tower} {level moves : Nat}
    (hdone : below p ts = done ++ rest) (hanchor : Anchored level done)
    (hlevel : level < l.ceiling) (hmoves : (below p ts).length ≤ moves + done.length) :
    ∃ done' rest' moves', below p ts = done' ++ rest' ∧ Anchored level done' ∧
      tall level rest' = [] ∧ moves + done.length ≤ moves' + done'.length ∧
      l.walk p level moves (lastSlot done) = .ok (lastSlot done', moves') := by
  induction moves generalizing done rest with
  | zero =>
    rcases h.ahead?_cases hdone hanchor hlevel with ⟨hnil, hahead⟩ | ⟨skipped, t, rest', rfl, -⟩
    · refine ⟨done, rest, 0, hdone, hanchor, hnil, Nat.le_refl _, ?_⟩
      simp only [walk, hahead, Checked.ok_bind]
      rfl
    · -- no move is left, so no tower in front of the position is
      simp only [hdone, List.length_append, List.length_cons] at hmoves
      omega
  | succ moves ih =>
    rcases h.ahead?_cases hdone hanchor hlevel with
      ⟨hnil, hahead⟩ | ⟨skipped, t, rest', rfl, ht, hahead⟩
    · refine ⟨done, rest, moves + 1, hdone, hanchor, hnil, Nat.le_refl _, ?_⟩
      simp only [walk, hahead, Checked.ok_bind]
      rfl
    · have hpassed : below p ts = (done ++ skipped ++ [t]) ++ rest' := by simpa using hdone
      have hlength : done.length + 1 ≤ (done ++ skipped ++ [t]).length := by
        simp only [List.length_append, List.length_singleton]
        omega
      obtain ⟨done', rest', moves', hdone', hanchor', htall, hle, hwalk⟩ :=
        ih hpassed (anchored_concat ht _) (by omega)
      refine ⟨done', rest', moves', hdone', hanchor', htall, by omega, ?_⟩
      rw [lastSlot_concat] at hwalk
      simp only [walk, hahead, Checked.ok_bind, hwalk]

/-! ### All levels -/

theorem descend_eq (h : l.Layout ts) {done rest : List Tower} {n moves : Nat}
    (hdone : below p ts = done ++ rest) (hanchor : ∀ level < n, Anchored level done)
    (hn : n ≤ l.ceiling) (hmoves : (below p ts).length ≤ moves + done.length)
    (found : List Link) :
    l.descend p n moves (lastSlot done) found =
      .ok ((List.range n).map (fun level => lastOn level (below p ts)) ++ found) := by
  induction n generalizing done rest moves found with
  | zero => rfl
  | succ n ih =>
    obtain ⟨done', rest', moves', hdone', hanchor', htall, hle, hwalk⟩ :=
      h.walk_eq hdone (hanchor n (by omega)) (by omega) hmoves
    have hlast : lastSlot done' = lastOn n (below p ts) := by
      rw [hdone', lastOn_append, lastOn_eq_none.2 htall, Option.none_or, hanchor'.lastOn_eq]
    have hlower : ∀ level < n, Anchored level done' :=
      fun level hlevel => hanchor'.mono (Nat.le_of_lt hlevel)
    simp only [descend, hwalk, Checked.ok_bind]
    rw [ih hdone' hlower (by omega) (by omega), hlast, List.range_succ, List.map_append,
      List.append_assoc]
    rfl

/-- The descent finds the last tower in front of the position on every level in use. -/
theorem locate_eq (h : l.Layout ts) (p : Position) :
    l.locate p = .ok ((List.range l.level).map fun level => lastOn level (below p ts)) := by
  have hlength := h.lengths_le_slots (below_append_onward p ts).symm
  have hdescend := h.descend_eq (List.nil_append _).symm (fun level _ => anchored_nil level)
    h.level_le_ceiling (Nat.le_of_add_right_le hlength) []
  rw [List.append_nil] at hdescend
  exact hdescend

theorem predecessor_locate (h : l.Layout ts) (p : Position) (level : Nat) :
    predecessor ((List.range l.level).map fun level => lastOn level (below p ts)) level =
      lastOn level (below p ts) := by
  by_cases hlevel : level < l.level
  · simp [predecessor, hlevel]
  · have hle : levels ts ≤ level := by
      rw [← h.level_eq]
      omega
    have htall := tall_of_levels_le hle
    rw [← below_append_onward p ts, tall_append, List.append_eq_nil_iff] at htall
    simp [predecessor, hlevel, lastOn_eq_none.2 htall.1]

/-! ### Searches -/

theorem seek_eq (h : l.Layout ts) (p : Position) :
    l.seek p = .ok (firstOn 0 (onward p ts)) := by
  simp only [seek, h.locate_eq, Checked.ok_bind, h.predecessor_locate,
    h.next_lastOn (below_append_onward p ts).symm h.ceiling_pos]

theorem range_eq (h : l.Layout ts) (least greatest : Score) (limit : Nat) :
    l.range least greatest limit = .ok (capped limit
      ((elementsIn (below ⟨least, []⟩ ts) (onward ⟨least, []⟩ ts) []).takeWhile
        (·.score ≤ greatest))) := by
  simp only [range, h.seek_eq, Checked.ok_bind,
    h.elementsFrom_eq (below_append_onward ⟨least, []⟩ ts).symm]
  rfl

theorem occupant?_eq_none (h : l.Layout ts) (habsent : ∀ t ∈ ts, t.position ≠ p) :
    l.occupant? p ((List.range l.level).map fun level => lastOn level (below p ts)) =
      .ok none := by
  have hsplit := (below_append_onward p ts).symm
  simp only [occupant?, h.predecessor_locate, h.next_lastOn hsplit h.ceiling_pos,
    Checked.ok_bind]
  cases honward : onward p ts with
  | nil => rfl
  | cons t after =>
    rw [honward] at hsplit
    have hne : t.position ≠ p := habsent t (by rw [hsplit]; simp)
    rw [firstOn_cons_of_lt (h.height_pos t (by rw [hsplit]; simp))]
    simp only [h.element_eq hsplit, Checked.ok_bind, position_element, hne, ↓reduceIte]
    rfl

theorem occupant?_eq_some (h : l.Layout ts) {before after : List Tower} {t : Tower}
    (hsplit : ts = before ++ t :: after) :
    l.occupant? t.position
        ((List.range l.level).map fun level => lastOn level (below t.position ts)) =
      .ok (some (t.slot, t.element before after)) := by
  have hcut := (below_append_onward t.position ts).symm
  simp only [occupant?, h.predecessor_locate, h.next_lastOn hcut h.ceiling_pos, Checked.ok_bind]
  rw [(below_onward_eq_of_split h.sorted hsplit).2,
    firstOn_cons_of_lt (h.height_pos t (by rw [hsplit]; simp))]
  simp only [h.element_eq hsplit, Checked.ok_bind, position_element, ↓reduceIte]
  rfl

theorem search_eq_none (h : l.Layout ts) (habsent : ∀ t ∈ ts, t.position ≠ p) :
    l.search p = .ok none := by
  simp only [search, h.locate_eq, Checked.ok_bind, h.occupant?_eq_none habsent]
  rfl

theorem search_eq_some (h : l.Layout ts) {before after : List Tower} {t : Tower}
    (hsplit : ts = before ++ t :: after) :
    l.search t.position = .ok (some (t.element before after)) := by
  simp only [search, h.locate_eq, Checked.ok_bind, h.occupant?_eq_some hsplit]
  rfl

end ExpiringStore.SkipList.Layout
