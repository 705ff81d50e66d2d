import Mathlib.Tactic.ByContra
import ExpiringStore.SkipList.Basic

/-!
# Towers

An element of a skip list with the slot it lives in and without its links is a tower. The links of
a list are determined by its towers in order: on every level a place leads to the first later tower
that is tall enough, and on level 0 back to the tower right before it. The rows of links, the
elements and the number of levels in use are written here as functions of the towers.
-/

namespace ExpiringStore

/-- An entry with its slot and its height. -/
structure Tower where
  slot : Slot
  key : Bytes
  value : Bytes
  score : Score
  height : Nat
  deriving DecidableEq, Repr

namespace Tower

def position (t : Tower) : Position := ⟨t.score, t.key⟩

/-! ### Towers on a level -/

def tall (level : Nat) (ts : List Tower) : List Tower := ts.filter fun t => level < t.height

def firstOn (level : Nat) (ts : List Tower) : Link := (tall level ts).head?.map slot

def lastOn (level : Nat) (ts : List Tower) : Link := (tall level ts).getLast?.map slot

def lastSlot (ts : List Tower) : Link := ts.getLast?.map slot

@[simp] theorem tall_nil (level : Nat) : tall level [] = [] := rfl

@[simp] theorem tall_append (level : Nat) (ts us : List Tower) :
    tall level (ts ++ us) = tall level ts ++ tall level us := List.filter_append ..

theorem tall_cons_of_lt {level : Nat} {t : Tower} (h : level < t.height) (ts : List Tower) :
    tall level (t :: ts) = t :: tall level ts := by
  simp [tall, h]

theorem tall_cons_of_le {level : Nat} {t : Tower} (h : t.height ≤ level) (ts : List Tower) :
    tall level (t :: ts) = tall level ts := by
  simp [tall, Nat.not_lt.2 h]

theorem mem_tall {level : Nat} {ts : List Tower} {t : Tower} :
    t ∈ tall level ts ↔ t ∈ ts ∧ level < t.height := by
  simp [tall]

theorem tall_eq_nil {level : Nat} {ts : List Tower} :
    tall level ts = [] ↔ ∀ t ∈ ts, t.height ≤ level := by
  simp [tall, List.filter_eq_nil_iff]

theorem tall_zero {ts : List Tower} (h : ∀ t ∈ ts, 1 ≤ t.height) : tall 0 ts = ts := by
  refine List.filter_eq_self.2 fun t ht => ?_
  have hpos := h t ht
  simp only [decide_eq_true_eq]
  omega

theorem tall_length_le (level : Nat) (ts : List Tower) : (tall level ts).length ≤ ts.length :=
  List.length_filter_le ..

@[simp] theorem firstOn_nil (level : Nat) : firstOn level [] = none := rfl

@[simp] theorem lastOn_nil (level : Nat) : lastOn level [] = none := rfl

theorem firstOn_append (level : Nat) (ts us : List Tower) :
    firstOn level (ts ++ us) = (firstOn level ts).or (firstOn level us) := by
  simp only [firstOn, tall_append, List.head?_append]
  cases (tall level ts).head? <;> rfl

theorem lastOn_append (level : Nat) (ts us : List Tower) :
    lastOn level (ts ++ us) = (lastOn level us).or (lastOn level ts) := by
  simp only [lastOn, tall_append, List.getLast?_append]
  cases (tall level us).getLast? <;> rfl

theorem firstOn_cons_of_lt {level : Nat} {t : Tower} (h : level < t.height) (ts : List Tower) :
    firstOn level (t :: ts) = some t.slot := by
  simp [firstOn, tall_cons_of_lt h]

theorem firstOn_cons_of_le {level : Nat} {t : Tower} (h : t.height ≤ level) (ts : List Tower) :
    firstOn level (t :: ts) = firstOn level ts := by
  simp [firstOn, tall_cons_of_le h]

theorem firstOn_eq_none {level : Nat} {ts : List Tower} :
    firstOn level ts = none ↔ tall level ts = [] := by
  simp [firstOn]

theorem lastOn_eq_none {level : Nat} {ts : List Tower} :
    lastOn level ts = none ↔ tall level ts = [] := by
  simp [lastOn]

theorem lastOn_zero {ts : List Tower} (h : ∀ t ∈ ts, 1 ≤ t.height) :
    lastOn 0 ts = lastSlot ts := by
  rw [lastOn, tall_zero h, lastSlot]

theorem exists_of_lastOn {level : Nat} {ts : List Tower} {slot : Slot}
    (h : lastOn level ts = some slot) : ∃ t ∈ ts, level < t.height ∧ t.slot = slot := by
  simp only [lastOn, Option.map_eq_some_iff] at h
  obtain ⟨t, ht, hslot⟩ := h
  obtain ⟨hmem, hlt⟩ := mem_tall.1 (List.mem_of_getLast? ht)
  exact ⟨t, hmem, hlt, hslot⟩

theorem exists_of_firstOn {level : Nat} {ts : List Tower} {slot : Slot}
    (h : firstOn level ts = some slot) : ∃ t ∈ ts, level < t.height ∧ t.slot = slot := by
  simp only [firstOn, Option.map_eq_some_iff] at h
  obtain ⟨t, ht, hslot⟩ := h
  obtain ⟨hmem, hlt⟩ := mem_tall.1 (List.mem_of_head? ht)
  exact ⟨t, hmem, hlt, hslot⟩

@[simp] theorem lastSlot_nil : lastSlot [] = none := rfl

@[simp] theorem lastSlot_concat (ts : List Tower) (t : Tower) :
    lastSlot (ts ++ [t]) = some t.slot := by
  simp [lastSlot]

theorem lastOn_ne_slot {level : Nat} {ts : List Tower} {t : Tower}
    (hne : ∀ u ∈ ts, u.slot ≠ t.slot) : lastOn level ts ≠ some t.slot := by
  intro hlast
  obtain ⟨u, hu, -, hslot⟩ := exists_of_lastOn hlast
  exact hne u hu hslot

theorem firstOn_ne_slot {level : Nat} {ts : List Tower} {t : Tower}
    (hne : ∀ u ∈ ts, u.slot ≠ t.slot) : firstOn level ts ≠ some t.slot := by
  intro hfirst
  obtain ⟨u, hu, -, hslot⟩ := exists_of_firstOn hfirst
  exact hne u hu hslot

theorem lastSlot_append_cons (ts us : List Tower) (t : Tower) :
    lastSlot (ts ++ t :: us) = lastSlot (t :: us) := by
  simp [lastSlot, List.getLast?_append, List.getLast?_cons]

theorem exists_split_of_tall {level : Nat} {ts : List Tower} (h : tall level ts ≠ []) :
    ∃ skipped t rest, ts = skipped ++ t :: rest ∧ tall level skipped = [] ∧ level < t.height := by
  induction ts with
  | nil => exact absurd rfl h
  | cons u us ih =>
    by_cases hu : level < u.height
    · exact ⟨[], u, us, rfl, rfl, hu⟩
    · have hle : u.height ≤ level := by omega
      rw [tall_cons_of_le hle] at h
      obtain ⟨skipped, t, rest, rfl, hnone, ht⟩ := ih h
      exact ⟨u :: skipped, t, rest, rfl, by rw [tall_cons_of_le hle, hnone], ht⟩

theorem exists_split_last_of_tall {level : Nat} {ts : List Tower} (h : tall level ts ≠ []) :
    ∃ init t rest, ts = init ++ t :: rest ∧ level < t.height ∧ tall level rest = [] := by
  induction ts with
  | nil => exact absurd rfl h
  | cons u us ih =>
    by_cases hus : tall level us = []
    · refine ⟨[], u, us, rfl, ?_, hus⟩
      by_contra hle
      rw [tall_cons_of_le (by omega)] at h
      exact h hus
    · obtain ⟨init, t, rest, rfl, ht, hrest⟩ := ih hus
      exact ⟨u :: init, t, rest, rfl, ht, hrest⟩

theorem lastOn_append_cons {level : Nat} {t : Tower} {rest : List Tower} (ht : level < t.height)
    (hrest : tall level rest = []) (init : List Tower) :
    lastOn level (init ++ t :: rest) = some t.slot := by
  simp [lastOn, tall_cons_of_lt ht, hrest]

/-- A level ends at a tower on it exactly if no later tower is on the level. -/
theorem lastOn_eq_slot_iff {level : Nat} {pre mid : List Tower} {t : Tower} (ht : level < t.height)
    (hne : ∀ u ∈ mid, u.slot ≠ t.slot) :
    lastOn level (pre ++ t :: mid) = some t.slot ↔ tall level mid = [] := by
  constructor
  · intro hlast
    by_contra hnil
    obtain ⟨init, u, rest, rfl, hu, hrest⟩ := exists_split_last_of_tall hnil
    have hsplit : pre ++ t :: (init ++ u :: rest) = (pre ++ t :: init) ++ u :: rest := by simp
    rw [hsplit, lastOn_append_cons hu hrest, Option.some.injEq] at hlast
    exact hne u (by simp) hlast
  · intro hmid
    exact lastOn_append_cons ht hmid pre

/-- A list with an entry put in between is cut at another entry in front of that entry, at it or
behind it. -/
theorem cut_cases {before after pre post : List Tower} {t u : Tower}
    (h : before ++ t :: after = pre ++ u :: post) :
    (∃ mid, before = pre ++ u :: mid ∧ post = mid ++ t :: after) ∨
      (before = pre ∧ t = u ∧ after = post) ∨
      ∃ mid, after = mid ++ u :: post ∧ pre = before ++ t :: mid := by
  rcases List.append_eq_append_iff.1 h with ⟨mid, rfl, hmid⟩ | ⟨mid, rfl, hmid⟩
  · cases mid with
    | nil =>
      simp only [List.nil_append, List.cons.injEq] at hmid
      exact Or.inr (Or.inl ⟨by simp, hmid.1, hmid.2⟩)
    | cons v mid =>
      simp only [List.cons_append, List.cons.injEq] at hmid
      obtain ⟨rfl, rfl⟩ := hmid
      exact Or.inr (Or.inr ⟨mid, rfl, rfl⟩)
  · cases mid with
    | nil =>
      simp only [List.nil_append, List.cons.injEq] at hmid
      exact Or.inr (Or.inl ⟨by simp, hmid.1.symm, hmid.2.symm⟩)
    | cons v mid =>
      simp only [List.cons_append, List.cons.injEq] at hmid
      obtain ⟨rfl, rfl⟩ := hmid
      exact Or.inl ⟨mid, rfl, rfl⟩

/-! ### Rows of links -/

/-- The links of a place of the given height that the towers `rest` follow. -/
def links (height : Nat) (rest : List Tower) : Array Link :=
  ((List.range height).map fun level => firstOn level rest).toArray

@[simp] theorem size_links (height : Nat) (rest : List Tower) :
    (links height rest).size = height := by
  simp [links]

theorem getElem?_links {height level : Nat} (h : level < height) (rest : List Tower) :
    (links height rest)[level]? = some (firstOn level rest) := by
  simp [links, h]

theorem linkAt_links {height level : Nat} (h : level < height) (rest : List Tower) :
    linkAt (links height rest) level = .ok (firstOn level rest) := by
  simp [linkAt, getElem?_links h]

theorem eq_links {row : Array Link} {height : Nat} {rest : List Tower} (hsize : row.size = height)
    (h : ∀ level < height, row[level]? = some (firstOn level rest)) : row = links height rest := by
  apply Array.ext_getElem?
  intro level
  by_cases hlt : level < height
  · rw [h level hlt, getElem?_links hlt]
  · have hge : height ≤ level := by omega
    rw [Array.getElem?_eq_none (by omega), Array.getElem?_eq_none (by simpa using hge)]

def element (t : Tower) (before after : List Tower) : Element :=
  { key := t.key, value := t.value, score := t.score
    next := links t.height after, prev := lastSlot before }

@[simp] theorem height_element (t : Tower) (before after : List Tower) :
    (t.element before after).height = t.height := size_links ..

@[simp] theorem position_element (t : Tower) (before after : List Tower) :
    (t.element before after).position = t.position := rfl

/-- The elements that the towers `ts` are, in order, between the towers `before` and `after`. -/
def elementsIn (before : List Tower) : List Tower → List Tower → List Element
  | [], _ => []
  | t :: ts, after => t.element before (ts ++ after) :: elementsIn (before ++ [t]) ts after

@[simp] theorem elementsIn_nil (before after : List Tower) : elementsIn before [] after = [] := rfl

theorem elementsIn_cons (before : List Tower) (t : Tower) (ts after : List Tower) :
    elementsIn before (t :: ts) after =
      t.element before (ts ++ after) :: elementsIn (before ++ [t]) ts after := rfl

theorem elementsIn_append (before ts us after : List Tower) :
    elementsIn before (ts ++ us) after =
      elementsIn before ts (us ++ after) ++ elementsIn (before ++ ts) us after := by
  induction ts generalizing before with
  | nil => simp
  | cons t ts ih =>
    rw [List.cons_append, elementsIn_cons, ih, elementsIn_cons]
    simp

theorem elementsIn_concat (before ts : List Tower) (t : Tower) (after : List Tower) :
    elementsIn before (ts ++ [t]) after =
      elementsIn before ts (t :: after) ++ [t.element (before ++ ts) after] := by
  rw [elementsIn_append, elementsIn_cons, elementsIn_nil]
  rfl

theorem map_elementsIn {α : Type} {f : Element → α} {g : Tower → α}
    (hfg : ∀ t before after, f (element t before after) = g t) (before ts after : List Tower) :
    (elementsIn before ts after).map f = ts.map g := by
  induction ts generalizing before with
  | nil => rfl
  | cons t ts ih => rw [elementsIn_cons, List.map_cons, hfg, ih, List.map_cons]

@[simp] theorem length_elementsIn (before ts after : List Tower) :
    (elementsIn before ts after).length = ts.length := by
  induction ts generalizing before with
  | nil => rfl
  | cons t ts ih => rw [elementsIn_cons, List.length_cons, ih, List.length_cons]

theorem exists_of_mem_elementsIn {before ts after : List Tower} {e : Element}
    (h : e ∈ elementsIn before ts after) : ∃ t ∈ ts, ∃ pre post, e = t.element pre post := by
  induction ts generalizing before with
  | nil => cases h
  | cons t ts ih =>
    rw [elementsIn_cons, List.mem_cons] at h
    rcases h with rfl | h
    · exact ⟨t, by simp, before, ts ++ after, rfl⟩
    · obtain ⟨u, hu, hrest⟩ := ih h
      exact ⟨u, List.mem_cons_of_mem t hu, hrest⟩

theorem pairwise_elementsIn {ts : List Tower}
    (h : ts.Pairwise fun t u => t.position < u.position) (before after : List Tower) :
    (elementsIn before ts after).Pairwise fun d e => d.position < e.position := by
  have hmap : (elementsIn before ts after).map Element.position = ts.map position :=
    map_elementsIn (fun _ _ _ => rfl) before ts after
  have hpositions : (ts.map position).Pairwise (· < ·) := List.pairwise_map.2 h
  rw [← hmap] at hpositions
  exact List.pairwise_map.1 hpositions

/-! ### The towers in front of a position and from it on -/

def below (p : Position) (ts : List Tower) : List Tower := ts.takeWhile fun t => t.position < p

def onward (p : Position) (ts : List Tower) : List Tower := ts.dropWhile fun t => t.position < p

theorem below_append_onward (p : Position) (ts : List Tower) :
    below p ts ++ onward p ts = ts := List.takeWhile_append_dropWhile

theorem lt_of_mem_below {p : Position} {ts : List Tower} {t : Tower} (h : t ∈ below p ts) :
    t.position < p := by
  have hall : (below p ts).all (fun t => t.position < p) = true := List.all_takeWhile
  exact of_decide_eq_true (List.all_eq_true.1 hall t h)

theorem not_lt_of_mem_onward {p : Position} {ts : List Tower}
    (hsorted : ts.Pairwise fun t u => t.position < u.position) {t : Tower}
    (h : t ∈ onward p ts) : ¬ t.position < p := by
  induction ts with
  | nil => cases h
  | cons u us ih =>
    rw [List.pairwise_cons] at hsorted
    by_cases hu : u.position < p
    · simp only [onward, List.dropWhile_cons, hu, decide_true, ↓reduceIte] at h
      exact ih hsorted.2 h
    · simp only [onward, List.dropWhile_cons, hu, decide_false, Bool.false_eq_true,
        ↓reduceIte, List.mem_cons] at h
      rcases h with rfl | hmem
      · exact hu
      · intro hlt
        exact hu (Position.lt_trans (hsorted.1 t hmem) hlt)

theorem below_onward_eq_of_split {ts before after : List Tower} {t : Tower}
    (hsorted : ts.Pairwise fun t u => t.position < u.position) (hsplit : ts = before ++ t :: after) :
    below t.position ts = before ∧ onward t.position ts = t :: after := by
  subst hsplit
  have hbefore : ∀ u ∈ before, decide (u.position < t.position) = true := by
    intro u hu
    exact decide_eq_true ((List.pairwise_append.1 hsorted).2.2 u hu t (by simp))
  have hself : ¬ t.position < t.position := Position.lt_irrefl _
  constructor
  · rw [below, List.takeWhile_append_of_pos hbefore]
    simp [hself]
  · rw [onward, List.dropWhile_append_of_pos hbefore]
    simp [hself]

/-- The elements from a position on are those that are not less than it. -/
theorem elementsIn_onward {ts : List Tower}
    (hsorted : ts.Pairwise fun t u => t.position < u.position) (p : Position) :
    elementsIn (below p ts) (onward p ts) [] =
      (elementsIn [] ts []).filter fun e => !decide (e.position < p) := by
  have hbelow : ∀ e ∈ elementsIn [] (below p ts) (onward p ts),
      ¬ (!decide (e.position < p)) = true := by
    intro e he
    obtain ⟨t, ht, pre, post, rfl⟩ := exists_of_mem_elementsIn he
    simp [lt_of_mem_below ht]
  have honward : ∀ e ∈ elementsIn (below p ts) (onward p ts) [],
      (!decide (e.position < p)) = true := by
    intro e he
    obtain ⟨t, ht, pre, post, rfl⟩ := exists_of_mem_elementsIn he
    simp [not_lt_of_mem_onward hsorted ht]
  have hsplit : elementsIn [] ts [] =
      elementsIn [] (below p ts) (onward p ts) ++ elementsIn (below p ts) (onward p ts) [] := by
    have happend := elementsIn_append [] (below p ts) (onward p ts) []
    rw [below_append_onward, List.append_nil, List.nil_append] at happend
    exact happend
  rw [hsplit, List.filter_append, List.filter_eq_nil_iff.2 hbelow, List.filter_eq_self.2 honward,
    List.nil_append]

/-! ### Changes of towers -/

def place (t : Tower) (ts : List Tower) : List Tower :=
  below t.position ts ++ t :: onward t.position ts

def revalue (p : Position) (value : Bytes) (t : Tower) : Tower :=
  if t.position = p then { t with value } else t

def overwrite (p : Position) (value : Bytes) (ts : List Tower) : List Tower :=
  ts.map (revalue p value)

def remove (p : Position) (ts : List Tower) : List Tower := ts.filter fun t => t.position ≠ p

theorem mem_place {t u : Tower} {ts : List Tower} : u ∈ place t ts ↔ u = t ∨ u ∈ ts := by
  have hmem : u ∈ ts ↔ u ∈ below t.position ts ∨ u ∈ onward t.position ts := by
    rw [← List.mem_append, below_append_onward]
  rw [hmem, place, List.mem_append, List.mem_cons, or_left_comm]

theorem length_place (t : Tower) (ts : List Tower) : (place t ts).length = ts.length + 1 := by
  have hlength := congrArg List.length (below_append_onward t.position ts)
  rw [List.length_append] at hlength
  rw [place, List.length_append, List.length_cons, ← Nat.add_assoc, hlength]

theorem mem_remove {p : Position} {t : Tower} {ts : List Tower} :
    t ∈ remove p ts ↔ t ∈ ts ∧ t.position ≠ p := by
  simp [remove]

theorem position_ne_of_split {ts before after : List Tower} {t : Tower}
    (hsorted : ts.Pairwise fun t u => t.position < u.position) (hsplit : ts = before ++ t :: after) :
    ∀ u ∈ before ++ after, u.position ≠ t.position := by
  subst hsplit
  obtain ⟨-, hrest, hcross⟩ := List.pairwise_append.1 hsorted
  intro u hu heq
  rcases List.mem_append.1 hu with hu | hu
  · have hlt := hcross u hu t (by simp)
    rw [heq] at hlt
    exact Position.lt_irrefl _ hlt
  · have hlt := (List.pairwise_cons.1 hrest).1 u hu
    rw [heq] at hlt
    exact Position.lt_irrefl _ hlt

theorem remove_eq_of_split {ts before after : List Tower} {t : Tower}
    (hsorted : ts.Pairwise fun t u => t.position < u.position) (hsplit : ts = before ++ t :: after) :
    remove t.position ts = before ++ after := by
  have hne := position_ne_of_split hsorted hsplit
  rw [hsplit, remove, List.filter_append, List.filter_cons_of_neg (by simp),
    List.filter_eq_self.2 fun u hu => by simpa using hne u (by simp [hu]),
    List.filter_eq_self.2 fun u hu => by simpa using hne u (by simp [hu])]

theorem remove_eq_self {p : Position} {ts : List Tower} (habsent : ∀ t ∈ ts, t.position ≠ p) :
    remove p ts = ts :=
  List.filter_eq_self.2 fun t ht => by simpa using habsent t ht

section Overwrite

variable (p : Position) (value : Bytes)

@[simp] theorem slot_revalue (t : Tower) : (revalue p value t).slot = t.slot := by
  unfold revalue
  split <;> rfl

@[simp] theorem height_revalue (t : Tower) : (revalue p value t).height = t.height := by
  unfold revalue
  split <;> rfl

@[simp] theorem position_revalue (t : Tower) : (revalue p value t).position = t.position := by
  unfold revalue
  split <;> rfl

theorem revalue_of_eq {p : Position} {t : Tower} (h : t.position = p) :
    revalue p value t = { t with value } := if_pos h

theorem revalue_of_ne {p : Position} {t : Tower} (h : t.position ≠ p) : revalue p value t = t :=
  if_neg h

theorem tall_overwrite (level : Nat) (ts : List Tower) :
    tall level (overwrite p value ts) = overwrite p value (tall level ts) := by
  simp [tall, overwrite, List.filter_map, Function.comp_def]

@[simp] theorem firstOn_overwrite (level : Nat) (ts : List Tower) :
    firstOn level (overwrite p value ts) = firstOn level ts := by
  rw [firstOn, tall_overwrite, overwrite, List.head?_map, Option.map_map, firstOn]
  congr 1
  funext t
  exact slot_revalue p value t

@[simp] theorem lastSlot_overwrite (ts : List Tower) :
    lastSlot (overwrite p value ts) = lastSlot ts := by
  rw [lastSlot, overwrite, List.getLast?_map, Option.map_map, lastSlot]
  congr 1
  funext t
  exact slot_revalue p value t

@[simp] theorem links_overwrite (height : Nat) (ts : List Tower) :
    links height (overwrite p value ts) = links height ts := by
  simp only [links, firstOn_overwrite]

end Overwrite

/-! ### Levels in use -/

/-- The number of levels that the towers use; there is always one. -/
def levels (ts : List Tower) : Nat := ts.foldr (fun t n => max t.height n) 1

@[simp] theorem levels_nil : levels [] = 1 := rfl

@[simp] theorem levels_cons (t : Tower) (ts : List Tower) :
    levels (t :: ts) = max t.height (levels ts) := rfl

theorem one_le_levels (ts : List Tower) : 1 ≤ levels ts := by
  induction ts with
  | nil => exact Nat.le_refl 1
  | cons t ts ih => exact Nat.le_trans ih (Nat.le_max_right ..)

theorem levels_le_iff {ts : List Tower} {n : Nat} :
    levels ts ≤ n ↔ 1 ≤ n ∧ ∀ t ∈ ts, t.height ≤ n := by
  induction ts with
  | nil => simp
  | cons t ts ih =>
    simp only [levels_cons, Nat.max_le, ih, List.forall_mem_cons]
    constructor
    · rintro ⟨ht, hpos, hts⟩
      exact ⟨hpos, ht, hts⟩
    · rintro ⟨hpos, ht, hts⟩
      exact ⟨ht, hpos, hts⟩

theorem height_le_levels {ts : List Tower} {t : Tower} (h : t ∈ ts) : t.height ≤ levels ts :=
  (levels_le_iff.1 (Nat.le_refl _)).2 t h

@[simp] theorem levels_overwrite (p : Position) (value : Bytes) (ts : List Tower) :
    levels (overwrite p value ts) = levels ts := by
  induction ts with
  | nil => rfl
  | cons t ts ih =>
    rw [overwrite, List.map_cons, levels_cons, ← overwrite, ih, height_revalue, levels_cons]

theorem levels_append (ts us : List Tower) : levels (ts ++ us) = max (levels ts) (levels us) := by
  induction ts with
  | nil => simpa using (Nat.max_eq_right (one_le_levels us)).symm
  | cons t ts ih => rw [List.cons_append, levels_cons, ih, levels_cons, Nat.max_assoc]

theorem tall_of_levels_le {ts : List Tower} {level : Nat} (h : levels ts ≤ level) :
    tall level ts = [] :=
  tall_eq_nil.2 (levels_le_iff.1 h).2

theorem tall_levels_ne_nil {ts : List Tower} (h : 1 < levels ts) :
    tall (levels ts - 1) ts ≠ [] := by
  intro hnil
  have hle : levels ts ≤ levels ts - 1 := levels_le_iff.2 ⟨by omega, tall_eq_nil.1 hnil⟩
  omega

end Tower

end ExpiringStore
