import ExpiringStore.Proofs.Cursor
import ExpiringStore.Proofs.Range

/-!
# A skip list is a sorted map

The bindings of a skip list are the positions and values of its elements. A history of changes leaves
the bindings that it leaves in a sorted map, and every operation answers what the map determines. No
answer depends on the ceiling or on the words drawn.
-/

namespace ExpiringStore

open Tower

def Element.binding (e : Element) : Position × Bytes := (e.position, e.value)

def Tower.binding (t : Tower) : Position × Bytes := (t.position, t.value)

def SortedMap.after (m : SortedMap) : SkipList.Edit → SortedMap
  | .insert key value score => m.insert ⟨score, key⟩ value
  | .delete key score => m.erase ⟨score, key⟩
  | .clear => ∅

/-- The bindings with a score in an interval, in order. -/
def SortedMap.between (m : SortedMap) (least greatest : Score) : List (Position × Bytes) :=
  m.toList.filter fun b => decide (least ≤ b.1.score) && decide (b.1.score ≤ greatest)

namespace Tower

theorem map_binding_elementsIn (before ts after : List Tower) :
    (elementsIn before ts after).map Element.binding = ts.map binding :=
  map_elementsIn (fun _ _ _ => rfl) before ts after

theorem pairwise_binding {ts : List Tower}
    (h : ts.Pairwise fun t u => t.position < u.position) :
    (ts.map binding).Pairwise fun a b => a.1 < b.1 := List.pairwise_map.2 h

theorem map_binding_onward {ts : List Tower}
    (h : ts.Pairwise fun t u => t.position < u.position) (p : Position) :
    (onward p ts).map binding = (ts.map binding).filter fun b => !decide (b.1 < p) := by
  rw [onward, dropWhile_eq_filter, List.filter_map]
  · rfl
  · refine h.imp fun {t u} htu hu => ?_
    simp only [decide_eq_true_eq] at hu ⊢
    exact Position.lt_trans htu hu

theorem mem_map_binding {ts : List Tower} {p : Position} {value : Bytes} :
    (p, value) ∈ ts.map binding ↔ ∃ t ∈ ts, t.position = p ∧ t.value = value := by
  simp [binding]

end Tower

namespace SkipList

variable {γ : Type} {l l' : SkipList γ} {ts : List Tower} {m : SortedMap}

theorem capped_map {α β : Type} (f : α → β) (limit : Nat) (xs : List α) :
    capped limit (xs.map f) = (capped limit xs).map f := by
  unfold capped
  split
  · rfl
  · exact List.map_take.symm

/-! ### What a change does to the bindings -/

namespace Layout

theorem toList_eq (h : l.Layout ts)
    (hget : ∀ p value, m[p]? = some value ↔ ∃ t ∈ ts, t.position = p ∧ t.value = value) :
    m.toList = ts.map binding :=
  SortedMap.toList_eq (pairwise_binding h.sorted) fun p value => by rw [hget, mem_map_binding]

theorem getElem?_iff (hm : m.toList = ts.map binding) (p : Position) (value : Bytes) :
    m[p]? = some value ↔ ∃ t ∈ ts, t.position = p ∧ t.value = value := by
  rw [← Std.ExtTreeMap.mem_toList_iff_getElem?_eq_some, hm, mem_map_binding]

theorem bindings_place (hm : m.toList = ts.map binding) {t : Tower}
    (habsent : ∀ u ∈ ts, u.position ≠ t.position) (h : l.Layout (place t ts)) :
    (m.insert t.position t.value).toList = (place t ts).map binding := by
  refine h.toList_eq fun q value => ?_
  rw [Std.ExtTreeMap.getElem?_insert]
  simp only [Std.LawfulEqOrd.compare_eq_iff_eq, mem_place]
  by_cases hq : t.position = q
  · subst hq
    rw [if_pos rfl, Option.some.injEq]
    constructor
    · intro hvalue
      exact ⟨t, Or.inl rfl, rfl, hvalue⟩
    · rintro ⟨u, rfl | hu, hposition, hvalue⟩
      · exact hvalue
      · exact absurd hposition (habsent u hu)
  · rw [if_neg hq, getElem?_iff hm]
    constructor
    · rintro ⟨u, hu, hrest⟩
      exact ⟨u, Or.inr hu, hrest⟩
    · rintro ⟨u, rfl | hu, hposition, hvalue⟩
      · exact absurd hposition hq
      · exact ⟨u, hu, hposition, hvalue⟩

theorem bindings_overwrite (hm : m.toList = ts.map binding) {p : Position} {value : Bytes}
    (htaken : p ∈ ts.map position) (h : l.Layout (overwrite p value ts)) :
    (m.insert p value).toList = (overwrite p value ts).map binding := by
  refine h.toList_eq fun q other => ?_
  rw [Std.ExtTreeMap.getElem?_insert]
  simp only [Std.LawfulEqOrd.compare_eq_iff_eq, overwrite, List.mem_map, exists_exists_and_eq_and,
    position_revalue]
  by_cases hq : p = q
  · subst hq
    rw [if_pos rfl, Option.some.injEq]
    constructor
    · intro hvalue
      obtain ⟨t, ht, hposition⟩ := List.mem_map.1 htaken
      exact ⟨t, ht, hposition, by rw [revalue_of_eq value hposition]; exact hvalue⟩
    · rintro ⟨t, -, hposition, hvalue⟩
      rwa [revalue_of_eq value hposition] at hvalue
  · rw [if_neg hq, getElem?_iff hm]
    refine exists_congr fun t => and_congr_right fun _ => and_congr_right fun hposition => ?_
    rw [revalue_of_ne]
    exact fun heq => hq (heq.symm.trans hposition)

theorem bindings_remove (hm : m.toList = ts.map binding) {p : Position}
    (h : l.Layout (remove p ts)) : (m.erase p).toList = (remove p ts).map binding := by
  refine h.toList_eq fun q value => ?_
  rw [Std.ExtTreeMap.getElem?_erase]
  simp only [Std.LawfulEqOrd.compare_eq_iff_eq, mem_remove]
  by_cases hq : p = q
  · subst hq
    rw [if_pos rfl]
    constructor
    · intro hnone
      cases hnone
    · rintro ⟨t, ⟨-, hne⟩, hposition, -⟩
      exact absurd hposition hne
  · rw [if_neg hq, getElem?_iff hm]
    constructor
    · rintro ⟨t, ht, hposition, hvalue⟩
      exact ⟨t, ⟨ht, fun heq => hq (heq.symm.trans hposition)⟩, hposition, hvalue⟩
    · rintro ⟨t, ⟨ht, -⟩, hrest⟩
      exact ⟨t, ht, hrest⟩

theorem bindings_after [WordSource γ] (hm : m.toList = ts.map binding) (edit : Edit)
    (h : l'.Layout (l.towersAfter ts edit)) :
    (m.after edit).toList = (l.towersAfter ts edit).map binding := by
  cases edit with
  | insert key value score =>
    simp only [towersAfter, towersPut, SortedMap.after] at h ⊢
    split at h
    next htaken =>
      rw [if_pos htaken]
      exact bindings_overwrite hm htaken h
    next hfree =>
      rw [if_neg hfree]
      exact bindings_place hm (t := l.drawnTower ⟨score, key⟩ value) (absent_of_not_mem hfree) h
  | delete key score => exact bindings_remove hm h
  | clear => rfl

theorem entryAt?_of_mem (hm : m.toList = ts.map binding) {t : Tower} (ht : t ∈ ts) :
    m.entryAt? t.position = some t.binding := by
  have hmem : t.binding ∈ m.toList := hm ▸ List.mem_map_of_mem ht
  exact SortedMap.entryAt?_of_mem hmem

theorem mem_iff (hm : m.toList = ts.map binding) (p : Position) :
    p ∈ m ↔ p ∈ ts.map position := by
  rw [Std.ExtTreeMap.mem_iff_isSome_getElem?, Option.isSome_iff_exists, List.mem_map]
  constructor
  · intro ⟨value, hvalue⟩
    obtain ⟨t, ht, hposition, -⟩ := (getElem?_iff hm p value).1 hvalue
    exact ⟨t, ht, hposition⟩
  · intro ⟨t, ht, hposition⟩
    exact ⟨t.value, (getElem?_iff hm p t.value).2 ⟨t, ht, hposition, rfl⟩⟩

theorem entryAt?_of_not_mem (hm : m.toList = ts.map binding) {p : Position}
    (hfree : p ∉ ts.map position) : m.entryAt? p = none := by
  rw [← mem_iff hm] at hfree
  rw [SortedMap.entryAt?, Std.ExtTreeMap.getElem?_eq_none hfree]
  rfl

end Layout

/-! ### What the operations answer -/

/-- Every operation on `l` answers what the map `m` determines. -/
structure Mirrors [WordSource γ] (l : SkipList γ) (m : SortedMap) : Prop where
  search : ∀ p, (l.search p).map (Option.map Element.binding) = .ok (m.entryAt? p)
  first : l.first.map (Option.map Element.binding) = .ok (m.minKey?.bind m.entryAt?)
  last : l.last.map (Option.map Element.binding) = .ok (m.maxKey?.bind m.entryAt?)
  length : l.length = m.size
  isEmpty : l.isEmpty = m.isEmpty
  elements : l.elements.map (List.map Element.binding) = .ok m.toList
  visit : ∀ side, (l.visit side).map (List.map Element.binding) = .ok (side.ordered m.toList)
  takes : ∃ c, l.cursor = .ok c ∧ ∀ requests,
    (c.takes l requests).map (fun r => r.1.map (Option.map Element.binding)) =
      .ok (Cursor.Take.answers m.toList requests)
  takesFrom : ∀ p, ∃ c, l.cursorFrom p = .ok c ∧ ∀ requests,
    (c.takes l requests).map (fun r => r.1.map (Option.map Element.binding)) =
      .ok (Cursor.Take.answers (m.toList.filter fun b => !decide (b.1 < p)) requests)
  range : ∀ least greatest limit,
    (l.range least greatest limit).map (List.map Element.binding) =
      .ok (if limit = 0 then m.between least greatest
        else (m.between least greatest).take limit)
  insert : ∀ key value score, ∃ e l', l.insert key value score = .ok (e, l') ∧
    e.key = key ∧ e.value = value ∧ e.score = score ∧
    l'.length = if (⟨score, key⟩ : Position) ∈ m then l.length else l.length + 1
  delete : ∀ key score, ∃ e? l', l.delete key score = .ok (e?, l') ∧
    e?.map Element.binding = m.entryAt? ⟨score, key⟩

namespace Layout

theorem search_mirrors (h : l.Layout ts) (hm : m.toList = ts.map binding) (p : Position) :
    (l.search p).map (Option.map Element.binding) = .ok (m.entryAt? p) := by
  by_cases htaken : p ∈ ts.map position
  · obtain ⟨before, t, after, hsplit, rfl⟩ := exists_split_of_mem htaken
    rw [h.search_eq_some hsplit, entryAt?_of_mem hm (by simp [hsplit])]
    rfl
  · rw [h.search_eq_none (absent_of_not_mem htaken), entryAt?_of_not_mem hm htaken]
    rfl

theorem map_elements (hm : m.toList = ts.map binding) :
    (elementsIn [] ts []).map Element.binding = m.toList := by
  rw [map_binding_elementsIn, hm]

theorem takes_mirrors (h : l.Layout ts) {c : Cursor} {es : List Element}
    (hspans : c.Spans ts es) (requests : List Cursor.Take) :
    (c.takes l requests).map (fun r => r.1.map (Option.map Element.binding)) =
      .ok (Cursor.Take.answers (es.map Element.binding) requests) := by
  obtain ⟨c', htakes, -⟩ := h.takes_eq hspans requests
  rw [htakes, Cursor.Take.answers_map]
  rfl

theorem range_mirrors (h : l.Layout ts) (hm : m.toList = ts.map binding) (least greatest : Score)
    (limit : Nat) :
    (l.range least greatest limit).map (List.map Element.binding) =
      .ok (if limit = 0 then m.between least greatest
        else (m.between least greatest).take limit) := by
  have hinside : (inside least greatest (elementsIn [] ts [])).map Element.binding =
      m.between least greatest := by
    rw [SortedMap.between, ← map_elements hm, List.filter_map]
    rfl
  rw [h.range_eq_inside, ← hinside]
  exact congrArg Except.ok (capped_map Element.binding limit _).symm

theorem insert_mirrors [WordSource γ] (h : l.Layout ts) (hm : m.toList = ts.map binding)
    (key value : Bytes) (score : Score) :
    ∃ e l', l.insert key value score = .ok (e, l') ∧
      e.key = key ∧ e.value = value ∧ e.score = score ∧
      l'.length = if (⟨score, key⟩ : Position) ∈ m then l.length else l.length + 1 := by
  obtain ⟨e, l', hinsert, hkey, hvalue, hscore, hlayout, -⟩ := h.insert_eq key value score
  refine ⟨e, l', hinsert, hkey, hvalue, hscore, ?_⟩
  rw [hlayout.length_eq, h.length_eq, towersPut]
  simp only [mem_iff hm]
  split
  · rw [overwrite, List.length_map]
  · rw [length_place]

theorem delete_mirrors (h : l.Layout ts) (hm : m.toList = ts.map binding) (key : Bytes)
    (score : Score) :
    ∃ e? l', l.delete key score = .ok (e?, l') ∧
      e?.map Element.binding = m.entryAt? ⟨score, key⟩ := by
  obtain ⟨e?, l', hdelete, hsome, helement, -, -⟩ := h.delete_eq key score
  refine ⟨e?, l', hdelete, ?_⟩
  cases e? with
  | none =>
    have hfree : (⟨score, key⟩ : Position) ∉ ts.map position := by simpa using hsome
    rw [entryAt?_of_not_mem hm hfree]
    rfl
  | some e =>
    obtain ⟨t, ht, before, after, hposition, rfl⟩ := helement e rfl
    rw [← hposition, entryAt?_of_mem hm ht]
    rfl

theorem mirrors [WordSource γ] (h : l.Layout ts) (hm : m.toList = ts.map binding) :
    l.Mirrors m := by
  have hlength : m.size = ts.length := by
    rw [← Std.ExtTreeMap.length_toList, hm, List.length_map]
  constructor
  case search => exact h.search_mirrors hm
  case first =>
    rw [h.first_eq, SortedMap.minKey?_bind_entryAt?, ← map_elements hm, List.head?_map]
    rfl
  case last =>
    rw [h.last_eq, SortedMap.maxKey?_bind_entryAt?, ← map_elements hm, List.getLast?_map]
    rfl
  case length => rw [h.length_eq, hlength]
  case isEmpty => rw [h.isEmpty_eq, ← Std.ExtTreeMap.isEmpty_toList, hm, List.isEmpty_map]
  case elements => rw [h.elements_eq, ← map_elements hm]; rfl
  case visit =>
    intro side
    rw [h.visit_eq, ← map_elements hm, side.ordered_map]
    rfl
  case takes =>
    obtain ⟨c, hcursor, hspans⟩ := h.cursor_eq
    refine ⟨c, hcursor, fun requests => ?_⟩
    rw [h.takes_mirrors hspans, map_elements hm]
  case takesFrom =>
    intro p
    obtain ⟨c, hcursor, hspans⟩ := h.cursorFrom_eq p
    refine ⟨c, hcursor, fun requests => ?_⟩
    rw [h.takes_mirrors hspans, map_binding_elementsIn, map_binding_onward h.sorted, hm]
  case range => exact h.range_mirrors hm
  case insert => exact h.insert_mirrors hm
  case delete => exact h.delete_mirrors hm

end Layout

/-- Every history of changes leaves a list that mirrors the map which the same changes leave. The map
knows neither the ceiling nor the words drawn. -/
theorem mirrors_ofHistory [WordSource γ] {ceiling : Nat} (hpos : 1 ≤ ceiling)
    (hle : ceiling ≤ maxCeiling) (source : γ) (edits : List Edit) :
    ∃ l, ofHistory ceiling source edits = .ok l ∧ l.Mirrors (edits.foldl SortedMap.after ∅) := by
  obtain ⟨l, ts, hall, hlayout, -, hm⟩ :=
    ofHistory_keeps (fun _ ts m => m.toList = ts.map binding) SortedMap.after
      (fun edit _ hm _ hlayout => Layout.bindings_after hm edit hlayout) hpos hle source
      (a := ∅) (fun _ _ _ => Std.ExtTreeMap.toList_eq_nil_iff.2 rfl) edits
  exact ⟨l, hall, hlayout.mirrors hm⟩

theorem mirrors_insert_twice :
    1 ≤ 3 ∧ 3 ≤ maxCeiling ∧
      ∃ l, ofHistory 3 (Xoshiro.ofSeed 1)
          [.insert [97] [1] 5, .insert [97] [2] 5, .insert [] [3] 5, .delete [98] 5] = .ok l ∧
        l.Mirrors ((((∅ : SortedMap).insert ⟨5, [97]⟩ [1]).insert ⟨5, [97]⟩ [2]).insert ⟨5, []⟩ [3]
          |>.erase ⟨5, [98]⟩) :=
  ⟨by decide, by decide, mirrors_ofHistory (by decide) (by decide) (Xoshiro.ofSeed 1) _⟩

end SkipList

end ExpiringStore
