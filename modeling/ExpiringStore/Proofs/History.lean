import ExpiringStore.Proofs.Removal

/-!
# Histories of changes

What one change does to a laid out list, and from it what a whole history does: from the empty list
on, every insertion, removal and clearing succeeds and leaves a layout.
-/

namespace ExpiringStore.SkipList

open Tower

variable {γ : Type} {l : SkipList γ} {ts : List Tower}

def ofHistory [WordSource γ] (ceiling : Nat) (source : γ) (edits : List Edit) :
    Checked (SkipList γ) := do
  (← create ceiling source).applyAll edits

def towersPut [WordSource γ] (l : SkipList γ) (ts : List Tower) (p : Position) (value : Bytes) :
    List Tower :=
  if p ∈ ts.map position then overwrite p value ts else place (l.drawnTower p value) ts

def towersAfter [WordSource γ] (l : SkipList γ) (ts : List Tower) : Edit → List Tower
  | .insert key value score => l.towersPut ts ⟨score, key⟩ value
  | .delete key score => remove ⟨score, key⟩ ts
  | .clear => []

namespace Layout

theorem absent_of_not_mem {p : Position} (h : p ∉ ts.map position) : ∀ t ∈ ts, t.position ≠ p :=
  fun t ht heq => h (List.mem_map.2 ⟨t, ht, heq⟩)

theorem exists_split_of_mem {p : Position} (h : p ∈ ts.map position) :
    ∃ before t after, ts = before ++ t :: after ∧ t.position = p := by
  obtain ⟨t, ht, hposition⟩ := List.mem_map.1 h
  obtain ⟨before, after, hsplit⟩ := List.append_of_mem ht
  exact ⟨before, t, after, hsplit, hposition⟩

theorem clear (h : l.Layout ts) : l.clear.Layout [] := by
  have hceiling : l.clear.ceiling = l.ceiling := by simp [SkipList.clear, SkipList.ceiling]
  constructor
  case ceiling_pos => rw [hceiling]; exact h.ceiling_pos
  case ceiling_le => rw [hceiling]; exact h.ceiling_le
  case front_eq =>
    rw [hceiling]
    refine eq_links hceiling fun level hlevel => ?_
    simp [SkipList.clear, hlevel]
  case tidy => exact Arena.tidy_empty
  all_goals simp [SkipList.clear]

/-! ### One change -/

theorem insert_eq [WordSource γ] (h : l.Layout ts) (key value : Bytes) (score : Score) :
    ∃ e l', l.insert key value score = .ok (e, l') ∧ e.key = key ∧ e.value = value ∧
      e.score = score ∧ l'.Layout (l.towersPut ts ⟨score, key⟩ value) ∧ l'.ceiling = l.ceiling := by
  by_cases htaken : (⟨score, key⟩ : Position) ∈ ts.map position
  · obtain ⟨before, t, after, hsplit, hposition⟩ := exists_split_of_mem htaken
    obtain ⟨rfl, rfl⟩ := Position.mk.inj hposition
    obtain ⟨hinsert, hlayout⟩ := h.insert_taken hsplit value
    refine ⟨_, _, hinsert, rfl, rfl, rfl, ?_, rfl⟩
    rw [towersPut, if_pos htaken]
    exact hlayout
  · obtain ⟨l', hinsert, hlayout, -, hceiling, -⟩ :=
      h.insert_new (absent_of_not_mem htaken) value
    refine ⟨_, l', hinsert, rfl, rfl, rfl, ?_, hceiling⟩
    rw [towersPut, if_neg htaken]
    exact hlayout

theorem delete_eq (h : l.Layout ts) (key : Bytes) (score : Score) :
    ∃ e? l', l.delete key score = .ok (e?, l') ∧
      (e?.isSome ↔ (⟨score, key⟩ : Position) ∈ ts.map position) ∧
      (∀ e, e? = some e → ∃ t ∈ ts, ∃ before after, t.position = ⟨score, key⟩ ∧
        e = t.element before after) ∧
      l'.Layout (remove ⟨score, key⟩ ts) ∧ l'.ceiling = l.ceiling := by
  by_cases htaken : (⟨score, key⟩ : Position) ∈ ts.map position
  · obtain ⟨before, t, after, hsplit, hposition⟩ := exists_split_of_mem htaken
    have hremove := remove_eq_of_split h.sorted hsplit
    rw [hposition] at hremove
    obtain ⟨rfl, rfl⟩ := Position.mk.inj hposition
    refine ⟨_, _, h.delete_present hsplit, ?_, ?_, ?_, size_rewire ..⟩
    · simp only [Option.isSome_some, true_iff]
      exact htaken
    · rintro e ⟨⟩
      exact ⟨t, by simp [hsplit], before, after, rfl, rfl⟩
    · rw [hremove]
      exact h.unlinked hsplit
  · have habsent := absent_of_not_mem htaken
    refine ⟨none, l, h.delete_absent habsent, ?_, ?_, ?_, rfl⟩
    · simpa using htaken
    · rintro e ⟨⟩
    · rw [remove_eq_self habsent]
      exact h

section Delete

variable {l' : SkipList γ} {key : Bytes} {score : Score} {e? : Option Element}

/-- A removal changes nothing or takes one tower out. -/
theorem delete_cases (h : l.Layout ts) (hdelete : l.delete key score = .ok (e?, l')) :
    l' = l ∨ ∃ t before after, l' = l.unlinked t before after := by
  by_cases htaken : (⟨score, key⟩ : Position) ∈ ts.map position
  · obtain ⟨before, t, after, hsplit, hposition⟩ := exists_split_of_mem htaken
    obtain ⟨rfl, rfl⟩ := Position.mk.inj hposition
    rw [h.delete_present hsplit] at hdelete
    cases hdelete
    exact Or.inr ⟨t, before, after, rfl⟩
  · rw [h.delete_absent (absent_of_not_mem htaken)] at hdelete
    cases hdelete
    exact Or.inl rfl

theorem slots_delete (h : l.Layout ts) (hdelete : l.delete key score = .ok (e?, l')) :
    l'.slots = l.slots := by
  obtain rfl | ⟨t, before, after, rfl⟩ := h.delete_cases hdelete
  · rfl
  · exact slots_unlinked l t before after

theorem source_delete (h : l.Layout ts) (hdelete : l.delete key score = .ok (e?, l')) :
    l'.source = l.source := by
  obtain rfl | ⟨t, before, after, rfl⟩ := h.delete_cases hdelete
  · rfl
  · exact source_unlinked l t before after

end Delete

theorem apply [WordSource γ] (h : l.Layout ts) (edit : Edit) :
    ∃ l', l.apply edit = .ok l' ∧ l'.Layout (l.towersAfter ts edit) ∧ l'.ceiling = l.ceiling := by
  cases edit with
  | insert key value score =>
    obtain ⟨e, l', hinsert, -, -, -, hlayout, hceiling⟩ := h.insert_eq key value score
    refine ⟨l', ?_, hlayout, hceiling⟩
    simp only [SkipList.apply, hinsert, Checked.ok_bind]
    rfl
  | delete key score =>
    obtain ⟨e?, l', hdelete, -, -, hlayout, hceiling⟩ := h.delete_eq key score
    refine ⟨l', ?_, hlayout, hceiling⟩
    simp only [SkipList.apply, hdelete, Checked.ok_bind]
    rfl
  | clear =>
    refine ⟨l.clear, rfl, h.clear, ?_⟩
    simp [SkipList.clear, SkipList.ceiling]

/-! ### Whole histories -/

/-- What every change keeps of a laid out list and of a value that goes along with it, a history
keeps as well. -/
theorem applyAll [WordSource γ] {α : Type} (good : SkipList γ → List Tower → α → Prop)
    (follow : α → Edit → α)
    (hstep : ∀ {l l' : SkipList γ} {ts : List Tower} {a : α} (edit : Edit), l.Layout ts →
      good l ts a → l.apply edit = .ok l' → l'.Layout (l.towersAfter ts edit) →
      good l' (l.towersAfter ts edit) (follow a edit))
    (h : l.Layout ts) {a : α} (hgood : good l ts a) (edits : List Edit) :
    ∃ l' ts', l.applyAll edits = .ok l' ∧ l'.Layout ts' ∧ l'.ceiling = l.ceiling ∧
      good l' ts' (edits.foldl follow a) := by
  induction edits generalizing l ts a with
  | nil => exact ⟨l, ts, rfl, h, rfl, hgood⟩
  | cons edit edits ih =>
    obtain ⟨mid, happly, hlayout, hceiling⟩ := h.apply edit
    obtain ⟨l', ts', hall, hlayout', hceiling', hgood'⟩ :=
      ih hlayout (hstep edit h hgood happly hlayout)
    refine ⟨l', ts', ?_, hlayout', hceiling'.trans hceiling, hgood'⟩
    rw [SkipList.applyAll, List.foldlM_cons, happly, Checked.ok_bind]
    exact hall

end Layout

/-- Every history can be run, and it leaves a layout, together with whatever holds of the empty list
and is kept by every change. -/
theorem ofHistory_keeps [WordSource γ] {α : Type} (good : SkipList γ → List Tower → α → Prop)
    (follow : α → Edit → α)
    (hstep : ∀ {l l' : SkipList γ} {ts : List Tower} {a : α} (edit : Edit), l.Layout ts →
      good l ts a → l.apply edit = .ok l' → l'.Layout (l.towersAfter ts edit) →
      good l' (l.towersAfter ts edit) (follow a edit))
    {ceiling : Nat} (hpos : 1 ≤ ceiling) (hle : ceiling ≤ maxCeiling) (source : γ) {a : α}
    (hempty : ∀ {l : SkipList γ}, l.Layout [] → l.source = source → l.arena = .empty → good l [] a)
    (edits : List Edit) :
    ∃ l ts, ofHistory ceiling source edits = .ok l ∧ l.Layout ts ∧ l.ceiling = ceiling ∧
      good l ts (edits.foldl follow a) := by
  obtain ⟨empty, hcreate, hlayout, hceiling, hsource, harena⟩ := layout_create hpos hle source
  obtain ⟨l, ts, hall, hlayout', hceiling', hgood⟩ :=
    hlayout.applyAll good follow hstep (hempty hlayout hsource harena) edits
  refine ⟨l, ts, ?_, hlayout', hceiling'.trans hceiling, hgood⟩
  rw [ofHistory, hcreate, Checked.ok_bind, hall]

theorem layout_ofHistory [WordSource γ] {ceiling : Nat} (hpos : 1 ≤ ceiling)
    (hle : ceiling ≤ maxCeiling) (source : γ) (edits : List Edit) :
    ∃ l ts, ofHistory ceiling source edits = .ok l ∧ l.Layout ts ∧ l.ceiling = ceiling := by
  obtain ⟨l, ts, hall, hlayout, hceiling, -⟩ :=
    ofHistory_keeps (fun _ _ (_ : Unit) => True) (fun a _ => a) (fun _ _ _ _ _ => trivial) hpos hle
      source (a := ()) (fun _ _ _ => trivial) edits
  exact ⟨l, ts, hall, hlayout, hceiling⟩

end ExpiringStore.SkipList
