import ExpiringStore.Proofs.History
import ExpiringStore.Proofs.SortedMap
import ExpiringStore.Random.Xoshiro
import ExpiringStore.SkipList.Text

/-!
# Levels

How many levels a skip list uses, how many elements are on each of them and what a drawing shows all
follow from the heights of the elements that are there. The history that led to these elements, with
its taller elements that are gone, makes no difference.

## Main definitions

* `Element.outline`: what the levels tell of an element.
* `SkipList.Leveled`: the levels of a list, said of its elements.
-/

namespace ExpiringStore

namespace Element

/-- The position and the height of an element. -/
def outline (e : Element) : Position × Nat := (e.position, e.height)

/-- The scores of the elements that are on a level, in order. -/
def scoresOn (level : Nat) (es : List Element) : List Score :=
  (es.filter fun e => level < e.height).map (·.score)

theorem map_height_congr {es es' : List Element} (h : es.map outline = es'.map outline) :
    es.map height = es'.map height := by
  have hheights := congrArg (List.map Prod.snd) h
  rw [List.map_map, List.map_map] at hheights
  exact hheights

theorem countP_height_eq (level : Nat) (es : List Element) :
    es.countP (fun e => level < e.height) = (es.map height).countP fun n => level < n := by
  rw [List.countP_map]
  rfl

theorem countP_height_le {level level' : Nat} (hle : level ≤ level') (es : List Element) :
    es.countP (fun e => level' < e.height) ≤ es.countP fun e => level < e.height := by
  refine List.countP_mono_left fun e _ he => ?_
  simp only [decide_eq_true_eq] at he ⊢
  exact Nat.lt_of_le_of_lt hle he

theorem scoresOn_eq (level : Nat) (es : List Element) :
    scoresOn level es = ((es.map outline).filter fun o => level < o.2).map (·.1.score) := by
  rw [List.filter_map, List.map_map]
  rfl

/-- Elements in order are outlined in order, so which outlines there are tells what the list of them
is. -/
theorem map_outline_eq {es es' : List Element}
    (hsorted : es.Pairwise fun d e => d.position < e.position)
    (hsorted' : es'.Pairwise fun d e => d.position < e.position)
    (h : ∀ o, o ∈ es.map outline ↔ o ∈ es'.map outline) : es.map outline = es'.map outline := by
  have hirrefl : Std.Irrefl fun a b : Position × Nat => a.1 < b.1 :=
    ⟨fun a => Position.lt_irrefl a.1⟩
  have hantisymm : Std.Antisymm fun a b : Position × Nat => a.1 < b.1 :=
    ⟨fun _ _ hlt hgt => absurd hgt (Position.lt_asymm hlt)⟩
  have houtlines : (es.map outline).Pairwise fun a b => a.1 < b.1 := List.pairwise_map.2 hsorted
  exact houtlines.eq_of_mem_iff (List.pairwise_map.2 hsorted') h

end Element

namespace Tower

/-- The tallest towers reach the top level. -/
theorem levels_eq_max? {ts : List Tower} (hpos : ∀ t ∈ ts, 1 ≤ t.height) :
    levels ts = (ts.map height).max?.getD 1 := by
  induction ts with
  | nil => rfl
  | cons t ts ih =>
    have hrest := ih fun u hu => hpos u (List.mem_cons_of_mem t hu)
    have hone : 1 ≤ t.height := hpos t List.mem_cons_self
    rw [levels_cons, hrest, List.map_cons, List.max?_cons]
    cases (ts.map height).max? with
    | none => exact Nat.max_eq_left hone
    | some n => rfl

theorem tall_top_ne_nil {ts : List Tower} (hpos : ∀ t ∈ ts, 1 ≤ t.height) (hne : ts ≠ []) :
    tall (levels ts - 1) ts ≠ [] := by
  rcases Nat.lt_or_ge 1 (levels ts) with htop | hone
  · exact tall_levels_ne_nil htop
  · have hzero : levels ts - 1 = 0 := by omega
    rw [hzero, tall_zero hpos]
    exact hne

theorem countP_elementsIn (level : Nat) (before ts after : List Tower) :
    (elementsIn before ts after).countP (fun e => level < e.height) = (tall level ts).length := by
  rw [Element.countP_height_eq, map_elementsIn height_element, List.countP_map,
    List.countP_eq_length_filter]
  rfl

end Tower

namespace SkipList

open Tower

variable {γ γ' : Type} {l : SkipList γ} {l' : SkipList γ'} {es es' : List Element} {ts : List Tower}

/-- The levels of `l` are those that its elements `es` reach, and the numbers and scores that it tells
of a level are those of the elements on it. -/
structure Leveled (l : SkipList γ) (es : List Element) : Prop where
  elements_eq : l.elements = .ok es
  sorted : es.Pairwise fun d e => d.position < e.position
  length_eq : l.length = es.length
  level_eq : l.level = (es.map Element.height).max?.getD 1
  levelCounts_eq : ∃ counts, l.levelCounts = .ok counts ∧
    counts = ((List.range l.level).map fun level => es.countP fun e => level < e.height) ∧
    counts.head? = some l.length ∧ counts.Pairwise (· ≥ ·) ∧
    (es ≠ [] → ∃ count, counts.getLast? = some count ∧ 0 < count)
  /-- Below the header there is a line for each level, the highest level first. -/
  drawing_eq : l.drawing = .ok (.join
    (["SkipList(level=", toString l.level, ", len=", toString l.length, "):\n"] ++
      (List.range l.level).reverse.map fun level =>
        .join ["Level ", toString level, ": ",
          .join ((Element.scoresOn level es).map fun score =>
            .join ["[", toString score.toNat, "] -> "]), "nil\n"]))

namespace Layout

theorem levelCounts_eq (h : l.Layout ts) :
    l.levelCounts = .ok ((List.range l.level).map fun level => (tall level ts).length) := by
  refine Checked.mapM_eq_map fun level hlevel => ?_
  have hlt := Nat.lt_of_lt_of_le (List.mem_range.1 hlevel) h.level_le_ceiling
  simp only [h.chain_eq hlt, Checked.ok_bind, List.length_map]
  rfl

theorem drawing_eq (h : l.Layout ts) :
    l.drawing = .ok (.join
      (["SkipList(level=", toString l.level, ", len=", toString l.length, "):\n"] ++
        (List.range l.level).reverse.map fun level =>
          levelLine level (Element.scoresOn level (elementsIn [] ts [])))) := by
  have hlines : (List.range l.level).reverse.mapM (fun level => do
      return levelLine level ((← l.elementsOn level).map (·.score))) =
      (.ok ((List.range l.level).reverse.map fun level =>
        levelLine level (Element.scoresOn level (elementsIn [] ts []))) : Checked (List String)) := by
    refine Checked.mapM_eq_map fun level hlevel => ?_
    have hlt := Nat.lt_of_lt_of_le (List.mem_range.1 (List.mem_reverse.1 hlevel)) h.level_le_ceiling
    simp only [h.elementsOn_eq hlt, Checked.ok_bind]
    rfl
  simp only [drawing, hlines, Checked.ok_bind]
  rfl

theorem leveled (h : l.Layout ts) : l.Leveled (elementsIn [] ts []) := by
  have hcounts : l.levelCounts = .ok ((List.range l.level).map fun level =>
      (elementsIn [] ts []).countP fun e => level < e.height) := by
    simp only [h.levelCounts_eq, countP_elementsIn]
  have hpos : 0 < l.level := h.level_eq ▸ one_le_levels ts
  constructor
  case elements_eq => exact h.elements_eq
  case sorted => exact pairwise_elementsIn h.sorted [] []
  case length_eq => rw [h.length_eq, length_elementsIn]
  case level_eq => rw [h.level_eq, levels_eq_max? h.height_pos, map_elementsIn height_element]
  case levelCounts_eq =>
    refine ⟨_, hcounts, rfl, ?_, ?_, ?_⟩
    · -- every element is on level 0
      rw [List.head?_map, List.head?_range, if_neg (Nat.ne_of_gt hpos), Option.map_some,
        countP_elementsIn, h.tall_zero, h.length_eq]
    · refine List.pairwise_map.2 (List.pairwise_lt_range.imp fun hlt => ?_)
      exact Element.countP_height_le (Nat.le_of_lt hlt) _
    · intro hne
      have htop : tall (l.level - 1) ts ≠ [] := by
        rw [h.level_eq]
        refine tall_top_ne_nil h.height_pos fun hnil => hne ?_
        rw [hnil, elementsIn_nil]
      refine ⟨(tall (l.level - 1) ts).length, ?_, List.length_pos_of_ne_nil htop⟩
      rw [List.getLast?_map, List.getLast?_range, if_neg (Nat.ne_of_gt hpos), Option.map_some,
        countP_elementsIn]
  case drawing_eq => exact h.drawing_eq

end Layout

/-- Lists whose elements have the same outlines show the same of their levels. -/
theorem Leveled.congr (h : l.Leveled es) (h' : l'.Leveled es')
    (houtlines : es.map Element.outline = es'.map Element.outline) :
    l.level = l'.level ∧ l.levelCounts = l'.levelCounts ∧ l.drawing = l'.drawing := by
  have hheights := Element.map_height_congr houtlines
  have hlevel : l.level = l'.level := by rw [h.level_eq, h'.level_eq, hheights]
  have hlength : l.length = l'.length := by
    have hsame := congrArg List.length houtlines
    rw [List.length_map, List.length_map] at hsame
    rw [h.length_eq, h'.length_eq, hsame]
  have hscores (level : Nat) : Element.scoresOn level es = Element.scoresOn level es' := by
    rw [Element.scoresOn_eq, houtlines, Element.scoresOn_eq]
  obtain ⟨counts, hcounts, rfl, -⟩ := h.levelCounts_eq
  obtain ⟨counts', hcounts', rfl, -⟩ := h'.levelCounts_eq
  refine ⟨hlevel, ?_, ?_⟩
  · simp only [hcounts, hcounts', hlevel, Element.countP_height_eq, hheights]
  · simp only [h.drawing_eq, h'.drawing_eq, hlevel, hlength, hscores]

/-- What a list shows of its levels follows from the elements that it holds, whatever history led to
them, so two lists with elements of the same outlines show the same. -/
theorem levels_follow_elements [WordSource γ] [WordSource γ'] {ceiling ceiling' : Nat}
    (hpos : 1 ≤ ceiling) (hle : ceiling ≤ maxCeiling) (hpos' : 1 ≤ ceiling')
    (hle' : ceiling' ≤ maxCeiling) (source : γ) (source' : γ') (edits edits' : List Edit) :
    ∃ l es l' es', ofHistory ceiling source edits = .ok l ∧ l.Leveled es ∧
      ofHistory ceiling' source' edits' = .ok l' ∧ l'.Leveled es' ∧
      ((∀ o, o ∈ es.map Element.outline ↔ o ∈ es'.map Element.outline) →
        l.level = l'.level ∧ l.levelCounts = l'.levelCounts ∧ l.drawing = l'.drawing) := by
  obtain ⟨l, ts, hall, hlayout, -⟩ := layout_ofHistory hpos hle source edits
  obtain ⟨l', ts', hall', hlayout', -⟩ := layout_ofHistory hpos' hle' source' edits'
  have h := hlayout.leveled
  have h' := hlayout'.leveled
  refine ⟨l, _, l', _, hall, h, hall', h', fun hsame => ?_⟩
  exact h.congr h' (Element.map_outline_eq h.sorted h'.sorted hsame)

theorem levels_follow_elements_past_taller_ones :
    1 ≤ 4 ∧ 4 ≤ maxCeiling ∧ 1 ≤ 3 ∧ 3 ≤ maxCeiling ∧
      ∃ l es l' es',
        ofHistory 4 (Xoshiro.ofSeed 5)
          [.insert [97] [1] 5, .insert [98] [2] 5, .insert [99] [3] 4, .delete [99] 4,
            .delete [97] 5] = .ok l ∧ l.Leveled es ∧
        ofHistory 3 (Xoshiro.ofSeed 7) [.insert [98] [4] 5] = .ok l' ∧ l'.Leveled es' ∧
        (∀ o, o ∈ es.map Element.outline ↔ o ∈ es'.map Element.outline) ∧
        l.level = l'.level ∧ l.levelCounts = l'.levelCounts ∧ l.drawing = l'.drawing := by
  obtain ⟨l, es, l', es', hall, h, hall', h', hshown⟩ :=
    levels_follow_elements (show 1 ≤ 4 by decide) (by decide) (show 1 ≤ 3 by decide) (by decide)
      (Xoshiro.ofSeed 5) (Xoshiro.ofSeed 7)
      [.insert [97] [1] 5, .insert [98] [2] 5, .insert [99] [3] 4, .delete [99] 4, .delete [97] 5]
      [.insert [98] [4] 5]
  have houtlines : (ofHistory 4 (Xoshiro.ofSeed 5)
      [.insert [97] [1] 5, .insert [98] [2] 5, .insert [99] [3] 4, .delete [99] 4,
        .delete [97] 5] >>= elements).map (List.map Element.outline) = .ok [(⟨5, [98]⟩, 2)] := rfl
  have houtlines' : (ofHistory 3 (Xoshiro.ofSeed 7) [.insert [98] [4] 5] >>= elements).map
      (List.map Element.outline) = .ok [(⟨5, [98]⟩, 2)] := rfl
  rw [hall, Checked.ok_bind, h.elements_eq] at houtlines
  rw [hall', Checked.ok_bind, h'.elements_eq] at houtlines'
  have hsame : ∀ o, o ∈ es.map Element.outline ↔ o ∈ es'.map Element.outline := by
    rw [Except.ok.inj houtlines, Except.ok.inj houtlines']
    exact fun _ => Iff.rfl
  exact ⟨by decide, by decide, by decide, by decide, l, es, l', es', hall, h, hall', h', hsame,
    hshown hsame⟩

end SkipList

end ExpiringStore
