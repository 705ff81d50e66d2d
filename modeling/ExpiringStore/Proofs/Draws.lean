import ExpiringStore.Proofs.Accounting
import ExpiringStore.Proofs.Safety
import ExpiringStore.Proofs.Shedding

/-!
# One word for each new element

An element draws one word for its height when it is created, and nothing else draws: not another
value at a taken position, not a removal, and nothing that happens to a store but a write that tells
that its key is new. So the words that are left count the elements that were created, and the number
of an element among these tells its height, which it keeps until it is removed.

## Main definitions

* `GivesHeight`: the height that a word gives, by its bits.
* `WordSource.word`, `WordSource.Gives`: the words of a source, by number, and the heights that the first
  of them give.
* `SkipList.births`: the elements that a run of operations creates.
* `SkipList.Drew`: what a list draws while elements are created at given positions.
* `Step.born?`: the position at which a step in the life of a store creates an element.
-/

namespace ExpiringStore

/-! ### The height that a word gives -/

/-- Below its lowest zero bit the word has `ones` one bits, and the height is one more than that, unless
the ceiling is lower. -/
def GivesHeight (w : UInt64) (ceiling height : Nat) : Prop :=
  ∃ ones, (∀ i < ones, w.toNat.testBit i = true) ∧ w.toNat.testBit ones = false ∧
    height = min (ones + 1) ceiling

/-- A word gives one height, and this is the height that is drawn from it. -/
theorem givesHeight_iff {w : UInt64} {ceiling height : Nat} :
    GivesHeight w ceiling height ↔ height = heightOf w ceiling := by
  constructor
  · rintro ⟨ones, hbelow, hzero, rfl⟩
    have hones : ones = trailingOnes w := by
      rcases Nat.lt_trichotomy ones (trailingOnes w) with hlt | heq | hgt
      · rw [testBit_of_lt_trailingOnes hlt] at hzero
        cases hzero
      · exact heq
      · have hbit := hbelow _ hgt
        rw [testBit_trailingOnes] at hbit
        cases hbit
    rw [hones, heightOf]
  · rintro rfl
    exact ⟨trailingOnes w, fun _ => testBit_of_lt_trailingOnes, testBit_trailingOnes w, rfl⟩

namespace WordSource

variable {γ : Type} [WordSource γ]

/-- The words of a source, counted from zero. -/
def word (n : Nat) (source : γ) : UInt64 := (next (skip n source)).1

/-- The first words of a source give these heights, one word each. -/
def Gives (source : γ) (ceiling : Nat) (heights : List Nat) : Prop :=
  ∀ i height, heights[i]? = some height → GivesHeight (word i source) ceiling height

theorem skip_add (m n : Nat) (source : γ) : skip (m + n) source = skip n (skip m source) := by
  induction m generalizing source with
  | zero => rw [Nat.zero_add, skip]
  | succ m ih => rw [Nat.succ_add, skip, ih, skip]

theorem word_skip (m n : Nat) (source : γ) : word n (skip m source) = word (m + n) source := by
  rw [word, word, skip_add]

theorem gives_nil (source : γ) (ceiling : Nat) : Gives source ceiling [] := by
  intro i height hget
  cases hget

theorem gives_singleton {source : γ} {ceiling height : Nat}
    (h : GivesHeight (word 0 source) ceiling height) : Gives source ceiling [height] := by
  intro i other hget
  rw [List.getElem?_singleton] at hget
  split at hget
  next hzero =>
    cases hget
    rw [hzero]
    exact h
  next => cases hget

theorem Gives.append {source : γ} {ceiling : Nat} {heights later : List Nat}
    (h : Gives source ceiling heights) (h' : Gives (skip heights.length source) ceiling later) :
    Gives source ceiling (heights ++ later) := by
  intro i height hget
  by_cases hlt : i < heights.length
  · rw [List.getElem?_append_left hlt] at hget
    exact h i height hget
  · rw [List.getElem?_append_right (Nat.le_of_not_lt hlt)] at hget
    have hgives := h' _ height hget
    rwa [word_skip, Nat.add_sub_cancel' (Nat.le_of_not_lt hlt)] at hgives

end WordSource

/-- The position and the height of a tower. -/
def Tower.outline (t : Tower) : Position × Nat := (t.position, t.height)

theorem Tower.map_outline_overwrite (p : Position) (value : Bytes) (ts : List Tower) :
    (overwrite p value ts).map outline = ts.map outline := by
  rw [overwrite, List.map_map]
  refine List.map_congr_left fun t _ => ?_
  rw [Function.comp_apply, outline, position_revalue, height_revalue, outline]

theorem Tower.map_outline_elementsIn (ts : List Tower) :
    (elementsIn [] ts []).map Element.outline = ts.map outline :=
  map_elementsIn (fun t before after => by
    rw [Element.outline, position_element, height_element, outline]) [] ts []

namespace SkipList

open Tower

variable {γ : Type} [WordSource γ] {l m u : SkipList γ} {ts ts' : List Tower}

/-! ### What was drawn for an element -/

/-- An element with this outline has the height that it drew when its position was born for the last
time. Each birth draws one word. -/
def DrawnLast (source : γ) (ceiling : Nat) (born : List Position) (o : Position × Nat) : Prop :=
  ∃ earlier later, born = earlier ++ o.1 :: later ∧ o.1 ∉ later ∧
    GivesHeight (WordSource.word earlier.length source) ceiling o.2

namespace DrawnLast

variable {source : γ} {ceiling : Nat} {born : List Position} {o : Position × Nat}

theorem append (h : DrawnLast source ceiling born o) {more : List Position} (hmore : o.1 ∉ more) :
    DrawnLast source ceiling (born ++ more) o := by
  obtain ⟨earlier, later, rfl, hlater, hheight⟩ := h
  refine ⟨earlier, later ++ more, by rw [List.append_assoc, List.cons_append], ?_, hheight⟩
  rw [List.mem_append, not_or]
  exact ⟨hlater, hmore⟩

theorem prepend {before : List Position}
    (h : DrawnLast (WordSource.skip before.length source) ceiling born o) :
    DrawnLast source ceiling (before ++ born) o := by
  obtain ⟨earlier, later, rfl, hlater, hheight⟩ := h
  refine ⟨before ++ earlier, later, (List.append_assoc ..).symm, hlater, ?_⟩
  rw [List.length_append, ← WordSource.word_skip]
  exact hheight

end DrawnLast

/-- Between `l` and `u` elements were created at the positions `born`, one after the other, and one
word was drawn for each of them. Whatever else happened, the elements of `u` that were not created in
between were in `l` with the same height. -/
structure Drew (l : SkipList γ) (born : List Position) (u : SkipList γ) : Prop where
  ceiling_eq : u.ceiling = l.ceiling
  source_eq : u.source = WordSource.skip born.length l.source
  outline : ∃ es es', l.elements = .ok es ∧ u.elements = .ok es' ∧
    ∀ o ∈ es'.map Element.outline,
      DrawnLast l.source l.ceiling born o ∨ o.1 ∉ born ∧ o ∈ es.map Element.outline

theorem Drew.trans {born born' : List Position} (h : l.Drew born m) (h' : m.Drew born' u) :
    l.Drew (born ++ born') u := by
  constructor
  case ceiling_eq => exact h'.ceiling_eq.trans h.ceiling_eq
  case source_eq => rw [h'.source_eq, h.source_eq, List.length_append, WordSource.skip_add]
  case outline =>
    obtain ⟨es, mid, hes, hmid, hfirst⟩ := h.outline
    obtain ⟨mid', es', hmid', hes', hsecond⟩ := h'.outline
    obtain rfl : mid = mid' := Except.ok.inj (hmid.symm.trans hmid')
    rw [h.source_eq, h.ceiling_eq] at hsecond
    refine ⟨es, es', hes, hes', fun o ho => ?_⟩
    -- what was not born on the way from `m` was in `m`, and there the first part tells where it is from
    rcases hsecond o ho with hdrawn | ⟨hnot, hold⟩
    · exact Or.inl hdrawn.prepend
    · rcases hfirst o hold with hdrawn | ⟨hnot', holder⟩
      · exact Or.inl (hdrawn.append hnot)
      · refine Or.inr ⟨?_, holder⟩
        rw [List.mem_append, not_or]
        exact ⟨hnot', hnot⟩

/-- A list for which a word was drawn at each birth from the creation of the list on. -/
structure Drawn (l : SkipList γ) (source : γ) (ceiling : Nat) (born : List Position) : Prop where
  ceiling_eq : l.ceiling = ceiling
  source_eq : l.source = WordSource.skip born.length source
  height_eq : ∃ es, l.elements = .ok es ∧ ∀ e ∈ es, DrawnLast source ceiling born e.outline

/-- In a list that was created empty nothing is older than the births. -/
theorem Drew.drawn {born : List Position} (h : l.Drew born u) (hempty : l.elements = .ok []) :
    u.Drawn l.source l.ceiling born := by
  obtain ⟨es, es', hes, hes', houtline⟩ := h.outline
  obtain rfl : es = [] := Except.ok.inj (hes.symm.trans hempty)
  refine ⟨h.ceiling_eq, h.source_eq, es', hes', fun e he => ?_⟩
  rcases houtline e.outline (List.mem_map_of_mem he) with hdrawn | ⟨-, hold⟩
  · exact hdrawn
  · exact absurd hold List.not_mem_nil

/-! ### What one change draws -/

namespace Layout

theorem drew (h : l.Layout ts) (h' : u.Layout ts') {born : List Position}
    (hceiling : u.ceiling = l.ceiling) (hsource : u.source = WordSource.skip born.length l.source)
    (houtline : ∀ o ∈ ts'.map Tower.outline,
      DrawnLast l.source l.ceiling born o ∨ o.1 ∉ born ∧ o ∈ ts.map Tower.outline) :
    l.Drew born u := by
  refine ⟨hceiling, hsource, _, _, h.elements_eq, h'.elements_eq, ?_⟩
  rw [map_outline_elementsIn, map_outline_elementsIn]
  exact houtline

/-- A change that draws no word leaves elements out or leaves their outlines alone. -/
theorem drew_nothing (h : l.Layout ts) (h' : u.Layout ts') (hceiling : u.ceiling = l.ceiling)
    (hsource : u.source = l.source) (houtline : ts'.map Tower.outline ⊆ ts.map Tower.outline) :
    l.Drew [] u :=
  h.drew h' hceiling hsource fun _ ho => Or.inr ⟨List.not_mem_nil, houtline ho⟩

theorem drew_refl (h : l.Layout ts) : l.Drew [] l :=
  h.drew_nothing h rfl rfl fun _ ho => ho

theorem drew_sheds (h : l.Layout ts) (hsheds : l.Sheds u) : l.Drew [] u := by
  obtain ⟨ts', hlayout, hsub, hceiling, hsource⟩ := h.sheds hsheds
  exact h.drew_nothing hlayout hceiling hsource (List.map_subset _ hsub)

/-- An insertion replaces a value, or it creates an element with the height of the next word. Which of
the two it was is told by the length. -/
theorem drew_insert (h : l.Layout ts) {key value : Bytes} {score : Score} {e : Element}
    (hinsert : l.insert key value score = .ok (e, u)) :
    u.length = l.length ∧ l.Drew [] u ∨
      u.length = l.length + 1 ∧ l.Drew [⟨score, key⟩] u ∧ e.position = ⟨score, key⟩ ∧
        e.height = heightOf (WordSource.word 0 l.source) l.ceiling := by
  by_cases htaken : (⟨score, key⟩ : Position) ∈ ts.map position
  · obtain ⟨before, t, after, hsplit, hposition⟩ := exists_split_of_mem htaken
    obtain ⟨rfl, rfl⟩ := Position.mk.inj hposition
    obtain ⟨hinsert', hlayout⟩ := h.insert_taken hsplit value
    obtain ⟨-, rfl⟩ := Prod.mk.inj (Except.ok.inj (hinsert.symm.trans hinsert'))
    refine Or.inl ⟨rfl, h.drew_nothing hlayout rfl rfl ?_⟩
    rw [map_outline_overwrite]
    exact List.Subset.refl _
  · obtain ⟨l', hinsert', hlayout, hsource, hceiling, -⟩ :=
      h.insert_new (absent_of_not_mem htaken) value
    obtain ⟨rfl, rfl⟩ := Prod.mk.inj (Except.ok.inj (hinsert.symm.trans hinsert'))
    refine Or.inr ⟨?_, h.drew hlayout hceiling hsource fun o ho => ?_, position_element ..,
      height_element ..⟩
    · rw [hlayout.length_eq, length_place, h.length_eq]
    · -- the tower that was placed is the one that was born, and no other is at its position
      obtain ⟨t, ht, rfl⟩ := List.mem_map.1 ho
      rcases mem_place.1 ht with rfl | ht
      · exact Or.inl ⟨[], [], rfl, List.not_mem_nil, givesHeight_iff.2 rfl⟩
      · refine Or.inr ⟨?_, List.mem_map_of_mem ht⟩
        rw [List.mem_singleton]
        exact absent_of_not_mem htaken t ht

end Layout

/-! ### Runs of operations -/

/-- Carries out an operation, and tells the element that it created, if it created one: then the list
has become longer. -/
def birth? (l : SkipList γ) : Operation → Checked (Option Element × SkipList γ)
  | .edit (.insert key value score) => do
    let (e, l') ← l.insert key value score
    return (if l.length < l'.length then some e else none, l')
  | operation => return (none, ← l.operate operation)

/-- The elements that operations create, in the order of their creation. -/
def births (l : SkipList γ) : List Operation → Checked (List Element × SkipList γ)
  | [] => return ([], l)
  | operation :: rest => do
    let (e?, m) ← l.birth? operation
    let (born, u) ← m.births rest
    return (e?.toList ++ born, u)

/-- Whether an operation takes the element at `p` out, if there is one. -/
def Operation.removes (p : Position) : Operation → Bool
  | .edit (.delete key score) => (⟨score, key⟩ : Position) == p
  | .edit .clear => true
  | _ => false

namespace Layout

/-- One operation draws a word for the element that it creates, and for nothing else. -/
theorem birth? (h : l.Layout ts) (operation : Operation) :
    ∃ e? u ts', l.birth? operation = .ok (e?, u) ∧ l.operate operation = .ok u ∧ u.Layout ts' ∧
      l.Drew (e?.toList.map Element.position) u ∧
      WordSource.Gives l.source l.ceiling (e?.toList.map Element.height) := by
  cases operation with
  | edit edit =>
    cases edit with
    | insert key value score =>
      obtain ⟨e, u, hinsert, -, -, -, hlayout, -⟩ := h.insert_eq key value score
      have hoperate : l.operate (.edit (.insert key value score)) = .ok u := by
        simp only [SkipList.operate, SkipList.apply, hinsert, Checked.ok_bind]
        rfl
      have hbirth : l.birth? (.edit (.insert key value score)) =
          .ok (if l.length < u.length then some e else none, u) := by
        simp only [SkipList.birth?, hinsert, Checked.ok_bind]
        rfl
      refine ⟨_, u, _, hbirth, hoperate, hlayout, ?_⟩
      rcases h.drew_insert hinsert with ⟨hlength, hdrew⟩ | ⟨hlength, hdrew, hposition, hheight⟩
      · rw [if_neg (by omega)]
        exact ⟨hdrew, WordSource.gives_nil _ _⟩
      · rw [if_pos (by omega)]
        refine ⟨?_, WordSource.gives_singleton (givesHeight_iff.2 hheight)⟩
        rw [Option.toList_some, List.map_singleton, hposition]
        exact hdrew
    | delete key score =>
      obtain ⟨e?, u, hdelete, -, -, hlayout, -⟩ := h.delete_eq key score
      have hoperate : l.operate (.edit (.delete key score)) = .ok u := by
        simp only [SkipList.operate, SkipList.apply, hdelete, Checked.ok_bind]
        rfl
      refine ⟨none, u, _, ?_, hoperate, hlayout, h.drew_sheds (.delete hdelete (.refl _)),
        WordSource.gives_nil _ _⟩
      simp only [SkipList.birth?, hoperate, Checked.ok_bind]
      rfl
    | clear =>
      exact ⟨none, l.clear, [], rfl, rfl, h.clear, h.drew_sheds (.clear (.refl _)),
        WordSource.gives_nil _ _⟩
  | inquire inquiry =>
    refine ⟨none, l, ts, ?_, h.operate_inquire inquiry, h, h.drew_refl, WordSource.gives_nil _ _⟩
    simp only [SkipList.birth?, h.operate_inquire, Checked.ok_bind]
    rfl

theorem births (h : l.Layout ts) (operations : List Operation) :
    ∃ born u ts', l.births operations = .ok (born, u) ∧ l.operateAll operations = .ok u ∧
      u.Layout ts' ∧ l.Drew (born.map Element.position) u ∧
      WordSource.Gives l.source l.ceiling (born.map Element.height) := by
  induction operations generalizing l ts with
  | nil => exact ⟨[], l, ts, rfl, rfl, h, h.drew_refl, WordSource.gives_nil _ _⟩
  | cons operation rest ih =>
    obtain ⟨e?, m, ts₁, hbirth, hoperate, hlayout, hdrew, hgives⟩ := h.birth? operation
    obtain ⟨born, u, ts', hbirths, hall, hlayout', hdrew', hgives'⟩ := ih hlayout
    refine ⟨e?.toList ++ born, u, ts', ?_, ?_, hlayout', ?_, ?_⟩
    · simp only [SkipList.births, hbirth, Checked.ok_bind, hbirths]
      rfl
    · rw [SkipList.operateAll, List.foldlM_cons, hoperate, Checked.ok_bind]
      exact hall
    · rw [List.map_append]
      exact hdrew.trans hdrew'
    · rw [hdrew.source_eq, hdrew.ceiling_eq, List.length_map] at hgives'
      rw [List.map_append]
      refine hgives.append ?_
      rw [List.length_map]
      exact hgives'

end Layout

/-! ### Elements that stay -/

theorem outline_mem_towersAfter (l : SkipList γ) {o : Position × Nat} {edit : Edit}
    (hstays : Operation.removes o.1 (.edit edit) = false) (ho : o ∈ ts.map Tower.outline) :
    o ∈ (l.towersAfter ts edit).map Tower.outline := by
  obtain ⟨t, ht, rfl⟩ := List.mem_map.1 ho
  cases edit with
  | insert key value score =>
    rw [towersAfter, towersPut]
    split
    · rw [map_outline_overwrite]
      exact ho
    · exact List.mem_map_of_mem (mem_place.2 (Or.inr ht))
  | delete key score =>
    refine List.mem_map_of_mem (mem_remove.2 ⟨ht, fun heq => ?_⟩)
    exact beq_eq_false_iff_ne.1 hstays heq.symm
  | clear => cases hstays

namespace Layout

theorem operate_keeps (h : l.Layout ts) {o : Position × Nat} (ho : o ∈ ts.map Tower.outline)
    {operation : Operation} (hstays : operation.removes o.1 = false) :
    ∃ u ts', l.operate operation = .ok u ∧ u.Layout ts' ∧ o ∈ ts'.map Tower.outline := by
  cases operation with
  | edit edit =>
    obtain ⟨u, happly, hlayout, -⟩ := h.apply edit
    exact ⟨u, _, happly, hlayout, l.outline_mem_towersAfter hstays ho⟩
  | inquire inquiry => exact ⟨l, ts, h.operate_inquire inquiry, h, ho⟩

theorem operateAll_keeps (h : l.Layout ts) {o : Position × Nat} (ho : o ∈ ts.map Tower.outline)
    {operations : List Operation}
    (hstays : ∀ operation ∈ operations, operation.removes o.1 = false) :
    ∃ u ts', l.operateAll operations = .ok u ∧ u.Layout ts' ∧ o ∈ ts'.map Tower.outline := by
  induction operations generalizing l ts with
  | nil => exact ⟨l, ts, rfl, h, ho⟩
  | cons operation rest ih =>
    obtain ⟨m, ts₁, hoperate, hlayout, hmid⟩ :=
      h.operate_keeps ho (hstays operation List.mem_cons_self)
    obtain ⟨u, ts', hall, hlayout', hlast⟩ :=
      ih hlayout hmid fun later hlater => hstays later (List.mem_cons_of_mem operation hlater)
    refine ⟨u, ts', ?_, hlayout', hlast⟩
    rw [SkipList.operateAll, List.foldlM_cons, hoperate, Checked.ok_bind]
    exact hall

end Layout

/-- An element keeps its height for as long as it is there, whatever happens to the others. -/
def KeepsHeights (l : SkipList γ) : Prop :=
  ∃ es, l.elements = .ok es ∧ ∀ e ∈ es, ∀ operations : List Operation,
    (∀ operation ∈ operations, operation.removes e.position = false) →
      ∃ u es', l.operateAll operations = .ok u ∧ u.elements = .ok es' ∧
        e.outline ∈ es'.map Element.outline

theorem Layout.keepsHeights (h : l.Layout ts) : l.KeepsHeights := by
  refine ⟨_, h.elements_eq, fun e he operations hstays => ?_⟩
  have ho : e.outline ∈ ts.map Tower.outline := by
    rw [← map_outline_elementsIn]
    exact List.mem_map_of_mem he
  obtain ⟨u, ts', hall, hlayout, hlast⟩ := h.operateAll_keeps ho hstays
  refine ⟨u, _, hall, hlayout.elements_eq, ?_⟩
  rw [map_outline_elementsIn]
  exact hlast

end SkipList

/-! ### Runs of events -/

/-- The position at which a step creates an element in the index. -/
def Step.born? {γ : Type} (step : Step γ) : Option Position :=
  match step.event with
  | .command command =>
    if command.creates step.reply then command.written?.map step.before.position else none
  | _ => none

theorem Step.isSome_born? {γ : Type} (step : Step γ) : step.born?.isSome = step.creates := by
  obtain ⟨before, event, reply⟩ := step
  cases event with
  | command command =>
    cases command with
    | set | setWithTtl =>
      by_cases hnew : reply = .flag true
      · simp [born?, creates, Command.creates, Command.written?, hnew]
      · simp [born?, creates, Command.creates, hnew]
    | _ => rfl
  | queued | sweep => rfl

namespace Store

variable {γ : Type} [WordSource γ] {s t u : Store γ} {r : Reference}

/-- A write creates an element in the index if it tells that its key is new, and otherwise none. -/
theorem put_drew {ts : List Tower} (h : s.index.Layout ts) {key value : Bytes}
    {deadline? : Option Instant} {created : Bool}
    (hput : s.put key value deadline? = .ok (created, u)) :
    s.index.Drew (if created then [s.position key] else []) u.index := by
  obtain ⟨⟨e, index⟩, hinsert, hpure⟩ := Checked.bind_eq_ok hput
  cases hpure
  rcases h.drew_insert hinsert with ⟨hlength, hdrew⟩ | ⟨hlength, hdrew, -⟩
  · rw [if_neg (by simp [hlength])]
    exact hdrew
  · rw [if_pos (by simp [hlength])]
    exact hdrew

/-- An event draws a word for the element that it creates in the index, and for nothing else. -/
theorem answer_drew {ts : List Tower} (h : s.index.Layout ts) {event : Event} {reply : Reply}
    (hanswer : s.answer event = .ok (reply, u)) :
    s.index.Drew (Step.born? ⟨s, event, reply⟩).toList u.index := by
  cases event with
  | command command =>
    have hperform : s.perform command = .ok (reply, u) := hanswer
    cases command with
    | set key value =>
      obtain ⟨⟨created, mid⟩, hput, hpure⟩ := Checked.bind_eq_ok hperform
      cases hpure
      have hdrew := put_drew h hput
      cases created <;> exact hdrew
    | setWithTtl key value ttl =>
      obtain ⟨⟨outcome, mid⟩, hset, hpure⟩ := Checked.bind_eq_ok hperform
      cases hpure
      unfold setWithTtl at hset
      split at hset
      · cases hset
        exact h.drew_refl
      · obtain ⟨⟨created, last⟩, hput, hpure⟩ := Checked.bind_eq_ok hset
        cases hpure
        have hdrew := put_drew h hput
        cases created <;> exact hdrew
    | _ => exact h.drew_sheds (perform_sheds hperform rfl)
  | queued place =>
    obtain ⟨mid, hhandle, hpure⟩ := Checked.bind_eq_ok hanswer
    cases hpure
    simp only [handle] at hhandle
    split at hhandle
    · have hsheds := expireLazily_sheds hhandle
      exact h.drew_sheds hsheds
    · cases hhandle
      exact h.drew_refl
  | sweep keys =>
    obtain ⟨mid, hhandle, hpure⟩ := Checked.bind_eq_ok hanswer
    cases hpure
    obtain ⟨⟨count, last⟩, hsweep, hpure⟩ := Checked.bind_eq_ok hhandle
    cases hpure
    exact h.drew_sheds (sweep_sheds hsweep)

theorem Shows.record_drew (h : s.Shows r) {events : List Event} {steps : List (Step γ)}
    (hrecord : s.record events = .ok (steps, t)) :
    s.index.Drew (steps.filterMap Step.born?) t.index := by
  induction events generalizing s r steps with
  | nil =>
    cases hrecord
    obtain ⟨ts, hlayout, -⟩ := h.index
    exact hlayout.drew_refl
  | cons event rest ih =>
    obtain ⟨⟨reply, mid⟩, hanswer, hrest⟩ := Checked.bind_eq_ok hrecord
    obtain ⟨⟨later, last⟩, hlater, hpure⟩ := Checked.bind_eq_ok hrest
    cases hpure
    obtain ⟨ts, hlayout, -⟩ := h.index
    obtain ⟨reply', mid', r', hanswer', hshows, -⟩ := h.answer event
    obtain ⟨-, rfl⟩ := Prod.mk.inj (Except.ok.inj (hanswer.symm.trans hanswer'))
    have hdrew := (answer_drew hlayout hanswer).trans (ih hshows hlater)
    cases hborn : Step.born? ⟨s, event, reply⟩ with
    | none =>
      rw [List.filterMap_cons_none hborn]
      rwa [hborn] at hdrew
    | some p =>
      rw [List.filterMap_cons_some hborn]
      rwa [hborn] at hdrew

end Store

/-- A new store has no element in its index, and every word of the source is left. -/
theorem Store.index_create {γ : Type} {config : Config} (hvalid : config.check = .ok ())
    (source : γ) :
    ∃ s, Store.create .present config source = .ok (.ok s) ∧ s.Shows (.create config) ∧
      s.index.elements = .ok [] ∧ s.index.ceiling = config.ceiling ∧ s.index.source = source := by
  obtain ⟨-, hpos, hle⟩ := (Config.check_eq_ok_iff config).1 hvalid
  obtain ⟨index, hindex, hlayout, hceiling, hsource, -⟩ :=
    SkipList.layout_create hpos hle source
  obtain ⟨s, hcreate, hshows⟩ := Store.shows_create hvalid source
  have hopened := hcreate
  simp only [Store.create, hvalid, hindex, Checked.ok_bind] at hopened
  cases hopened
  exact ⟨_, hcreate, hshows, hlayout.elements_eq, hceiling, hsource⟩

/-- Under every ceiling that a list accepts, a run of operations draws one word for each element that
it creates, and no other word. The word of its number gives an element its height, which it keeps for
as long as it is there. In a store that was opened with a valid configuration, the elements are those
that are created by writes that tell that their key is new. -/
theorem one_draw_per_created_element {γ : Type} [WordSource γ] (source : γ) :
    (∀ ceiling, 1 ≤ ceiling → ceiling ≤ maxCeiling → ∀ operations, ∃ born l,
      (SkipList.create ceiling source >>= fun l => l.births operations) = .ok (born, l) ∧
      (SkipList.create ceiling source >>= fun l => l.operateAll operations) = .ok l ∧
      WordSource.Gives source ceiling (born.map Element.height) ∧
      l.Drawn source ceiling (born.map Element.position) ∧ l.KeepsHeights) ∧
    ∀ config : Config, config.check = .ok () → ∀ events, ∃ s steps t,
      Store.create .present config source = .ok (.ok s) ∧ s.record events = .ok (steps, t) ∧
      s.handleAll events = .ok t ∧ steps.map Step.event = events ∧
      t.index.source = WordSource.skip (steps.countP Step.creates) source ∧
      t.index.Drawn source config.ceiling (steps.filterMap Step.born?) ∧
      ∀ later, ∃ steps' u, t.record later = .ok (steps', u) ∧
        t.index.Drew (steps'.filterMap Step.born?) u.index := by
  constructor
  · intro ceiling hpos hle operations
    obtain ⟨empty, hcreate, hlayout, hceiling, hsource, -⟩ :=
      SkipList.layout_create hpos hle source
    obtain ⟨born, l, ts, hbirths, hall, hlayout', hdrew, hgives⟩ := hlayout.births operations
    have hdrawn := hdrew.drawn hlayout.elements_eq
    rw [hceiling, hsource] at hdrawn hgives
    refine ⟨born, l, ?_, ?_, hgives, hdrawn, hlayout'.keepsHeights⟩
    · rw [hcreate, Checked.ok_bind, hbirths]
    · rw [hcreate, Checked.ok_bind, hall]
  · intro config hvalid events
    obtain ⟨s, hcreate, hshows, hempty, hceiling, hsource⟩ := Store.index_create hvalid source
    obtain ⟨steps, t, r, hrecord, hshows', -⟩ := hshows.record events
    obtain ⟨hall, hevents⟩ := Store.handleAll_of_record hrecord
    have hdrawn := (hshows.record_drew hrecord).drawn hempty
    rw [hceiling, hsource] at hdrawn
    refine ⟨s, steps, t, hcreate, hrecord, hall, hevents, ?_, hdrawn, fun later => ?_⟩
    · rw [hdrawn.source_eq, List.length_filterMap_eq_countP]
      simp only [Step.isSome_born?]
    · obtain ⟨steps', u, r', hrecord', -⟩ := hshows'.record later
      exact ⟨steps', u, hrecord', hshows'.record_drew hrecord'⟩

theorem one_draw_per_created_element_past_a_clearing :
    1 ≤ 4 ∧ 4 ≤ maxCeiling ∧
      Config.check { scoreMode := .ordered, eviction := .immediate, ceiling := 4 } = .ok () ∧
      (∃ born l,
        (SkipList.create 4 (Xoshiro.ofSeed 9) >>= fun l => l.births
          [.edit (.insert [97] [1] 5), .edit (.insert [98] [2] 5), .edit (.insert [97] [3] 5),
            .edit (.delete [98] 5), .inquire (.search ⟨5, [98]⟩), .edit (.insert [98] [4] 5),
            .edit .clear, .edit (.delete [97] 5), .edit (.insert [97] [5] 5)]) = .ok (born, l) ∧
        born.map Element.outline =
          [(⟨5, [97]⟩, 4), (⟨5, [98]⟩, 3), (⟨5, [98]⟩, 1), (⟨5, [97]⟩, 2)] ∧
        WordSource.Gives (Xoshiro.ofSeed 9) 4 (born.map Element.height) ∧
        l.Drawn (Xoshiro.ofSeed 9) 4 (born.map Element.position) ∧ l.KeepsHeights) ∧
      ∃ s steps t steps' u,
        Store.create .present { scoreMode := .ordered, eviction := .immediate, ceiling := 4 }
          (Xoshiro.ofSeed 9) = .ok (.ok s) ∧
        s.record
          [.command (.setWithTtl [97] [1] 5), .command (.set [98] [2]), .command (.advance 5),
            .command (.set [97] [3]), .command (.expire [98] 0), .command .flush,
            .command (.set [97] [4])] = .ok (steps, t) ∧
        t.index.source = WordSource.skip (steps.countP Step.creates) (Xoshiro.ofSeed 9) ∧
        t.index.Drawn (Xoshiro.ofSeed 9) 4 (steps.filterMap Step.born?) ∧
        t.record [.command (.setWithTtl [98] [5] 3), .command (.advance 9), .sweep [[98]]] =
          .ok (steps', u) ∧
        t.index.Drew (steps'.filterMap Step.born?) u.index := by
  obtain ⟨hlists, hstores⟩ := one_draw_per_created_element (Xoshiro.ofSeed 9)
  have hvalid :
      Config.check { scoreMode := .ordered, eviction := .immediate, ceiling := 4 } = .ok () := by
    decide
  obtain ⟨born, l, hbirths, -, hgives, hdrawn, hkeeps⟩ := hlists 4 (by decide) (by decide)
    [.edit (.insert [97] [1] 5), .edit (.insert [98] [2] 5), .edit (.insert [97] [3] 5),
      .edit (.delete [98] 5), .inquire (.search ⟨5, [98]⟩), .edit (.insert [98] [4] 5),
      .edit .clear, .edit (.delete [97] 5), .edit (.insert [97] [5] 5)]
  have houtlines : (SkipList.create 4 (Xoshiro.ofSeed 9) >>= fun l => l.births
      [.edit (.insert [97] [1] 5), .edit (.insert [98] [2] 5), .edit (.insert [97] [3] 5),
        .edit (.delete [98] 5), .inquire (.search ⟨5, [98]⟩), .edit (.insert [98] [4] 5),
        .edit .clear, .edit (.delete [97] 5), .edit (.insert [97] [5] 5)]).map
          (fun run => run.1.map Element.outline) =
      .ok [(⟨5, [97]⟩, 4), (⟨5, [98]⟩, 3), (⟨5, [98]⟩, 1), (⟨5, [97]⟩, 2)] := rfl
  rw [hbirths] at houtlines
  obtain ⟨s, steps, t, hcreate, hrecord, -, -, hsource, hdrawn', hlater⟩ := hstores
    { scoreMode := .ordered, eviction := .immediate, ceiling := 4 } hvalid
    [.command (.setWithTtl [97] [1] 5), .command (.set [98] [2]), .command (.advance 5),
      .command (.set [97] [3]), .command (.expire [98] 0), .command .flush,
      .command (.set [97] [4])]
  obtain ⟨steps', u, hrecord', hdrew⟩ :=
    hlater [.command (.setWithTtl [98] [5] 3), .command (.advance 9), .sweep [[98]]]
  exact ⟨by decide, by decide, hvalid,
    ⟨born, l, hbirths, Except.ok.inj houtlines, hgives, hdrawn, hkeeps⟩,
    s, steps, t, steps', u, hcreate, hrecord, hsource, hdrawn', hrecord', hdrew⟩

end ExpiringStore
