import Mathlib.Data.List.Induction
import Mathlib.Order.Bounds.Basic
import ExpiringStore.Proofs.Safety

/-!
# Slots are taken again

A new element takes a slot that was released before, and a slot of its own only if there is none. An
arena therefore has as many slots as its list had elements when it was longest, from the creation of
the list on or since it was last cleared.

## Main definitions

* `SkipList.lengthsSinceCleared`: the lengths that a list has had since then.
* `SkipList.Reuses`: what each operation does to the number of slots.
-/

namespace ExpiringStore.SkipList

open Tower

variable {γ : Type} [WordSource γ] {l m u : SkipList γ} {ts : List Tower}
  {operations : List Operation} {operation : Operation}

/-- The lengths that `l` has in the course of the operations, from the last clearing on. -/
def lengthsSinceCleared (l : SkipList γ) (operations : List Operation) : Set Nat :=
  {n | ∃ earlier later m, operations = earlier ++ later ∧ .edit .clear ∉ later ∧
    l.operateAll earlier = .ok m ∧ m.length = n}

/-- The creation of an element adds a slot to the arena if no slot is free, and no other operation
adds one. -/
structure Reuses (l : SkipList γ) : Prop where
  inquire : ∀ inquiry, l.operate (.inquire inquiry) = .ok l
  delete : ∀ key score, ∃ e? u, l.delete key score = .ok (e?, u) ∧ u.slots = l.slots
  insert : ∀ key value score, ∃ found e u, l.search ⟨score, key⟩ = .ok found ∧
    l.insert key value score = .ok (e, u) ∧
    u.slots = if found.isNone && l.arena.free.isEmpty then l.slots + 1 else l.slots
  clear : l.clear.slots = 0

/-! ### What one operation does to the slots -/

namespace Layout

/-- A value at a taken position needs no slot, and a new element takes a free one if it can. -/
theorem slots_insert (h : l.Layout ts) (key value : Bytes) (score : Score) :
    ∃ found e u, l.search ⟨score, key⟩ = .ok found ∧ l.insert key value score = .ok (e, u) ∧
      u.length = (if found.isNone then l.length + 1 else l.length) ∧
      u.slots = if found.isNone && l.arena.free.isEmpty then l.slots + 1 else l.slots := by
  by_cases htaken : (⟨score, key⟩ : Position) ∈ ts.map position
  · obtain ⟨before, t, after, hsplit, hposition⟩ := exists_split_of_mem htaken
    obtain ⟨rfl, rfl⟩ := Position.mk.inj hposition
    obtain ⟨hinsert, -⟩ := h.insert_taken hsplit value
    exact ⟨_, _, _, h.search_eq_some hsplit, hinsert, rfl, Arena.size_put _ _ _⟩
  · have habsent := absent_of_not_mem htaken
    obtain ⟨u, hinsert, hlayout, -, -, hfree⟩ := h.insert_new habsent value
    have hlength : u.length = l.length + 1 := by
      rw [hlayout.length_eq, length_place, h.length_eq]
    refine ⟨none, _, u, h.search_eq_none habsent, hinsert, hlength, ?_⟩
    -- the slots are those of the elements and the free ones, before and after
    have hbefore : l.slots = l.length + l.arena.free.length := h.length_eq ▸ h.slots_eq
    have hafter : u.slots = u.length + u.arena.free.length := hlayout.length_eq ▸ hlayout.slots_eq
    rw [hfree, List.length_tail, hlength] at hafter
    simp only [Option.isNone_none, Bool.true_and, List.isEmpty_iff_length_eq_zero]
    split <;> omega

theorem reuses (h : l.Layout ts) : l.Reuses := by
  constructor
  case inquire => exact h.operate_inquire
  case delete =>
    intro key score
    obtain ⟨e?, u, hdelete, -⟩ := h.delete_eq key score
    exact ⟨e?, u, hdelete, h.slots_delete hdelete⟩
  case insert =>
    intro key value score
    obtain ⟨found, e, u, hsearch, hinsert, -, hslots⟩ := h.slots_insert key value score
    exact ⟨found, e, u, hsearch, hinsert, hslots⟩
  case clear => rfl

/-- Unless it clears the list, an operation takes the number of slots to the new length if that is
greater, and leaves it alone otherwise. -/
theorem slots_operate (h : l.Layout ts) (hoperate : l.operate operation = .ok u)
    (hkeeps : operation ≠ .edit .clear) : u.slots = max u.length l.slots := by
  have hroom : l.length ≤ l.slots := h.length_eq ▸ h.length_le_slots
  cases operation with
  | edit edit =>
    cases edit with
    | insert key value score =>
      obtain ⟨found, e, v, -, hinsert, hlength, hslots⟩ := h.slots_insert key value score
      simp only [SkipList.operate, SkipList.apply, hinsert, Checked.ok_bind] at hoperate
      cases hoperate
      rw [hlength, hslots]
      cases found with
      | some d => exact (Nat.max_eq_right hroom).symm
      | none =>
        have hfree : l.slots = l.length + l.arena.free.length := h.length_eq ▸ h.slots_eq
        simp only [Option.isNone_none, Bool.true_and, List.isEmpty_iff_length_eq_zero, ↓reduceIte]
        split <;> omega
    | delete key score =>
      obtain ⟨e?, v, hdelete, -, -, hlayout, -⟩ := h.delete_eq key score
      simp only [SkipList.operate, SkipList.apply, hdelete, Checked.ok_bind] at hoperate
      cases hoperate
      rw [← h.slots_delete hdelete]
      exact (Nat.max_eq_right (hlayout.length_eq ▸ hlayout.length_le_slots)).symm
    | clear => exact absurd rfl hkeeps
  | inquire inquiry =>
    rw [h.operate_inquire] at hoperate
    cases hoperate
    exact (Nat.max_eq_right hroom).symm

end Layout

/-! ### Runs of operations -/

theorem operateAll_concat (h : l.operateAll operations = .ok m) (operation : Operation) :
    l.operateAll (operations ++ [operation]) = m.operate operation := by
  have hall : operations.foldlM operate l = .ok m := h
  rw [operateAll, List.foldlM_append, hall, Checked.ok_bind, List.foldlM_cons]
  cases m.operate operation <;> rfl

theorem lengthsSinceCleared_nil (l : SkipList γ) : l.lengthsSinceCleared [] = {l.length} := by
  ext n
  constructor
  · rintro ⟨earlier, later, m, hsplit, -, hall, rfl⟩
    obtain ⟨rfl, rfl⟩ := List.append_eq_nil_iff.1 hsplit.symm
    cases hall
    rfl
  · rintro rfl
    exact ⟨[], [], l, rfl, List.not_mem_nil, rfl, rfl⟩

theorem mem_lengthsSinceCleared_concat (hall : l.operateAll (operations ++ [operation]) = .ok u)
    {n : Nat} :
    n ∈ l.lengthsSinceCleared (operations ++ [operation]) ↔
      n = u.length ∨ operation ≠ .edit .clear ∧ n ∈ l.lengthsSinceCleared operations := by
  constructor
  · rintro ⟨earlier, later, m, hsplit, hlater, hm, rfl⟩
    rcases List.eq_nil_or_concat' later with rfl | ⟨init, last, rfl⟩
    · rw [List.append_nil] at hsplit
      rw [← hsplit, hall] at hm
      cases hm
      exact Or.inl rfl
    · rw [← List.append_assoc] at hsplit
      obtain ⟨rfl, rfl⟩ := List.append_singleton_inj.1 hsplit
      rw [List.mem_append, List.mem_singleton, not_or] at hlater
      exact Or.inr ⟨Ne.symm hlater.2, earlier, init, m, rfl, hlater.1, hm, rfl⟩
  · rintro (rfl | ⟨hkeeps, earlier, later, m, rfl, hlater, hm, rfl⟩)
    · exact ⟨_, [], u, (List.append_nil _).symm, List.not_mem_nil, hall, rfl⟩
    · refine ⟨earlier, later ++ [operation], m, List.append_assoc .., ?_, hm, rfl⟩
      rw [List.mem_append, List.mem_singleton, not_or]
      exact ⟨hlater, Ne.symm hkeeps⟩

/-- A clearing ends the course of the lengths that count, and any other operation adds a length. -/
theorem lengthsSinceCleared_concat (hall : l.operateAll (operations ++ [operation]) = .ok u) :
    l.lengthsSinceCleared (operations ++ [operation]) =
      if operation = .edit .clear then {u.length}
      else {u.length} ∪ l.lengthsSinceCleared operations := by
  ext n
  rw [mem_lengthsSinceCleared_concat hall]
  split
  next hclear => simp [hclear]
  next hkeeps => simp [hkeeps]

/-- From a list without a free slot on, the slots are as many as the list had elements when it was
longest. -/
theorem Layout.isGreatest_slots (h : l.Layout ts) (hfull : l.slots = l.length)
    (operations : List Operation) :
    ∃ u ts', l.operateAll operations = .ok u ∧ u.Layout ts' ∧
      IsGreatest (l.lengthsSinceCleared operations) u.slots := by
  induction operations using List.reverseRecOn with
  | nil =>
    refine ⟨l, ts, rfl, h, ?_⟩
    rw [lengthsSinceCleared_nil, hfull]
    exact isGreatest_singleton
  | append_singleton operations operation ih =>
    obtain ⟨m, ts₁, hall, hlayout, hgreatest⟩ := ih
    obtain ⟨u, ts', hoperate, hlayout'⟩ := hlayout.operate operation
    have hall' : l.operateAll (operations ++ [operation]) = .ok u :=
      (operateAll_concat hall operation).trans hoperate
    refine ⟨u, ts', hall', hlayout', ?_⟩
    rw [lengthsSinceCleared_concat hall']
    split
    next hclear =>
      rw [hclear] at hoperate
      cases hoperate
      exact isGreatest_singleton
    next hkeeps =>
      rw [hlayout.slots_operate hoperate hkeeps]
      exact isGreatest_singleton.union hgreatest

/-- Whatever operations a list has gone through, its arena has as many slots as it had elements when
it was longest since it was created or cleared, and this is the number of slots that its summary
shows. -/
theorem slots_greatest_length {ceiling : Nat} (hpos : 1 ≤ ceiling) (hle : ceiling ≤ maxCeiling)
    (source : γ) (operations : List Operation) :
    ∃ empty l greatest, create ceiling source = .ok empty ∧ empty.operateAll operations = .ok l ∧
      IsGreatest (empty.lengthsSinceCleared operations) greatest ∧ l.slots = greatest ∧
      l.summary = .join
        ["SkipList \x7b len: ", toString l.length, ", level: ", toString l.level, ", max_level: ",
          toString l.ceiling, ", slots: ", toString greatest, " \x7d"] ∧
      l.Reuses := by
  obtain ⟨empty, hcreate, hlayout, -, -, harena⟩ := layout_create hpos hle source
  have hfull : empty.slots = empty.length := by
    rw [slots, harena, hlayout.length_eq]
    rfl
  obtain ⟨l, ts, hall, hlayout', hgreatest⟩ := hlayout.isGreatest_slots hfull operations
  exact ⟨empty, l, l.slots, hcreate, hall, hgreatest, rfl, rfl, hlayout'.reuses⟩

theorem slots_greatest_length_since_a_clearing :
    1 ≤ 4 ∧ 4 ≤ maxCeiling ∧
      ∃ empty l,
        create 4 (Xoshiro.ofSeed 7) = .ok empty ∧
        empty.operateAll
          [.edit (.insert [97] [1] 5), .edit (.insert [98] [2] 5), .edit (.insert [99] [3] 5),
            .edit .clear, .edit (.insert [97] [4] 5), .edit (.insert [98] [5] 5),
            .edit (.delete [97] 5), .edit (.delete [99] 5), .edit (.insert [98] [6] 5),
            .edit (.insert [99] [7] 4), .inquire .drawing] = .ok l ∧
        IsGreatest
          (empty.lengthsSinceCleared
            [.edit (.insert [97] [1] 5), .edit (.insert [98] [2] 5), .edit (.insert [99] [3] 5),
              .edit .clear, .edit (.insert [97] [4] 5), .edit (.insert [98] [5] 5),
              .edit (.delete [97] 5), .edit (.delete [99] 5), .edit (.insert [98] [6] 5),
              .edit (.insert [99] [7] 4), .inquire .drawing]) 2 ∧
        l.slots = 2 ∧ l.Reuses := by
  obtain ⟨empty, l, greatest, hcreate, hall, hgreatest, hslots, -, hreuses⟩ :=
    slots_greatest_length (show 1 ≤ 4 by decide) (by decide) (Xoshiro.ofSeed 7)
      [.edit (.insert [97] [1] 5), .edit (.insert [98] [2] 5), .edit (.insert [99] [3] 5),
        .edit .clear, .edit (.insert [97] [4] 5), .edit (.insert [98] [5] 5),
        .edit (.delete [97] 5), .edit (.delete [99] 5), .edit (.insert [98] [6] 5),
        .edit (.insert [99] [7] 4), .inquire .drawing]
  have hcount : ((create 4 (Xoshiro.ofSeed 7) >>= fun empty => empty.operateAll
      [.edit (.insert [97] [1] 5), .edit (.insert [98] [2] 5), .edit (.insert [99] [3] 5),
        .edit .clear, .edit (.insert [97] [4] 5), .edit (.insert [98] [5] 5),
        .edit (.delete [97] 5), .edit (.delete [99] 5), .edit (.insert [98] [6] 5),
        .edit (.insert [99] [7] 4), .inquire .drawing]).map slots) = .ok 2 := rfl
  rw [hcreate, Checked.ok_bind, hall] at hcount
  obtain rfl : greatest = 2 := hslots.symm.trans (Except.ok.inj hcount)
  exact ⟨by decide, by decide, empty, l, hcreate, hall, hgreatest, hslots, hreuses⟩

end ExpiringStore.SkipList
