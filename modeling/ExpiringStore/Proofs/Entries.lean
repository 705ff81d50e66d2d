import ExpiringStore.Proofs.Reference
import ExpiringStore.Proofs.SortedMap

/-!
# One map and the two tables of a store

A store keeps its entries in two tables: the index has the values by position, and a table beside it
has the deadlines by key. Both are functions of the one map of the reference store, and a change of
that map is a change of each.
-/

namespace ExpiringStore

theorem ScoreMode.position_inj {mode : ScoreMode} {a b : Bytes} :
    mode.position a = mode.position b ↔ a = b := by
  constructor
  · intro h
    exact congrArg Position.key h
  · intro h
    rw [h]

namespace Entries

/-- The map that an index of the entries holds. -/
def contents (mode : ScoreMode) (entries : Entries) : SortedMap :=
  .ofList (entries.toList.map fun b => (mode.position b.1, b.2.value))

def deadlines (entries : Entries) : Deadlines := entries.filterMap fun _ e => e.deadline?

variable {mode : ScoreMode} {entries : Entries}

/-! ### Looking up -/

theorem getElem?_contents (mode : ScoreMode) (entries : Entries) (p : Position) :
    (entries.contents mode)[p]? =
      if mode.position p.key = p then entries[p.key]?.map Entry.value else none := by
  have hnone (hfree : ∀ key e, entries[key]? = some e → mode.position key ≠ p) :
      (entries.contents mode)[p]? = none := by
    apply Std.ExtTreeMap.getElem?_ofList_of_contains_eq_false
    simp only [List.map_map, List.contains_eq_mem, List.mem_map, Function.comp_apply,
      decide_eq_false_iff_not]
    intro ⟨b, hb, hposition⟩
    exact hfree b.1 b.2 (Std.ExtTreeMap.mem_toList_iff_getElem?_eq_some.1 hb) hposition
  by_cases hp : mode.position p.key = p
  · rw [if_pos hp]
    cases hget : entries[p.key]? with
    | none =>
      apply hnone
      intro key e hkey hposition
      have hkey' : key = p.key := by rw [← hposition]; rfl
      rw [hkey', hget] at hkey
      cases hkey
    | some e =>
      apply Std.ExtTreeMap.getElem?_ofList_of_mem Std.ReflOrd.compare_self
      · refine List.pairwise_map.2 (Std.ExtTreeMap.distinct_keys_toList.imp fun {a b} hne heq => ?_)
        rw [Std.LawfulEqOrd.compare_eq_iff_eq, ScoreMode.position_inj] at heq
        exact hne (Std.LawfulEqOrd.compare_eq_iff_eq.2 heq)
      · refine List.mem_map.2 ⟨(p.key, e), ?_, by rw [hp]⟩
        exact Std.ExtTreeMap.mem_toList_iff_getElem?_eq_some.2 hget
  · rw [if_neg hp]
    apply hnone
    intro key e _ hposition
    apply hp
    rw [← hposition]
    rfl

theorem getElem?_contents_position (mode : ScoreMode) (entries : Entries) (key : Bytes) :
    (entries.contents mode)[mode.position key]? = entries[key]?.map Entry.value := by
  rw [getElem?_contents]
  exact if_pos rfl

theorem mem_contents_position (mode : ScoreMode) (entries : Entries) (key : Bytes) :
    mode.position key ∈ entries.contents mode ↔ key ∈ entries := by
  rw [Std.ExtTreeMap.mem_iff_isSome_getElem?, getElem?_contents_position, Option.isSome_map,
    ← Std.ExtTreeMap.mem_iff_isSome_getElem?]

theorem mem_toList_contents {b : Position × Bytes} :
    b ∈ (entries.contents mode).toList ↔
      mode.position b.1.key = b.1 ∧ entries[b.1.key]?.map Entry.value = some b.2 := by
  rw [Std.ExtTreeMap.mem_toList_iff_getElem?_eq_some, getElem?_contents]
  split
  next h => simp [h]
  next h => simp [h]

theorem getElem?_deadlines (entries : Entries) (key : Bytes) :
    entries.deadlines[key]? = entries[key]?.bind Entry.deadline? :=
  Std.ExtTreeMap.getElem?_filterMap'

theorem live_deadlines (entries : Entries) (now : Instant) (key : Bytes) :
    entries.deadlines.live now key = entries[key]?.all (Entry.liveAt now) := by
  rw [Deadlines.live, getElem?_deadlines]
  cases entries[key]? with
  | none => rfl
  | some e =>
    simp only [Option.bind_some, Option.all_some, Entry.liveAt]
    cases e.deadline? <;> rfl

/-! ### Changing -/

theorem getElem?_insert_of_ne {key other : Bytes} (hother : other ≠ key) (e : Entry) :
    (entries.insert other e)[key]? = entries[key]? := by
  rw [Std.ExtTreeMap.getElem?_insert, if_neg (mt Std.LawfulEqOrd.compare_eq_iff_eq.1 hother)]

theorem getElem?_erase_of_ne {key other : Bytes} (hother : other ≠ key) :
    (entries.erase other)[key]? = entries[key]? := by
  rw [Std.ExtTreeMap.getElem?_erase, if_neg (mt Std.LawfulEqOrd.compare_eq_iff_eq.1 hother)]

theorem contents_insert (mode : ScoreMode) (entries : Entries) (key : Bytes) (e : Entry) :
    contents mode (entries.insert key e) =
      (entries.contents mode).insert (mode.position key) e.value := by
  apply Std.ExtTreeMap.ext_getElem?
  intro p
  rw [getElem?_contents, Std.ExtTreeMap.getElem?_insert, Std.ExtTreeMap.getElem?_insert,
    getElem?_contents]
  simp only [Std.LawfulEqOrd.compare_eq_iff_eq]
  by_cases hkey : key = p.key
  · subst hkey
    by_cases hp : mode.position p.key = p <;> simp [hp]
  · have hp : mode.position key ≠ p := fun h => hkey (by rw [← h]; rfl)
    simp [hkey, hp]

theorem contents_insert_of_value_eq (mode : ScoreMode) {entries : Entries} {key : Bytes}
    {e e' : Entry} (hget : entries[key]? = some e) (hvalue : e'.value = e.value) :
    contents mode (entries.insert key e') = entries.contents mode := by
  rw [contents_insert]
  apply Std.ExtTreeMap.ext_getElem?
  intro p
  rw [Std.ExtTreeMap.getElem?_insert]
  simp only [Std.LawfulEqOrd.compare_eq_iff_eq]
  split
  next hp => rw [← hp, getElem?_contents_position, hget, Option.map_some, hvalue]
  next => rfl

theorem contents_erase (mode : ScoreMode) (entries : Entries) (key : Bytes) :
    contents mode (entries.erase key) = (entries.contents mode).erase (mode.position key) := by
  apply Std.ExtTreeMap.ext_getElem?
  intro p
  rw [getElem?_contents, Std.ExtTreeMap.getElem?_erase, Std.ExtTreeMap.getElem?_erase,
    getElem?_contents]
  simp only [Std.LawfulEqOrd.compare_eq_iff_eq]
  by_cases hkey : key = p.key
  · subst hkey
    by_cases hp : mode.position p.key = p <;> simp [hp]
  · have hp : mode.position key ≠ p := fun h => hkey (by rw [← h]; rfl)
    simp [hkey, hp]

theorem contents_empty (mode : ScoreMode) : contents mode ∅ = ∅ := by
  apply Std.ExtTreeMap.ext_getElem?
  intro p
  rw [getElem?_contents]
  simp

theorem deadlines_insert (entries : Entries) (key : Bytes) (e : Entry) :
    deadlines (entries.insert key e) = entries.deadlines.assign key e.deadline? := by
  apply Std.ExtTreeMap.ext_getElem?
  intro other
  rw [getElem?_deadlines, Deadlines.getElem?_assign, Std.ExtTreeMap.getElem?_insert,
    getElem?_deadlines]
  simp only [Std.LawfulEqOrd.compare_eq_iff_eq]
  split <;> rfl

theorem deadlines_erase (entries : Entries) (key : Bytes) :
    deadlines (entries.erase key) = entries.deadlines.erase key := by
  apply Std.ExtTreeMap.ext_getElem?
  intro other
  rw [getElem?_deadlines, Std.ExtTreeMap.getElem?_erase, Std.ExtTreeMap.getElem?_erase,
    getElem?_deadlines]
  split <;> rfl

theorem deadlines_filter_live (entries : Entries) (now : Instant) :
    deadlines (entries.filter fun _ e => e.liveAt now) =
      entries.deadlines.filter fun _ deadline => decide (now < deadline) := by
  apply Std.ExtTreeMap.ext_getElem?
  intro key
  rw [getElem?_deadlines, Std.ExtTreeMap.getElem?_filter', Std.ExtTreeMap.getElem?_filter',
    getElem?_deadlines]
  cases entries[key]? with
  | none => rfl
  | some e =>
    cases hdeadline : e.deadline? with
    | none => simp [Entry.liveAt, hdeadline, Option.filter]
    | some deadline =>
      by_cases hlt : now < deadline <;> simp [Entry.liveAt, hdeadline, Option.filter, hlt]

theorem deadlines_empty : deadlines ∅ = ∅ := by
  apply Std.ExtTreeMap.ext_getElem?
  intro other
  rw [getElem?_deadlines]
  simp

/-! ### Sizes -/

theorem size_contents (mode : ScoreMode) (entries : Entries) :
    (entries.contents mode).size = entries.size := by
  have hperm : (entries.contents mode).keys.Perm (entries.keys.map mode.position) := by
    refine (List.perm_ext_iff_of_nodup Std.ExtTreeMap.nodup_keys ?_).2 fun p => ?_
    · exact Std.ExtTreeMap.nodup_keys.map fun _ _ h => ScoreMode.position_inj.1 h
    · rw [Std.ExtTreeMap.mem_keys, List.mem_map]
      constructor
      · intro hp
        have hposition : mode.position p.key = p := by
          rw [Std.ExtTreeMap.mem_iff_isSome_getElem?, getElem?_contents] at hp
          by_contra hne
          rw [if_neg hne] at hp
          cases hp
        rw [← hposition, mem_contents_position] at hp
        exact ⟨p.key, Std.ExtTreeMap.mem_keys.2 hp, hposition⟩
      · intro ⟨key, hkey, hposition⟩
        rw [← hposition, mem_contents_position]
        exact Std.ExtTreeMap.mem_keys.1 hkey
  rw [← Std.ExtTreeMap.length_keys, hperm.length_eq, List.length_map, Std.ExtTreeMap.length_keys]

theorem size_eq_of_mem_iff {α β : Type} {m : Std.ExtTreeMap Bytes α} {n : Std.ExtTreeMap Bytes β}
    (h : ∀ key, key ∈ m ↔ key ∈ n) : m.size = n.size := by
  rw [← Std.ExtTreeMap.length_keys, ← Std.ExtTreeMap.length_keys]
  refine List.Perm.length_eq ((List.perm_ext_iff_of_nodup Std.ExtTreeMap.nodup_keys
    Std.ExtTreeMap.nodup_keys).2 fun key => ?_)
  rw [Std.ExtTreeMap.mem_keys, Std.ExtTreeMap.mem_keys]
  exact h key

theorem size_eq_size_filter_add {α : Type} (m : Std.ExtTreeMap Bytes α) (keep : Bytes → α → Bool) :
    m.size = (m.filter keep).size + (m.filter fun key x => !keep key x).size := by
  simp only [← Std.ExtTreeMap.length_toList, Std.ExtTreeMap.toList_filter]
  exact List.length_eq_length_filter_add fun b : Bytes × α => keep b.1 b.2

theorem size_deadlines (entries : Entries) :
    entries.deadlines.size = (entries.filter fun _ e => e.deadline?.isSome).size := by
  refine size_eq_of_mem_iff fun key => ?_
  rw [Std.ExtTreeMap.mem_iff_isSome_getElem?, Std.ExtTreeMap.mem_iff_isSome_getElem?,
    getElem?_deadlines, Std.ExtTreeMap.getElem?_filter']
  cases entries[key]? with
  | none => rfl
  | some e => cases hdeadline : e.deadline? <;> simp [hdeadline, Option.filter]

end Entries

end ExpiringStore
