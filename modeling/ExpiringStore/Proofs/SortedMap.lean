import Mathlib.Data.List.Sort
import Std.Data.ExtTreeMap
import ExpiringStore.Position

/-!
# Sorted maps

A finite map from positions to values, and its entries in the order of the positions. Such a map is
known by the sorted list of its entries, and an interval of positions is a segment of that list.
-/

namespace ExpiringStore

namespace Position

theorem lt_iff_not_lt_and_ne (p q : Position) : p < q ↔ ¬ q < p ∧ p ≠ q := by
  constructor
  · intro h
    exact ⟨fun h' => lt_irrefl p (lt_trans h h'), fun heq => lt_irrefl q (heq ▸ h)⟩
  · rintro ⟨hnot, hne⟩
    rcases lt_or_eq_or_lt p q with h | h | h
    · exact h
    · exact absurd h hne
    · exact absurd h hnot

theorem lt_asymm {p q : Position} (h : p < q) : ¬ q < p := ((lt_iff_not_lt_and_ne p q).1 h).1

instance : Ord Position := ⟨fun p q => compareOfLessAndEq p q⟩

theorem compare_eq_lt {p q : Position} : compare p q = .lt ↔ p < q := by
  show compareOfLessAndEq p q = .lt ↔ p < q
  unfold compareOfLessAndEq
  by_cases hlt : p < q
  · simp [hlt]
  · rw [if_neg hlt]
    split <;> simp only [hlt, reduceCtorEq]

instance : Std.TransOrd Position :=
  Std.TransOrd.compareOfLessAndEq_of_lt_trans_of_lt_iff lt_trans lt_iff_not_lt_and_ne

instance : Std.LawfulEqOrd Position where
  eq_of_compare {p q} h := by
    rcases lt_or_eq_or_lt p q with hlt | heq | hgt
    · rw [compare_eq_lt.2 hlt] at h
      cases h
    · exact heq
    · rw [Std.OrientedOrd.eq_swap, compare_eq_lt.2 hgt] at h
      cases h

end Position

/-! ### Lists in order -/

section Ordered

variable {α : Type} {keep : α → Bool} {xs : List α}

/-- If what precedes an item that is kept is kept as well, then the items that are kept stand in
front. -/
theorem takeWhile_eq_filter (h : xs.Pairwise fun x y => keep y = true → keep x = true) :
    xs.takeWhile keep = xs.filter keep := by
  induction xs with
  | nil => rfl
  | cons x xs ih =>
    obtain ⟨hx, hxs⟩ := List.pairwise_cons.1 h
    by_cases hkeep : keep x = true
    · rw [List.takeWhile_cons_of_pos hkeep, List.filter_cons_of_pos hkeep, ih hxs]
    · rw [List.takeWhile_cons_of_neg hkeep, List.filter_cons_of_neg hkeep, eq_comm,
        List.filter_eq_nil_iff]
      exact fun y hy hy' => hkeep (hx y hy hy')

theorem dropWhile_eq_filter (h : xs.Pairwise fun x y => keep y = true → keep x = true) :
    xs.dropWhile keep = xs.filter fun x => !keep x := by
  induction xs with
  | nil => rfl
  | cons x xs ih =>
    obtain ⟨hx, hxs⟩ := List.pairwise_cons.1 h
    by_cases hkeep : keep x = true
    · rw [List.dropWhile_cons_of_pos hkeep, List.filter_cons_of_neg (by simpa using hkeep), ih hxs]
    · rw [List.dropWhile_cons_of_neg hkeep, eq_comm, List.filter_eq_self]
      intro y hy
      rcases List.mem_cons.1 hy with rfl | hy
      · simpa using hkeep
      · simpa using mt (hx y hy) hkeep

end Ordered

abbrev SortedMap := Std.ExtTreeMap Position Bytes

namespace SortedMap

variable {m : SortedMap}

def entryAt? (m : SortedMap) (p : Position) : Option (Position × Bytes) :=
  m[p]?.map fun value => (p, value)

theorem entryAt?_eq_some_iff {p : Position} {entry : Position × Bytes} :
    m.entryAt? p = some entry ↔ entry ∈ m.toList ∧ entry.1 = p := by
  obtain ⟨q, value⟩ := entry
  rw [Std.ExtTreeMap.mem_toList_iff_getElem?_eq_some]
  simp only [entryAt?, Option.map_eq_some_iff, Prod.mk.injEq]
  constructor
  · rintro ⟨v, hv, rfl, rfl⟩
    exact ⟨hv, rfl⟩
  · rintro ⟨hv, rfl⟩
    exact ⟨value, hv, rfl, rfl⟩

theorem pairwise_toList (m : SortedMap) : m.toList.Pairwise fun a b => a.1 < b.1 :=
  Std.ExtTreeMap.ordered_keys_toList.imp fun h => Position.compare_eq_lt.1 h

/-- A sorted list of entries is the list of a map if it has the same entries. -/
theorem toList_eq {entries : List (Position × Bytes)}
    (hsorted : entries.Pairwise fun a b => a.1 < b.1)
    (h : ∀ p value, m[p]? = some value ↔ (p, value) ∈ entries) : m.toList = entries := by
  have hirrefl : Std.Irrefl fun a b : Position × Bytes => a.1 < b.1 :=
    ⟨fun a => Position.lt_irrefl a.1⟩
  have hantisymm : Std.Antisymm fun a b : Position × Bytes => a.1 < b.1 :=
    ⟨fun _ _ hlt hgt => absurd hgt (Position.lt_asymm hlt)⟩
  refine m.pairwise_toList.eq_of_mem_iff hsorted fun entry => ?_
  rw [Std.ExtTreeMap.mem_toList_iff_getElem?_eq_some]
  exact h entry.1 entry.2

theorem entryAt?_of_mem {entry : Position × Bytes} (h : entry ∈ m.toList) :
    m.entryAt? entry.1 = some entry := entryAt?_eq_some_iff.2 ⟨h, rfl⟩

theorem minKey?_bind_entryAt? (m : SortedMap) : m.minKey?.bind m.entryAt? = m.toList.head? := by
  rw [Std.ExtTreeMap.minKey?_eq_head?_keys, ← Std.ExtTreeMap.map_fst_toList_eq_keys,
    List.head?_map]
  cases hhead : m.toList.head? with
  | none => rfl
  | some entry => exact entryAt?_of_mem (List.mem_of_head? hhead)

theorem maxKey?_bind_entryAt? (m : SortedMap) : m.maxKey?.bind m.entryAt? = m.toList.getLast? := by
  rw [Std.ExtTreeMap.maxKey?_eq_getLast?_keys, ← Std.ExtTreeMap.map_fst_toList_eq_keys,
    List.getLast?_map]
  cases hlast : m.toList.getLast? with
  | none => rfl
  | some entry => exact entryAt?_of_mem (List.mem_of_getLast? hlast)

end SortedMap

end ExpiringStore
