import ExpiringStore.Proofs.Entries
import ExpiringStore.Proofs.KeyOrder
import ExpiringStore.Proofs.Purge

/-!
# Listings

The listing of a reference store is the only list of its live entries that goes up by position. It is
therefore what a walk along an index of the entries yields, with the expired ones left out. With
scores that keep the order of the keys, the walk to the entries under a stem may start at the stem and
end at the first key without it.
-/

namespace ExpiringStore

namespace Reference

variable {r : Reference}

theorem mem_toList_live {b : Bytes × Bytes} :
    b ∈ r.live.toList.map (fun b => (b.1, b.2.value)) ↔ r.live[b.1]?.map Entry.value = some b.2 := by
  obtain ⟨key, value⟩ := b
  rw [List.mem_map]
  constructor
  · intro ⟨⟨other, e⟩, hmem, heq⟩
    obtain ⟨rfl, rfl⟩ := Prod.mk.inj heq
    rw [Std.ExtTreeMap.mem_toList_iff_getElem?_eq_some.1 hmem]
    rfl
  · intro hvalue
    obtain ⟨e, he, rfl⟩ := Option.map_eq_some_iff.1 hvalue
    exact ⟨(key, e), Std.ExtTreeMap.mem_toList_iff_getElem?_eq_some.2 he, rfl⟩

theorem pairwise_ne_listing (r : Reference) : r.listing.Pairwise fun a b => a.1 ≠ b.1 := by
  refine (List.Perm.pairwise_iff Ne.symm (List.mergeSort_perm _ _)).2 ?_
  refine List.pairwise_map.2 (Std.ExtTreeMap.distinct_keys_toList.imp fun {a b} hab heq => ?_)
  exact hab (Std.LawfulEqOrd.compare_eq_iff_eq.2 heq)

theorem pairwise_listing (r : Reference) :
    r.listing.Pairwise fun a b => r.scoreMode.position a.1 < r.scoreMode.position b.1 := by
  have hle : r.listing.Pairwise fun a b =>
      (!decide (r.scoreMode.position b.1 < r.scoreMode.position a.1)) = true := by
    refine List.pairwise_mergeSort ?_ ?_ _
    · intro a b c hab hbc
      simp only [Bool.not_eq_true', decide_eq_false_iff_not] at hab hbc ⊢
      intro hca
      rcases Position.lt_or_eq_or_lt (r.scoreMode.position a.1) (r.scoreMode.position b.1) with
        hlt | heq | hgt
      · exact hbc (Position.lt_trans hca hlt)
      · exact hbc (heq ▸ hca)
      · exact hab hgt
    · intro a b
      simp only [Bool.or_eq_true, Bool.not_eq_true', decide_eq_false_iff_not]
      by_cases hba : r.scoreMode.position b.1 < r.scoreMode.position a.1
      · exact Or.inr (Position.lt_asymm hba)
      · exact Or.inl hba
  refine (hle.and r.pairwise_ne_listing).imp fun {a b} ⟨hab, hne⟩ => ?_
  simp only [Bool.not_eq_true', decide_eq_false_iff_not] at hab
  rcases Position.lt_or_eq_or_lt (r.scoreMode.position a.1) (r.scoreMode.position b.1) with
    hlt | heq | hgt
  · exact hlt
  · exact absurd (ScoreMode.position_inj.1 heq) hne
  · exact absurd hgt hab

theorem mem_listing {b : Bytes × Bytes} :
    b ∈ r.listing ↔ r.live[b.1]?.map Entry.value = some b.2 := by
  rw [listing, (List.mergeSort_perm _ _).mem_iff, mem_toList_live]

theorem listing_eq {bs : List (Bytes × Bytes)}
    (hsorted : bs.Pairwise fun a b => r.scoreMode.position a.1 < r.scoreMode.position b.1)
    (h : ∀ b, b ∈ bs ↔ r.live[b.1]?.map Entry.value = some b.2) : r.listing = bs := by
  have hirrefl : Std.Irrefl fun a b : Bytes × Bytes =>
      r.scoreMode.position a.1 < r.scoreMode.position b.1 := ⟨fun a => Position.lt_irrefl _⟩
  have hantisymm : Std.Antisymm fun a b : Bytes × Bytes =>
      r.scoreMode.position a.1 < r.scoreMode.position b.1 :=
    ⟨fun _ _ hlt hgt => absurd hgt (Position.lt_asymm hlt)⟩
  exact r.pairwise_listing.eq_of_mem_iff hsorted fun b => mem_listing.trans (h b).symm

theorem listing_eq_contents (r : Reference) :
    r.listing = ((r.entries.contents r.scoreMode).toList.filter fun b =>
      r.entries[b.1.key]?.all (Entry.liveAt r.now)).map fun b => (b.1.key, b.2) := by
  apply listing_eq
  · refine List.pairwise_map.2 (((SortedMap.pairwise_toList _).filter _).imp_of_mem ?_)
    intro a b ha hb hlt
    have ha' := (Entries.mem_toList_contents.1 (List.mem_filter.1 ha).1).1
    have hb' := (Entries.mem_toList_contents.1 (List.mem_filter.1 hb).1).1
    rw [ha', hb']
    exact hlt
  · intro ⟨key, value⟩
    rw [getElem?_live, List.mem_map]
    constructor
    · intro ⟨b, hb, heq⟩
      obtain ⟨rfl, rfl⟩ := Prod.mk.inj heq
      obtain ⟨hmem, hlive⟩ := List.mem_filter.1 hb
      have hvalue := (Entries.mem_toList_contents.1 hmem).2
      cases hget : r.entries[b.1.key]? with
      | none =>
        rw [hget] at hvalue
        cases hvalue
      | some e =>
        rw [hget] at hvalue hlive
        simpa [Option.filter, show e.liveAt r.now = true from hlive] using hvalue
    · intro hvalue
      obtain ⟨e, he, hev⟩ := Option.map_eq_some_iff.1 hvalue
      obtain ⟨hget, hlive⟩ := Option.filter_eq_some_iff.1 he
      refine ⟨(r.scoreMode.position key, value), List.mem_filter.2 ⟨?_, ?_⟩, rfl⟩
      · refine Entries.mem_toList_contents.2 ⟨rfl, ?_⟩
        show r.entries[key]?.map Entry.value = some value
        rw [hget, Option.map_some, hev]
      · show r.entries[key]?.all (Entry.liveAt r.now) = true
        rw [hget]
        exact hlive

end Reference

/-! ### Maps of listed entries -/

theorem getElem?_ofList_eq_some_iff {bs : List (Bytes × Bytes)}
    (hdistinct : bs.Pairwise fun a b => a.1 ≠ b.1) {key value : Bytes} :
    (Std.ExtTreeMap.ofList bs)[key]? = some value ↔ (key, value) ∈ bs := by
  have hcompare : bs.Pairwise fun a b => ¬ compare a.1 b.1 = .eq :=
    hdistinct.imp fun hne heq => hne (Std.LawfulEqOrd.compare_eq_iff_eq.1 heq)
  constructor
  · intro hget
    by_cases hkey : key ∈ bs.map Prod.fst
    · obtain ⟨⟨other, found⟩, hfound, rfl⟩ := List.mem_map.1 hkey
      rw [Std.ExtTreeMap.getElem?_ofList_of_mem Std.ReflOrd.compare_self hcompare hfound,
        Option.some.injEq] at hget
      exact hget ▸ hfound
    · rw [Std.ExtTreeMap.getElem?_ofList_of_contains_eq_false] at hget
      · cases hget
      · rw [List.contains_eq_mem, decide_eq_false_iff_not]
        exact hkey
  · exact Std.ExtTreeMap.getElem?_ofList_of_mem Std.ReflOrd.compare_self hcompare

/-! ### Keys under a stem -/

/-- In a list that goes up by key, the items under a stem are those from the stem on, up to the first
one whose key does not start with it. -/
theorem takeWhile_from_stem {α : Type} {key : α → Bytes} {xs : List α}
    (hsorted : xs.Pairwise fun x y => key x < key y) (stem : Bytes) :
    ((xs.filter fun x => !decide (key x < stem)).takeWhile fun x => stem.isPrefixOf (key x)) =
      xs.filter fun x => stem.isPrefixOf (key x) := by
  rw [takeWhile_eq_filter, List.filter_filter]
  · refine List.filter_congr fun x _ => ?_
    by_cases hunder : stem <+: key x
    · simp [not_lt_stem hunder]
    · have hfalse : stem.isPrefixOf (key x) = false := by
        rw [← Bool.not_eq_true, List.isPrefixOf_iff_prefix]
        exact hunder
      rw [hfalse, Bool.false_and]
  · refine (hsorted.filter _).imp_of_mem fun {x y} hx _ hlt hunder => ?_
    obtain ⟨-, hstem⟩ := List.mem_filter.1 hx
    rw [Bool.not_eq_true', decide_eq_false_iff_not] at hstem
    rw [List.isPrefixOf_iff_prefix] at hunder ⊢
    exact startsWith_of_between hstem hlt hunder

end ExpiringStore
