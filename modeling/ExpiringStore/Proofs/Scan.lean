import ExpiringStore.Proofs.Events
import ExpiringStore.Proofs.Visibility

/-!
# Scans

A scan yields the live entries whose key starts with a stem. With scores that keep the order of the
keys it seeks to the stem and ends at the first key without it, and with other scores it looks at the
whole index. Either way it finds what a walk along the whole index would find, the first of them if
there is a limit, and entries that have expired count for nothing.

## Main definitions

* `Store.Lists`: the entries that readers see, in the order of the index.
* `Store.walkUnder`, `Store.ScansFirst`: the walk along the whole index, and scans that take the first
  of what it meets.
-/

namespace ExpiringStore

namespace SkipList

variable {α : Type} {limit : Nat} {xs : List α}

theorem capped_sublist (limit : Nat) (xs : List α) : (capped limit xs).Sublist xs := by
  unfold capped
  split
  · exact List.Sublist.refl xs
  · exact List.take_sublist limit xs

/-- In a list in order, what the limit leaves out stands behind everything that it lets through. -/
theorem rel_of_mem_capped {R : α → α → Prop} (hsorted : xs.Pairwise R) {x y : α}
    (hx : x ∈ capped limit xs) (hy : y ∈ xs) (hout : y ∉ capped limit xs) : R x y := by
  unfold capped at hx hout
  split at hx
  next hzero =>
    rw [if_pos hzero] at hout
    exact absurd hy hout
  next hlimit =>
    rw [if_neg hlimit] at hout
    rw [← List.take_append_drop limit xs] at hsorted hy
    exact (List.pairwise_append.1 hsorted).2.2 x hx y ((List.mem_append.1 hy).resolve_left hout)

end SkipList

namespace Store

variable {γ : Type} {s : Store γ} {r : Reference} {es : List Element}

/-- `es` are the entries of `s` that readers see, with their values, in the order of the index. -/
structure Lists (s : Store γ) (es : List Element) : Prop where
  liveEntries_eq : s.liveEntries = .ok es
  sorted : es.Pairwise fun d e => s.position d.key < s.position e.key
  sorted_keys : s.scoreMode = .ordered → es.Pairwise fun d e => d.key < e.key
  get_iff : ∀ key value, (∃ s', s.get key = .ok (some value, s')) ↔
    ∃ e ∈ es, e.key = key ∧ e.value = value

/-- The live entries under a stem that a walk along the whole index meets. -/
def walkUnder (s : Store γ) (stem : Bytes) : Checked (List Element) := do
  return (← s.liveEntries).filter fun e => stem.isPrefixOf e.key

/-- A scan with this limit takes the entries `first` of the entries `under`. -/
structure ScansFirst (s : Store γ) (stem : Bytes) (limit : Nat) (under first : List Element) :
    Prop where
  first_eq : first = if limit = 0 then under else under.take limit
  scanEntries_eq : s.scanEntries stem limit = .ok first
  scan : ∃ found, s.scan stem limit = .ok found ∧ ∀ key value : Bytes, found[key]? = some value ↔
    ∃ e ∈ first, e.key = key ∧ e.value = value
  least : s.scoreMode = .ordered → ∀ d ∈ first, ∀ e ∈ under, e ∉ first → d.key < e.key

namespace Shows

theorem mem_listing_iff (h : s.Shows r) {key value : Bytes} :
    (key, value) ∈ r.listing ↔ ∃ s', s.get key = .ok (some value, s') := by
  obtain ⟨s', hget, -⟩ := h.get key
  rw [Reference.mem_listing, ← Reference.get_fst]
  constructor
  · intro hvalue
    rw [hvalue] at hget
    exact ⟨s', hget⟩
  · rintro ⟨t, ht⟩
    rw [hget] at ht
    exact congrArg Prod.fst (Except.ok.inj ht)

theorem lists (h : s.Shows r) (hlive : s.liveEntries = .ok es)
    (hes : es.map (fun e => (e.key, e.value)) = r.listing) : s.Lists es := by
  have hsorted : es.Pairwise fun d e => s.position d.key < s.position e.key := by
    have hlisting := r.pairwise_listing
    rw [← hes, List.pairwise_map] at hlisting
    simp only [h.position_eq]
    exact hlisting
  constructor
  case liveEntries_eq => exact hlive
  case sorted => exact hsorted
  case sorted_keys =>
    intro hmode
    simp only [position, hmode, position_ordered_lt_iff] at hsorted
    exact hsorted
  case get_iff =>
    intro key value
    rw [← h.mem_listing_iff, ← hes, List.mem_map]
    simp only [Prod.mk.injEq]

end Shows

/-- A scan finds what the walk along the whole index finds, and takes the first of it. -/
theorem Shows.scansFirst (h : s.Shows r) (stem : Bytes) (limit : Nat) :
    ∃ under first, s.walkUnder stem = .ok under ∧ s.ScansFirst stem limit under first := by
  obtain ⟨es, hlive, hes, hscan⟩ := h.scanEntries stem limit
  have hlists := h.lists hlive hes
  refine ⟨es.filter fun e => stem.isPrefixOf e.key,
    SkipList.capped limit (es.filter fun e => stem.isPrefixOf e.key), ?_, ?_⟩
  · simp only [walkUnder, hlive, Checked.ok_bind]
    rfl
  constructor
  case first_eq => rfl
  case scanEntries_eq => exact hscan
  case scan =>
    have hdistinct : ((SkipList.capped limit (es.filter fun e => stem.isPrefixOf e.key)).map
        fun e => (e.key, e.value)).Pairwise fun a b => a.1 ≠ b.1 := by
      have hsorted := (hlists.sorted.filter fun e => stem.isPrefixOf e.key).sublist
        (SkipList.capped_sublist limit _)
      refine List.pairwise_map.2 (hsorted.imp fun {d e} hlt hkey => ?_)
      have hkey' : d.key = e.key := hkey
      rw [hkey'] at hlt
      exact Position.lt_irrefl _ hlt
    refine ⟨_, by simp only [Store.scan, hscan, Checked.ok_bind]; rfl, fun key value => ?_⟩
    rw [getElem?_ofList_eq_some_iff hdistinct, List.mem_map]
    simp only [Prod.mk.injEq]
  case least =>
    intro hmode d hd e he hout
    exact SkipList.rel_of_mem_capped ((hlists.sorted_keys hmode).filter _) hd he hout

end Store

/-- Whatever has happened to a store with a valid configuration, a scan of it yields what a walk along
the whole index would find under the stem, the first entries up to the limit. -/
theorem scans_take_first {γ : Type} [WordSource γ] {config : Config}
    (hvalid : config.check = .ok ()) (source : γ) (events : List Event) :
    ∃ s t es, Store.create .present config source = .ok (.ok s) ∧ s.handleAll events = .ok t ∧
      t.scoreMode = config.scoreMode ∧ t.Lists es ∧
      ∀ stem limit, ∃ under first, t.walkUnder stem = .ok under ∧
        t.ScansFirst stem limit under first := by
  obtain ⟨s, t, r, hcreate, hall, hshows, hsettings⟩ := Store.shows_handleAll hvalid source events
  obtain ⟨es, hlive, hes⟩ := hshows.liveEntries
  refine ⟨s, t, es, hcreate, hall, ?_, hshows.lists hlive hes, hshows.scansFirst⟩
  rw [hshows.scoreMode_eq]
  exact congrArg Prod.fst hsettings

/-- The expired entry is passed over and does not count. -/
theorem scans_take_first_two_under_a_long_stem :
    Config.check { scoreMode := .ordered, ceiling := 3 } = .ok () ∧
      ∃ s t es,
        Store.create .present { scoreMode := .ordered, ceiling := 3 } (Xoshiro.ofSeed 6) =
          .ok (.ok s) ∧
        s.handleAll
          [.command (.set [1, 0, 0, 0, 0, 0, 0, 255, 0, 7] [1]),
            .command (.setWithTtl [1, 0, 0, 0, 0, 0, 0, 255, 0, 0] [2] 5),
            .command (.set [1, 0, 0, 0, 0, 0, 0, 255, 0, 9] [3]), .command (.set [1] [4]),
            .command (.set [1, 0, 0, 0, 0, 0, 0, 255, 0] [5]),
            .command (.set [1, 0, 0, 0, 0, 0, 0, 255, 1] [6]), .command (.advance 5)] = .ok t ∧
        t.scoreMode = .ordered ∧ t.Lists es ∧
        ∃ under first, t.walkUnder [1, 0, 0, 0, 0, 0, 0, 255, 0] = .ok under ∧
          t.ScansFirst [1, 0, 0, 0, 0, 0, 0, 255, 0] 2 under first ∧
          first.map (fun e => (e.key, e.value)) =
            [([1, 0, 0, 0, 0, 0, 0, 255, 0], [5]), ([1, 0, 0, 0, 0, 0, 0, 255, 0, 7], [1])] ∧
          under.map Element.value = [[5], [1], [3]] := by
  have hvalid : Config.check { scoreMode := .ordered, ceiling := 3 } = .ok () := by decide
  obtain ⟨s, t, es, hcreate, hall, hmode, hlists, hscans⟩ :=
    scans_take_first hvalid (Xoshiro.ofSeed 6)
      [.command (.set [1, 0, 0, 0, 0, 0, 0, 255, 0, 7] [1]),
        .command (.setWithTtl [1, 0, 0, 0, 0, 0, 0, 255, 0, 0] [2] 5),
        .command (.set [1, 0, 0, 0, 0, 0, 0, 255, 0, 9] [3]), .command (.set [1] [4]),
        .command (.set [1, 0, 0, 0, 0, 0, 0, 255, 0] [5]),
        .command (.set [1, 0, 0, 0, 0, 0, 0, 255, 1] [6]), .command (.advance 5)]
  obtain ⟨under, first, hwalk, hfirst⟩ := hscans [1, 0, 0, 0, 0, 0, 0, 255, 0] 2
  -- the entries under the stem are read off the run, and the first two of them off these
  have hunder : (do
      match ← Store.create .present { scoreMode := .ordered, ceiling := 3 } (Xoshiro.ofSeed 6) with
      | .error _ => return []
      | .ok s =>
        let t ← s.handleAll
          [.command (.set [1, 0, 0, 0, 0, 0, 0, 255, 0, 7] [1]),
            .command (.setWithTtl [1, 0, 0, 0, 0, 0, 0, 255, 0, 0] [2] 5),
            .command (.set [1, 0, 0, 0, 0, 0, 0, 255, 0, 9] [3]), .command (.set [1] [4]),
            .command (.set [1, 0, 0, 0, 0, 0, 0, 255, 0] [5]),
            .command (.set [1, 0, 0, 0, 0, 0, 0, 255, 1] [6]), .command (.advance 5)]
        return (← t.walkUnder [1, 0, 0, 0, 0, 0, 0, 255, 0]).map fun e => (e.key, e.value) :
      Checked (List (Bytes × Bytes))) =
    .ok [([1, 0, 0, 0, 0, 0, 0, 255, 0], [5]), ([1, 0, 0, 0, 0, 0, 0, 255, 0, 7], [1]),
      ([1, 0, 0, 0, 0, 0, 0, 255, 0, 9], [3])] := by decide +kernel
  simp only [hcreate, Checked.ok_bind, hall, hwalk] at hunder
  have hbindings := Except.ok.inj hunder
  refine ⟨hvalid, s, t, es, hcreate, hall, hmode, hlists, under, first, hwalk, hfirst, ?_, ?_⟩
  · rw [hfirst.first_eq, if_neg (by decide), List.map_take, hbindings]
    rfl
  · have hvalues := congrArg (List.map Prod.snd) hbindings
    rw [List.map_map] at hvalues
    exact hvalues

end ExpiringStore
