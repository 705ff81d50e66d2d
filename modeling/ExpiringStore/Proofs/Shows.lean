import ExpiringStore.Proofs.Denotes
import ExpiringStore.Proofs.Listing

/-!
# A store and its reference: removal of what has expired

A store shows a reference store if its index and its deadlines are the two tables of the reference
map, and everything else is the same. Removing a list of keys, one after the other, shows one purge of
the map, so the background work of the store shows that of the reference.
-/

namespace ExpiringStore

/-! ### Elements that hold the entries of a map -/

namespace Entries

variable {mode : ScoreMode} {entries : Entries} {es : List Element}

theorem position_of_mem (hes : es.map Element.binding = (entries.contents mode).toList) {e : Element}
    (he : e ∈ es) : e.position = mode.position e.key := by
  have hmem : e.binding ∈ (entries.contents mode).toList := hes ▸ List.mem_map_of_mem he
  exact (mem_toList_contents.1 hmem).1.symm

theorem exists_element_iff (hes : es.map Element.binding = (entries.contents mode).toList)
    {key value : Bytes} :
    (∃ e ∈ es, e.key = key ∧ e.value = value) ↔ entries[key]?.map Entry.value = some value := by
  constructor
  · rintro ⟨e, he, rfl, rfl⟩
    have hmem : e.binding ∈ (entries.contents mode).toList := hes ▸ List.mem_map_of_mem he
    exact (mem_toList_contents.1 hmem).2
  · intro hvalue
    have hmem : (mode.position key, value) ∈ (entries.contents mode).toList :=
      mem_toList_contents.2 ⟨rfl, hvalue⟩
    rw [← hes, List.mem_map] at hmem
    obtain ⟨e, he, hbinding⟩ := hmem
    exact ⟨e, he, congrArg (fun b => b.1.key) hbinding, congrArg Prod.snd hbinding⟩

theorem pairwise_position_of_contents
    (hes : es.map Element.binding = (entries.contents mode).toList) :
    es.Pairwise fun d e => d.position < e.position := by
  have hsorted := SortedMap.pairwise_toList (entries.contents mode)
  rw [← hes, List.pairwise_map] at hsorted
  exact hsorted

theorem nodup_keys_of_contents (hes : es.map Element.binding = (entries.contents mode).toList) :
    (es.map Element.key).Nodup := by
  refine List.pairwise_map.2 ((pairwise_position_of_contents hes).imp_of_mem ?_)
  intro d e hd he hlt hkey
  rw [position_of_mem hes hd, position_of_mem hes he, hkey] at hlt
  exact Position.lt_irrefl _ hlt

/-- With scores that keep the order of the keys, the elements go up by key. -/
theorem pairwise_key_of_contents
    (hes : es.map Element.binding = (entries.contents .ordered).toList) :
    es.Pairwise fun d e => d.key < e.key := by
  refine (pairwise_position_of_contents hes).imp_of_mem fun {d e} hd he hlt => ?_
  rw [position_of_mem hes hd, position_of_mem hes he] at hlt
  exact position_ordered_lt_iff.1 hlt

end Entries

/-! ### What a store shows -/

namespace Store

variable {γ : Type} {s : Store γ} {r : Reference}

/-- The store `s` keeps in its tables what the reference store `r` keeps in its map. -/
structure Shows (s : Store γ) (r : Reference) : Prop where
  index : s.index.Denotes (r.entries.contents r.scoreMode)
  deadlines_eq : s.deadlines = r.entries.deadlines
  scoreMode_eq : s.scoreMode = r.scoreMode
  eviction_eq : s.eviction = r.eviction
  tally_eq : s.tally = r.tally
  queue_eq : s.queue = r.queue
  sweeper_eq : s.sweeper = r.sweeper
  now_eq : s.now = r.now

theorem shows_create {config : Config} (hvalid : config.check = .ok ()) (source : γ) :
    ∃ s, create .present config source = .ok (.ok s) ∧ s.Shows (.create config) := by
  obtain ⟨-, hpos, hle⟩ := (Config.check_eq_ok_iff config).1 hvalid
  obtain ⟨index, hcreate, hdenotes⟩ := SkipList.denotes_create hpos hle source
  refine ⟨_, by simp only [create, hvalid, hcreate, Checked.ok_bind]; rfl, ?_⟩
  refine ⟨?_, Entries.deadlines_empty.symm, rfl, rfl, rfl, rfl, rfl, rfl⟩
  show index.Denotes (Entries.contents config.scoreMode ∅)
  rw [Entries.contents_empty]
  exact hdenotes

namespace Shows

theorem isLive_eq (h : s.Shows r) (key : Bytes) :
    s.isLive key = r.entries[key]?.all (Entry.liveAt r.now) := by
  rw [isLive, h.deadlines_eq, h.now_eq, Entries.live_deadlines]

theorem position_eq (h : s.Shows r) (key : Bytes) :
    s.position key = r.scoreMode.position key := by
  rw [position, h.scoreMode_eq]

theorem length_eq (h : s.Shows r) : s.length = r.entries.size := by
  rw [length, h.index.length_eq, Entries.size_contents]

theorem entry?_eq (h : s.Shows r) (key : Bytes) :
    ∃ e?, s.entry? key = .ok e? ∧ e?.map Element.value = r.entries[key]?.map Entry.value := by
  obtain ⟨e?, hsearch, hvalue⟩ := h.index.search (s.position key)
  refine ⟨e?, hsearch, ?_⟩
  rw [hvalue, h.position_eq, Entries.getElem?_contents_position]

/-! ### Removing keys -/

theorem erase (h : s.Shows r) (key : Bytes) :
    ∃ removed index, s.index.delete key (s.scoreOf key) = .ok (removed, index) ∧
      removed.isSome = r.entries.contains key ∧
      Shows { s with index, deadlines := s.deadlines.erase key }
        { r with entries := r.entries.erase key } := by
  obtain ⟨removed, index, hdelete, hsome, hdenotes⟩ := h.index.delete key (s.scoreOf key)
  have hposition : (⟨s.scoreOf key, key⟩ : Position) = r.scoreMode.position key :=
    h.position_eq key
  rw [hposition] at hsome hdenotes
  refine ⟨removed, index, hdelete, ?_, { h with index := ?_, deadlines_eq := ?_ }⟩
  · rw [hsome, Bool.eq_iff_iff, decide_eq_true_iff, Entries.mem_contents_position,
      Std.ExtTreeMap.contains_iff_mem]
  · show index.Denotes (Entries.contents r.scoreMode (r.entries.erase key))
    rw [Entries.contents_erase]
    exact hdenotes
  · show s.deadlines.erase key = Entries.deadlines (r.entries.erase key)
    rw [Entries.deadlines_erase, h.deadlines_eq]

theorem evict (h : s.Shows r) (key : Bytes) :
    ∃ removed s', s.evict key = .ok (removed, s') ∧
      removed.toNat = (r.purge fun other => other == key).1 ∧
      s'.Shows (r.purge fun other => other == key).2 := by
  have hlive := h.isLive_eq key
  by_cases hkeep : r.entries[key]?.all (Entry.liveAt r.now) = true
  · have hpurge : r.purge (fun other => other == key) = (0, r) := by
      apply Reference.purge_none
      intro other e hget hexpired
      simp only [beq_eq_false_iff_ne, ne_eq]
      intro heq
      rw [← heq, hget, Option.all_some, hexpired] at hkeep
      cases hkeep
    rw [hkeep] at hlive
    refine ⟨false, s, ?_, ?_, ?_⟩
    · simp only [Store.evict, hlive, ↓reduceIte]
      rfl
    · rw [hpurge]
      rfl
    · rw [hpurge]
      exact h
  · rw [Bool.not_eq_true] at hkeep
    obtain ⟨e, hget, hexpired⟩ : ∃ e, r.entries[key]? = some e ∧ e.liveAt r.now = false := by
      cases hget : r.entries[key]? with
      | none =>
        rw [hget] at hkeep
        cases hkeep
      | some e =>
        rw [hget] at hkeep
        exact ⟨e, rfl, hkeep⟩
    obtain ⟨removed, index, hdelete, hsome, hshows⟩ := h.erase key
    rw [Std.ExtTreeMap.contains_eq_isSome_getElem?, hget, Option.isSome_some] at hsome
    rw [Reference.purge_one hget hexpired]
    refine ⟨true, _, ?_, rfl, hshows⟩
    rw [hkeep] at hlive
    simp only [Store.evict, hlive, Bool.false_eq_true, ↓reduceIte, hdelete, Checked.ok_bind, hsome]
    rfl

theorem evictAll (h : s.Shows r) (keys : List Bytes) :
    ∃ s', s.evictAll keys = .ok ((r.purge keys.contains).1, s') ∧
      s'.Shows (r.purge keys.contains).2 := by
  induction keys generalizing s r with
  | nil =>
    have hpurge : r.purge ([] : List Bytes).contains = (0, r) :=
      Reference.purge_none fun _ _ _ _ => rfl
    rw [hpurge]
    exact ⟨s, rfl, h⟩
  | cons key rest ih =>
    obtain ⟨removed, mid, hevict, hcount, hshows⟩ := h.evict key
    obtain ⟨s', hrest, hshows'⟩ := ih hshows
    rw [Reference.contains_cons_eq, Reference.purge_purge]
    refine ⟨s', ?_, hshows'⟩
    simp only [Store.evictAll, hevict, Checked.ok_bind, hrest, hcount]
    rfl

theorem expireLazily (h : s.Shows r) (keys : List Bytes) :
    ∃ s', s.expireLazily keys = .ok s' ∧ s'.Shows (r.purgeLazily keys.contains) := by
  obtain ⟨mid, hevict, hshows⟩ := h.evictAll keys
  refine ⟨_, by simp only [Store.expireLazily, hevict, Checked.ok_bind]; rfl, ?_⟩
  refine { hshows with tally_eq := ?_ }
  show { mid.tally with lazilyExpired := mid.tally.lazilyExpired + (r.purge keys.contains).1 } = _
  rw [hshows.tally_eq]
  rfl

theorem expireLazily_one (h : s.Shows r) (key : Bytes) :
    ∃ s', s.expireLazily [key] = .ok s' ∧
      s'.Shows (r.purgeLazily fun other => other == key) := by
  have hnamed : [key].contains = fun other => other == key := by
    funext other
    rw [List.contains_cons, List.contains_nil, Bool.or_false]
  obtain ⟨s', hexpire, hshows⟩ := h.expireLazily [key]
  rw [hnamed] at hshows
  exact ⟨s', hexpire, hshows⟩

/-! ### Sweeps and background work -/

theorem sweep_keys (h : s.Shows r) (keys : List Bytes) :
    ∃ s', s.sweep keys = .ok ((r.sweepNamed keys.contains).1, s') ∧
      s'.Shows (r.sweepNamed keys.contains).2 := by
  obtain ⟨mid, hevict, hshows⟩ := h.evictAll keys
  refine ⟨_, by simp only [Store.sweep, hevict, Checked.ok_bind]; rfl, ?_⟩
  refine { hshows with tally_eq := ?_ }
  show { mid.tally with swept := mid.tally.swept + (r.purge keys.contains).1 } = _
  rw [hshows.tally_eq]
  rfl

/-- A sweep may be given any list of keys that names all expired ones. -/
theorem sweep (h : s.Shows r) {keys : List Bytes}
    (hall : ∀ key e, r.entries[key]? = some e → e.liveAt r.now = false → key ∈ keys) :
    ∃ s', s.sweep keys = .ok (r.sweep.1, s') ∧ s'.Shows r.sweep.2 := by
  have hpurge : r.purge keys.contains = r.purge fun _ => true := by
    apply Reference.purge_congr
    intro key e hget hexpired
    exact List.contains_iff_mem.2 (hall key e hget hexpired)
  have hsweep : r.sweepNamed keys.contains = r.sweep := by
    rw [Reference.sweepNamed, hpurge, Reference.sweep]
  rw [← hsweep]
  exact h.sweep_keys keys

theorem mem_expiredKeys (h : s.Shows r) {key : Bytes} {e : Entry}
    (hget : r.entries[key]? = some e) (hexpired : e.liveAt r.now = false) :
    key ∈ s.expiredKeys := by
  have hnot : s.isLive key = false := by
    rw [h.isLive_eq, hget]
    exact hexpired
  rw [expiredKeys, Deadlines.expired, List.mem_filter, Std.ExtTreeMap.mem_keys]
  refine ⟨?_, by rw [show s.deadlines.live s.now key = false from hnot]; rfl⟩
  obtain ⟨deadline, hdeadline, -⟩ := (Deadlines.live_eq_false_iff _ _ _).1 hnot
  exact Std.ExtTreeMap.mem_iff_isSome_getElem?.2 (by rw [hdeadline]; rfl)

theorem removeExpired (h : s.Shows r) :
    ∃ s', s.removeExpired = .ok (r.sweep.1, s') ∧ s'.Shows r.sweep.2 :=
  h.sweep fun _ _ hget hexpired => h.mem_expiredKeys hget hexpired

theorem runQueue (h : s.Shows r) : ∃ s', s.runQueue = .ok s' ∧ s'.Shows r.runQueue := by
  obtain ⟨mid, hexpire, hshows⟩ := h.expireLazily s.queue
  rw [h.queue_eq] at hexpire hshows
  refine ⟨_, by simp only [Store.runQueue, h.queue_eq, hexpire, Checked.ok_bind]; rfl, ?_⟩
  exact { hshows with queue_eq := rfl }

theorem runBackgroundBy (h : s.Shows r) (timer : Timer) :
    ∃ s', s.runBackgroundBy timer = .ok ((r.runBackgroundBy timer).1, s') ∧
      s'.Shows (r.runBackgroundBy timer).2 := by
  obtain ⟨mid, hqueue, hshows⟩ := h.runQueue
  simp only [Store.runBackgroundBy, hqueue, Checked.ok_bind, Reference.runBackgroundBy,
    Sweeper.dueBy, hshows.sweeper_eq, hshows.now_eq]
  by_cases hdue : (!r.runQueue.sweeper.closed &&
      timer r.runQueue.sweeper.since r.runQueue.sweeper.interval r.runQueue.now) = true
  · obtain ⟨s', hremove, hshows'⟩ := hshows.removeExpired
    simp only [hdue, ↓reduceIte, hremove, Checked.ok_bind]
    refine ⟨_, rfl, { hshows' with sweeper_eq := ?_ }⟩
    show { s'.sweeper with since := s'.now } = _
    rw [hshows'.sweeper_eq, hshows'.now_eq]
    rfl
  · simp only [hdue, Bool.false_eq_true, ↓reduceIte]
    exact ⟨mid, rfl, hshows⟩

end Shows

end Store

end ExpiringStore
