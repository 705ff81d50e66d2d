import ExpiringStore.Proofs.Agreement

/-!
# Removals that were put off

The queue names keys that were found expired some time ago, and much may have happened to them since.
When the queue is worked off, each key is looked at again, so only what has expired by then goes, and
neither the order of the queue nor how often it names a key makes a difference.

## Main definitions

* `Store.overdue`: the expired keys among some that are named.
* `Store.Thins`: what removing named keys does to the towers of the index.
* `Store.Without`, `Store.Alike`: what working off a queue does to a store, and how far the states
  after two queues can be told apart.
-/

namespace ExpiringStore

namespace Deadlines

theorem live_erase (table : Deadlines) (now : Instant) (key other : Bytes) :
    Deadlines.live (table.erase key) now other = (table.live now other || other == key) := by
  unfold live
  rw [Std.ExtTreeMap.getElem?_erase]
  simp only [Std.LawfulEqOrd.compare_eq_iff_eq]
  by_cases hkey : key = other
  · simp [hkey]
  · simp [hkey, Ne.symm hkey]

end Deadlines

namespace Store

variable {γ : Type} {s s' : Store γ} {r : Reference} {ts : List Tower}

/-- `s'` is `s`, whose index has the towers `ts`, after an eviction of the named keys. A key that was
evicted counts as live from then on, since it has no deadline any more. -/
structure Thins (s : Store γ) (ts : List Tower) (named : Bytes → Bool) (s' : Store γ) : Prop where
  layout : s'.index.Layout (ts.filter fun t => s.isLive t.key || !named t.key)
  slots_eq : s'.index.slots = s.index.slots
  ceiling_eq : s'.index.ceiling = s.index.ceiling
  isLive_eq : ∀ key, s'.isLive key = (s.isLive key || named key)
  scoreMode_eq : s'.scoreMode = s.scoreMode

theorem Thins.trans {s'' : Store γ} {named other : Bytes → Bool} (h : s.Thins ts named s')
    (h' : s'.Thins (ts.filter fun t => s.isLive t.key || !named t.key) other s'') :
    s.Thins ts (fun key => named key || other key) s'' := by
  constructor
  case layout =>
    have hlayout := h'.layout
    rw [List.filter_filter] at hlayout
    have hkeep : (fun t : Tower => s.isLive t.key || !(named t.key || other t.key)) =
        fun t => (s'.isLive t.key || !other t.key) && (s.isLive t.key || !named t.key) := by
      funext t
      rw [h.isLive_eq]
      cases s.isLive t.key <;> cases named t.key <;> cases other t.key <;> rfl
    rw [hkeep]
    exact hlayout
  case slots_eq => exact h'.slots_eq.trans h.slots_eq
  case ceiling_eq => exact h'.ceiling_eq.trans h.ceiling_eq
  case isLive_eq =>
    intro key
    rw [h'.isLive_eq, h.isLive_eq, Bool.or_assoc]
  case scoreMode_eq => exact h'.scoreMode_eq.trans h.scoreMode_eq

theorem thins_refl (h : s.index.Layout ts) {named : Bytes → Bool}
    (hnamed : ∀ key, named key = true → s.isLive key = true) : s.Thins ts named s := by
  constructor
  case layout =>
    have hkeep : ts.filter (fun t => s.isLive t.key || !named t.key) = ts := by
      refine List.filter_eq_self.2 fun t _ => ?_
      cases hkey : named t.key with
      | false => rw [Bool.not_false, Bool.or_true]
      | true => rw [hnamed t.key hkey, Bool.true_or]
    rw [hkeep]
    exact h
  case isLive_eq =>
    intro key
    cases hkey : named key with
    | false => rw [Bool.or_false]
    | true => rw [hnamed key hkey, Bool.true_or]
  all_goals rfl

/-- An index of a store holds every key at its own position. -/
def Scored (s : Store γ) (ts : List Tower) : Prop := ∀ t ∈ ts, t.position = s.position t.key

theorem Scored.thins {named : Bytes → Bool} (hscored : s.Scored ts) (h : s.Thins ts named s') :
    s'.Scored (ts.filter fun t => s.isLive t.key || !named t.key) := by
  intro t ht
  rw [position, h.scoreMode_eq]
  exact hscored t (List.mem_of_mem_filter ht)

theorem evict_thins (h : s.index.Layout ts) (hscored : s.Scored ts) {key : Bytes} {removed : Bool}
    (hevict : s.evict key = .ok (removed, s')) : s.Thins ts (fun other => other == key) s' := by
  unfold evict at hevict
  split at hevict
  next hlive =>
    cases hevict
    refine thins_refl h fun other hother => ?_
    rw [beq_iff_eq.1 hother]
    exact hlive
  next hlive =>
    rw [Bool.not_eq_true] at hlive
    obtain ⟨⟨e?, index⟩, hdelete, hpure⟩ := Checked.bind_eq_ok hevict
    cases hpure
    obtain ⟨found, index', hdelete', -, -, hlayout, hceiling⟩ := h.delete_eq key (s.scoreOf key)
    obtain ⟨-, rfl⟩ := Prod.mk.inj (Except.ok.inj (hdelete.symm.trans hdelete'))
    constructor
    case layout =>
      -- no other key is at the position of this one, so the list loses what the filter leaves out
      have hkeep : ts.filter (fun t => s.isLive t.key || !(t.key == key)) =
          Tower.remove (s.position key) ts := by
        refine List.filter_congr fun t ht => ?_
        rw [hscored t ht]
        by_cases hkey : t.key = key
        · simp [hkey, hlive]
        · simp [hkey, position, ScoreMode.position_inj]
      rw [hkeep]
      exact hlayout
    case slots_eq => exact h.slots_delete hdelete
    case ceiling_eq => exact hceiling
    case isLive_eq => exact s.deadlines.live_erase s.now key
    case scoreMode_eq => rfl

theorem evictAll_thins (h : s.index.Layout ts) (hscored : s.Scored ts) {keys : List Bytes}
    {count : Nat} (hevict : s.evictAll keys = .ok (count, s')) : s.Thins ts keys.contains s' := by
  induction keys generalizing s ts count with
  | nil =>
    cases hevict
    exact thins_refl h fun _ hkey => nomatch hkey
  | cons key rest ih =>
    obtain ⟨⟨removed, mid⟩, hfirst, hrest⟩ := Checked.bind_eq_ok hevict
    obtain ⟨⟨later, last⟩, hrest, hpure⟩ := Checked.bind_eq_ok hrest
    cases hpure
    have hthins := evict_thins h hscored hfirst
    rw [Reference.contains_cons_eq]
    exact hthins.trans (ih hthins.layout (hscored.thins hthins) hrest)

theorem runQueue_thins (h : s.index.Layout ts) (hscored : s.Scored ts)
    (hrun : s.runQueue = .ok s') : s.Thins ts s.queue.contains s' := by
  obtain ⟨mid, hexpire, hpure⟩ := Checked.bind_eq_ok hrun
  cases hpure
  obtain ⟨⟨count, last⟩, hevict, hpure⟩ := Checked.bind_eq_ok hexpire
  cases hpure
  exact { evictAll_thins h hscored hevict with }

/-! ### Keys that are overdue -/

/-- The named keys that have expired, with their deadlines. -/
def overdue (s : Store γ) (keys : List Bytes) : Deadlines :=
  s.deadlines.filter fun key deadline => decide (deadline ≤ s.now) && keys.contains key

theorem contains_overdue (s : Store γ) (keys : List Bytes) (key : Bytes) :
    (s.overdue keys).contains key = (!s.isLive key && keys.contains key) := by
  rw [Std.ExtTreeMap.contains_eq_isSome_getElem?, overdue, Std.ExtTreeMap.getElem?_filter', isLive,
    Deadlines.live]
  cases s.deadlines[key]? with
  | none => rfl
  | some deadline =>
    by_cases hle : deadline ≤ s.now
    · cases keys.contains key <;> simp [Option.filter, hle]
    · simp [Option.filter, hle, Nat.lt_of_not_le hle]

theorem keep_eq (s : Store γ) (keys : List Bytes) (key : Bytes) :
    (s.isLive key || !keys.contains key) = !(s.overdue keys).contains key := by
  rw [contains_overdue, Bool.not_and, Bool.not_not]

namespace Shows

theorem purge_count (h : s.Shows r) (keys : List Bytes) :
    (r.purge keys.contains).1 = (s.overdue keys).size := by
  have hsize := Entries.size_eq_size_filter_add r.entries fun key e =>
    e.liveAt r.now || !keys.contains key
  have hgone : (r.entries.filter fun key e => !(e.liveAt r.now || !keys.contains key)).size =
      (s.overdue keys).size := by
    refine Entries.size_eq_of_mem_iff fun key => ?_
    rw [← Std.ExtTreeMap.contains_iff_mem (t := s.overdue keys), contains_overdue, h.isLive_eq,
      Std.ExtTreeMap.mem_iff_isSome_getElem?, Std.ExtTreeMap.getElem?_filter']
    cases r.entries[key]? with
    | none => simp
    | some e => cases hlive : e.liveAt r.now <;> simp [Option.filter, hlive]
  rw [Reference.purge]
  simp only
  omega

theorem getElem?_deadlines_purge (h : s.Shows r) (keys : List Bytes) (key : Bytes) :
    (r.purge keys.contains).2.entries.deadlines[key]? =
      if (s.overdue keys).contains key then none else s.deadlines[key]? := by
  rw [contains_overdue, h.isLive_eq, h.deadlines_eq,
    Entries.getElem?_deadlines, Entries.getElem?_deadlines, Reference.getElem?_purge]
  cases r.entries[key]? with
  | none => simp
  | some e =>
    cases hlive : e.liveAt r.now <;> cases keys.contains key <;> simp [Option.filter, hlive]

theorem scored (h : s.Shows r) (hm : (r.entries.contents r.scoreMode).toList = ts.map Tower.binding) :
    s.Scored ts := by
  intro t ht
  have hmem : t.binding ∈ (r.entries.contents r.scoreMode).toList := hm ▸ List.mem_map_of_mem ht
  rw [h.position_eq]
  exact (Entries.mem_toList_contents.1 hmem).1.symm

end Shows

end Store

/-! ### Working off a queue -/

/-- An element without its links. -/
def Element.content (e : Element) : Bytes × Bytes × Score × Nat := (e.key, e.value, e.score, e.height)

theorem Element.map_content_filter (p : Bytes × Bytes × Score × Nat → Bool) (es : List Element) :
    (es.filter fun e => p e.content).map content = (es.map content).filter p := by
  rw [List.filter_map]
  rfl

/-- Towers that are left out by key change the links of the others and nothing else. -/
theorem Tower.map_content_filter (p : Bytes → Bool) (ts : List Tower) :
    (elementsIn [] (ts.filter fun t => p t.key) []).map Element.content =
      ((elementsIn [] ts []).filter fun e => p e.key).map Element.content := by
  have hcontent (ts : List Tower) : (elementsIn [] ts []).map Element.content =
      ts.map fun t => (t.key, t.value, t.score, t.height) :=
    map_elementsIn (fun t before after => by
      rw [Element.content, height_element]
      rfl) [] ts []
  have hfilter := Element.map_content_filter (fun c => p c.1) (elementsIn [] ts [])
  refine Eq.trans ?_ hfilter.symm
  rw [hcontent, hcontent, List.filter_map]
  rfl

namespace Store

variable {γ : Type} {s u u' : Store γ} {r : Reference} {ts : List Tower}

/-- `u` is `s` without the keys of `gone`, which left it because something touched them. -/
structure Without (s : Store γ) (gone : Deadlines) (u : Store γ) : Prop where
  content_eq : ∃ es es', s.index.elements = .ok es ∧ u.index.elements = .ok es' ∧
    es'.map Element.content = (es.filter fun e => !gone.contains e.key).map Element.content
  getElem?_deadlines : ∀ key : Bytes, u.deadlines[key]? =
    if gone.contains key then none else s.deadlines[key]?
  tally_eq : u.tally = { s.tally with lazilyExpired := s.tally.lazilyExpired + gone.size }

/-- What is read off `u` and `u'` is the same, slot by slot. Only the order in which free slots are
taken again may differ. -/
structure Alike (u u' : Store γ) : Prop where
  liveEntries_eq : u.liveEntries = u'.liveEntries
  elements_eq : u.index.elements = u'.index.elements
  deadlines_eq : u.deadlines = u'.deadlines
  stats_eq : u.stats = u'.stats
  chain_eq : ∀ level, u.index.chain level = u'.index.chain level
  slots_eq : u.index.slots = u'.index.slots

theorem alike_of_layout (h : u.Shows r) (h' : u'.Shows r) (hu : u.index.Layout ts)
    (hu' : u'.index.Layout ts) (hceiling : u.index.ceiling = u'.index.ceiling)
    (hslots : u.index.slots = u'.index.slots) : u.Alike u' := by
  have hdeadlines : u.deadlines = u'.deadlines := h.deadlines_eq.trans h'.deadlines_eq.symm
  have hnow : u.now = u'.now := h.now_eq.trans h'.now_eq.symm
  have helements : u.index.elements = u'.index.elements := by rw [hu.elements_eq, hu'.elements_eq]
  constructor
  case liveEntries_eq =>
    have hlive : u.isLive = u'.isLive := by
      funext key
      rw [isLive, isLive, hdeadlines, hnow]
    rw [liveEntries, liveEntries, helements, hlive]
  case elements_eq => exact helements
  case deadlines_eq => exact hdeadlines
  case stats_eq =>
    rw [stats, stats, length, length, keysWithTtl, keysWithTtl, hu.length_eq, hu'.length_eq,
      hu.level_eq, hu'.level_eq, hdeadlines, h.tally_eq, h'.tally_eq]
  case chain_eq => exact fun level => hu'.chain_congr hu hceiling level
  case slots_eq => exact hslots

theorem content_of_layout {gone : Deadlines} (h : s.index.Layout ts)
    (hu : u.index.Layout (ts.filter fun t => !gone.contains t.key)) :
    ∃ es es', s.index.elements = .ok es ∧ u.index.elements = .ok es' ∧
      es'.map Element.content = (es.filter fun e => !gone.contains e.key).map Element.content := by
  refine ⟨_, _, h.elements_eq, hu.elements_eq, ?_⟩
  exact Tower.map_content_filter (fun key => !gone.contains key) ts

/-- What the queue names decides by itself what working it off does to the towers. -/
theorem Shows.runQueue_thins (h : s.Shows r) :
    ∃ ts, s.index.Layout ts ∧ ∀ queue, ∃ u, Store.runQueue { s with queue } = .ok u ∧
      u.Shows { r.purgeLazily queue.contains with queue := [] } ∧
      Thins { s with queue } ts queue.contains u := by
  obtain ⟨ts, hlayout, hm⟩ := h.index
  refine ⟨ts, hlayout, fun queue => ?_⟩
  obtain ⟨u, hrun, hu⟩ := (h.withQueue queue).runQueue
  exact ⟨u, hrun, hu, Store.runQueue_thins (s := { s with queue }) hlayout (h.scored hm) hrun⟩

theorem Shows.without (h : s.Shows r) {queue : List Bytes} (hlayout : s.index.Layout ts)
    (hu : u.Shows { r.purgeLazily queue.contains with queue := [] })
    (hthins : Thins { s with queue } ts queue.contains u) : s.Without (s.overdue queue) u := by
  constructor
  case content_eq =>
    refine content_of_layout hlayout ?_
    simp only [← keep_eq]
    exact hthins.layout
  case getElem?_deadlines =>
    intro key
    rw [hu.deadlines_eq]
    exact h.getElem?_deadlines_purge queue key
  case tally_eq =>
    rw [hu.tally_eq, ← h.purge_count queue, h.tally_eq]
    rfl

end Store

/-- Whatever has happened to a store with a valid configuration, and whatever keys its queue names,
working off the queue removes just the named keys that have expired by now. Queues that name the same
keys lead to the same state. -/
theorem queue_removes_overdue {γ : Type} [WordSource γ] {config : Config}
    (hvalid : config.check = .ok ()) (source : γ) (events : List Event) :
    ∃ s t, Store.create .present config source = .ok (.ok s) ∧ s.handleAll events = .ok t ∧
      ∀ queue, ∃ u, Store.runQueue { t with queue } = .ok u ∧ t.Without (t.overdue queue) u ∧
        ∀ queue' : List Bytes, (∀ key, key ∈ queue' ↔ key ∈ queue) →
          ∃ u', Store.runQueue { t with queue := queue' } = .ok u' ∧ u'.Alike u := by
  obtain ⟨s, t, r, hcreate, hall, hshows, -⟩ := Store.shows_handleAll hvalid source events
  obtain ⟨ts, hlayout, hruns⟩ := hshows.runQueue_thins
  refine ⟨s, t, hcreate, hall, fun queue => ?_⟩
  obtain ⟨u, hrun, hu, hthins⟩ := hruns queue
  refine ⟨u, hrun, hshows.without hlayout hu hthins, fun queue' hsame => ?_⟩
  have hcontains : queue'.contains = queue.contains := by
    funext key
    rw [Bool.eq_iff_iff, List.contains_iff_mem, List.contains_iff_mem]
    exact hsame key
  obtain ⟨u', hrun', hu', hthins'⟩ := hruns queue'
  have hlayout' := hthins'.layout
  rw [hcontains] at hu' hlayout'
  exact ⟨u', hrun', Store.alike_of_layout hu' hu hlayout' hthins.layout
    (hthins'.ceiling_eq.trans hthins.ceiling_eq.symm)
    (hthins'.slots_eq.trans hthins.slots_eq.symm)⟩

theorem queue_removes_overdue_in_any_order :
    Config.check { scoreMode := .ordered, ceiling := 3 } = .ok () ∧
      ∃ s t u u',
        Store.create .present { scoreMode := .ordered, ceiling := 3 } (Xoshiro.ofSeed 8) =
          .ok (.ok s) ∧
        s.handleAll
          [.command (.setWithTtl [97] [1] 5), .command (.setWithTtl [98] [2] 5),
            .command (.setWithTtl [99] [3] 5), .command (.advance 5), .command (.get [97]),
            .command (.set [97] [4])] = .ok t ∧
        Store.runQueue { t with queue := [[98], [97], [98], [99]] } = .ok u ∧
        t.Without (t.overdue [[98], [97], [98], [99]]) u ∧
        Store.runQueue { t with queue := [[99], [97], [98]] } = .ok u' ∧ u'.Alike u := by
  have hvalid : Config.check { scoreMode := .ordered, ceiling := 3 } = .ok () := by decide
  obtain ⟨s, t, hcreate, hall, hqueues⟩ := queue_removes_overdue hvalid (Xoshiro.ofSeed 8)
    [.command (.setWithTtl [97] [1] 5), .command (.setWithTtl [98] [2] 5),
      .command (.setWithTtl [99] [3] 5), .command (.advance 5), .command (.get [97]),
      .command (.set [97] [4])]
  obtain ⟨u, hrun, hwithout, hsame⟩ := hqueues [[98], [97], [98], [99]]
  obtain ⟨u', hrun', halike⟩ := hsame [[99], [97], [98]] fun key => by
    simp only [List.mem_cons, List.not_mem_nil, or_false]
    tauto
  exact ⟨hvalid, s, t, u, u', hcreate, hall, hrun, hwithout, hrun', halike⟩

end ExpiringStore
