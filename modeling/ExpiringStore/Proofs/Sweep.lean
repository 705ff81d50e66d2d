import ExpiringStore.Proofs.Deferred
import ExpiringStore.Proofs.Shedding

/-!
# Sweeps

A sweep collects the keys that have expired, in whatever order the table of deadlines names them,
and then removes one after the other. Its order is forgotten in what it leaves: on every level the
live elements stay as they were, and only the slots that became free are taken again in another
order. A second sweep at the same time finds nothing to do.

## Main definitions

* `Store.removeExpiredIn`: a sweep over a table that names its keys in a given order.
* `Store.Swept`: what a sweep leaves of a store.
* `SkipList.SameButFree`, `Store.SameButFree`: equality up to the order in which free slots are taken
  again.
-/

namespace ExpiringStore

/-! ### The order of the free slots -/

namespace SkipList

open Tower

variable {γ : Type} {l l' : SkipList γ} {ts : List Tower}

/-- `l'` is `l`, except that it takes free slots again in another order. -/
def SameButFree (l l' : SkipList γ) : Prop :=
  ∃ free, free.Perm l.arena.free ∧ l' = { l with arena := { l.arena with free } }

theorem chainFrom_congr {level : Nat} (hnext : ∀ place, l'.next place level = l.next place level)
    (room : Nat) (link : Link) : l'.chainFrom level room link = l.chainFrom level room link := by
  induction room generalizing link with
  | zero => cases link <;> rfl
  | succ room ih =>
    cases link with
    | none => rfl
    | some slot =>
      simp only [chainFrom, hnext]
      exact bind_congr fun link => by rw [ih link]

/-- The order of the free slots shows on no level. -/
theorem SameButFree.elementsOn_eq (h : l.SameButFree l') (level : Nat) :
    l'.elementsOn level = l.elementsOn level := by
  obtain ⟨free, -, rfl⟩ := h
  have hchain (room : Nat) (link : Link) :
      SkipList.chainFrom { l with arena := { l.arena with free } } level room link =
        l.chainFrom level room link :=
    chainFrom_congr (fun place => by cases place <;> rfl) room link
  simp only [elementsOn, chain, hchain]
  rfl

namespace Layout

/-- The towers determine a list of so many levels and slots, but for the order of its free slots and
the words that it will draw. -/
theorem sameButFree (h : l.Layout ts) (h' : l'.Layout ts) (hceiling : l'.ceiling = l.ceiling)
    (hslots : l'.slots = l.slots) (hsource : l'.source = l.source) : l.SameButFree l' := by
  refine ⟨l'.arena.free, ?_, ?_⟩
  · refine (List.perm_ext_iff_of_nodup h'.tidy.nodup h.tidy.nodup).2 fun slot => ?_
    rw [h'.tidy.mem_free, h.tidy.mem_free, h.get?_congr h']
    exact and_congr_left fun _ => by rw [show l'.arena.size = l.arena.size from hslots]
  · have harena : l'.arena = { l.arena with free := l'.arena.free } :=
      Arena.ext_get? hslots rfl fun slot => h.get?_congr h' slot
    rw [← harena]
    exact h.eq_of_source_eq h' hceiling hsource

end Layout

end SkipList

theorem Tower.countP_key_elementsIn (p : Bytes → Bool) (ts : List Tower) :
    (elementsIn [] ts []).countP (fun e => p e.key) = ts.countP fun t => p t.key := by
  have hkeys : (elementsIn [] ts []).map Element.key = ts.map key :=
    map_elementsIn (fun _ _ _ => rfl) [] ts []
  have hcount := congrArg (List.countP p) hkeys
  rw [List.countP_map, List.countP_map] at hcount
  exact hcount

namespace Store

variable {γ : Type} {s u u' : Store γ} {r : Reference} {ts : List Tower} {count : Nat}

/-- `u'` is `u`, except that its index takes free slots again in another order. -/
def SameButFree (u u' : Store γ) : Prop :=
  u.index.SameButFree u'.index ∧ u' = { u with index := u'.index }

/-! ### Sweeps in any order -/

/-- A sweep, if the table of deadlines names its keys in the given order. -/
def removeExpiredIn (s : Store γ) (order : List Bytes) : Checked (Nat × Store γ) :=
  s.sweep (order.filter fun key => !s.isLive key)

theorem removeExpired_eq (s : Store γ) : s.removeExpired = s.removeExpiredIn s.deadlines.keys := rfl

/-- `u` is `s` after a sweep that has removed `count` entries. -/
structure Swept (s : Store γ) (count : Nat) (u : Store γ) : Prop where
  count_eq : ∃ es, s.index.elements = .ok es ∧ count = es.countP fun e => !s.isLive e.key
  elementsOn_eq : ∀ level < s.index.ceiling, ∃ es es', s.index.elementsOn level = .ok es ∧
    u.index.elementsOn level = .ok es' ∧
    es'.map Element.content = (es.filter fun e => s.isLive e.key).map Element.content
  deadlines_eq : u.deadlines = s.deadlines.filter fun _ deadline => decide (s.now < deadline)
  liveCount_eq : u.liveCount = .ok u.length
  ceiling_eq : u.index.ceiling = s.index.ceiling
  slots_eq : u.index.slots = s.index.slots
  source_eq : u.index.source = s.index.source
  unchanged : u = { s with
    index := u.index, deadlines := u.deadlines
    tally := { s.tally with swept := s.tally.swept + count } }

/-- Whatever order names the keys with deadlines, those that have expired are collected. -/
theorem contains_expired {order : List Bytes} (horder : order.Perm s.deadlines.keys) :
    (order.filter fun key => !s.isLive key).contains = fun key => !s.isLive key := by
  funext key
  rw [Bool.eq_iff_iff, List.contains_iff_mem, List.mem_filter]
  refine and_iff_right_of_imp fun hexpired => horder.mem_iff.2 (Std.ExtTreeMap.mem_keys.2 ?_)
  rw [Bool.not_eq_true'] at hexpired
  obtain ⟨deadline, hget, -⟩ := (Deadlines.live_eq_false_iff _ _ _).1 hexpired
  exact Std.ExtTreeMap.mem_iff_isSome_getElem?.2 (by rw [hget]; rfl)

namespace Swept

theorem isLive_eq (h : s.Swept count u) (key : Bytes) : u.isLive key = true := by
  have hnow : u.now = s.now := by rw [h.unchanged]
  rw [isLive, Deadlines.live, h.deadlines_eq, hnow, Std.ExtTreeMap.getElem?_filter']
  cases s.deadlines[key]? with
  | none => rfl
  | some deadline => by_cases hlt : s.now < deadline <;> simp [Option.filter, hlt]

/-- After a sweep there is nothing left to collect. -/
theorem removeExpiredIn_eq (h : s.Swept count u) (order : List Bytes) :
    u.removeExpiredIn order = .ok (0, u) := by
  have hnone : order.filter (fun key => !u.isLive key) = [] := by
    refine List.filter_eq_nil_iff.2 fun key _ => ?_
    rw [h.isLive_eq]
    decide
  rw [Store.removeExpiredIn, hnone]
  rfl

theorem sameButFree (h : s.Swept count u) (h' : s.Swept count u') (hu : u.index.Layout ts)
    (hu' : u'.index.Layout ts) : u.SameButFree u' := by
  constructor
  · exact hu.sameButFree hu' (h'.ceiling_eq.trans h.ceiling_eq.symm)
      (h'.slots_eq.trans h.slots_eq.symm) (h'.source_eq.trans h.source_eq.symm)
  · have hdeadlines : u.deadlines = u'.deadlines := h.deadlines_eq.trans h'.deadlines_eq.symm
    rw [h.unchanged, hdeadlines, ← h'.unchanged]

end Swept

namespace Shows

theorem swept (h : s.Shows r) (hu : u.Shows r.sweep.2) (hlayout : s.index.Layout ts)
    (hleft : u.index.Layout (ts.filter fun t => s.isLive t.key))
    (hceiling : u.index.ceiling = s.index.ceiling) (hslots : u.index.slots = s.index.slots)
    (hsource : u.index.source = s.index.source) : s.Swept r.sweep.1 u := by
  have hentries : r.sweep.2.entries = r.live := by
    simp [Reference.sweep, Reference.purge, Reference.live]
  constructor
  case count_eq =>
    have hbefore := h.length_eq
    have hafter := hu.length_eq
    rw [length, hlayout.length_eq] at hbefore
    rw [length, hleft.length_eq, ← List.countP_eq_length_filter] at hafter
    have hsplit := List.length_eq_countP_add_countP (fun t => s.isLive t.key) (l := ts)
    simp only [Bool.not_eq_true, Bool.decide_eq_false] at hsplit
    refine ⟨_, hlayout.elements_eq, ?_⟩
    rw [Tower.countP_key_elementsIn fun key => !s.isLive key]
    show r.entries.size - r.sweep.2.entries.size = _
    omega
  case elementsOn_eq =>
    intro level hlevel
    refine ⟨_, _, hlayout.elementsOn_eq hlevel, hleft.elementsOn_eq (hceiling ▸ hlevel), ?_⟩
    have hfilter (es : List Element) :
        (es.filter fun e => level < e.height).map Element.content =
          (es.map Element.content).filter fun c => level < c.2.2.2 :=
      Element.map_content_filter (fun c => decide (level < c.2.2.2)) es
    -- to pick a level and to leave out what has expired are two filters, in either order
    rw [hfilter, Tower.map_content_filter, ← hfilter, List.filter_filter, List.filter_filter]
    simp only [Bool.and_comm]
  case deadlines_eq =>
    rw [hu.deadlines_eq, hentries, h.deadlines_eq, h.now_eq]
    exact r.entries.deadlines_filter_live r.now
  case liveCount_eq =>
    have hlive : r.sweep.2.live = r.sweep.2.entries := (r.live_purge _).trans hentries.symm
    rw [hu.liveCount, hu.length_eq, hlive]
  case ceiling_eq => exact hceiling
  case slots_eq => exact hslots
  case source_eq => exact hsource
  case unchanged =>
    have htally : u.tally = { s.tally with swept := s.tally.swept + r.sweep.1 } := by
      rw [hu.tally_eq, h.tally_eq]
      rfl
    have hmode : u.scoreMode = s.scoreMode := hu.scoreMode_eq.trans h.scoreMode_eq.symm
    have heviction : u.eviction = s.eviction := hu.eviction_eq.trans h.eviction_eq.symm
    have hqueue : u.queue = s.queue := hu.queue_eq.trans h.queue_eq.symm
    have hsweeper : u.sweeper = s.sweeper := hu.sweeper_eq.trans h.sweeper_eq.symm
    have hnow : u.now = s.now := hu.now_eq.trans h.now_eq.symm
    rw [← htally, ← hmode, ← heviction, ← hqueue, ← hsweeper, ← hnow]

/-- A sweep in any order leaves the towers whose key is live. -/
theorem removeExpiredIn (h : s.Shows r) :
    ∃ ts, ∀ order : List Bytes, order.Perm s.deadlines.keys →
      ∃ u, s.removeExpiredIn order = .ok (r.sweep.1, u) ∧ s.Swept r.sweep.1 u ∧
        u.index.Layout ts := by
  obtain ⟨ts, hlayout, hm⟩ := h.index
  have hscored := h.scored hm
  refine ⟨ts.filter fun t => s.isLive t.key, fun order horder => ?_⟩
  -- the keys that are collected do not depend on the order, and so the towers that go do not either
  have hcontains := contains_expired horder
  have hall : ∀ key e, r.entries[key]? = some e → e.liveAt r.now = false →
      key ∈ order.filter fun key => !s.isLive key := by
    intro key e hget hexpired
    rw [← List.contains_iff_mem, hcontains]
    show (!s.isLive key) = true
    rw [h.isLive_eq, hget, Option.all_some, hexpired]
    rfl
  obtain ⟨u, hsweep, hu⟩ := h.sweep hall
  obtain ⟨⟨removed, mid⟩, hevict, hpure⟩ := Checked.bind_eq_ok hsweep
  cases hpure
  have hthins := evictAll_thins hlayout hscored hevict
  rw [hcontains] at hthins
  have hleft := hthins.layout
  simp only [Bool.not_not, Bool.or_self] at hleft
  obtain ⟨-, -, -, -, hsource⟩ := hlayout.sheds (evictAll_sheds hevict)
  exact ⟨_, hsweep, h.swept hu hlayout hleft hthins.ceiling_eq hthins.slots_eq hsource, hleft⟩

end Shows

end Store

/-- Whatever has happened to a store with a valid configuration, a sweep removes just the entries
that have expired by now and counts them. Whatever order the table of deadlines names its keys in, it
leaves the same store but for the order of the free slots, and nothing for a second sweep. -/
theorem sweep_exact_in_any_order {γ : Type} [WordSource γ] {config : Config}
    (hvalid : config.check = .ok ()) (source : γ) (events : List Event) :
    ∃ s t count u, Store.create .present config source = .ok (.ok s) ∧
      s.handleAll events = .ok t ∧ t.removeExpired = .ok (count, u) ∧ t.Swept count u ∧
      ∀ order : List Bytes, order.Perm t.deadlines.keys →
        ∃ v, t.removeExpiredIn order = .ok (count, v) ∧ t.Swept count v ∧ u.SameButFree v ∧
          (∀ level, v.index.elementsOn level = u.index.elementsOn level) ∧
          ∀ order', v.removeExpiredIn order' = .ok (0, v) := by
  obtain ⟨s, t, r, hcreate, hall, hshows, -⟩ := Store.shows_handleAll hvalid source events
  obtain ⟨ts, hsweeps⟩ := hshows.removeExpiredIn
  obtain ⟨u, hsweep, hswept, hlayout⟩ := hsweeps _ (List.Perm.refl _)
  rw [← t.removeExpired_eq] at hsweep
  refine ⟨s, t, r.sweep.1, u, hcreate, hall, hsweep, hswept, fun order horder => ?_⟩
  obtain ⟨v, hsweep', hswept', hlayout'⟩ := hsweeps order horder
  have hsame := hswept.sameButFree hswept' hlayout hlayout'
  exact ⟨v, hsweep', hswept', hsame, hsame.1.elementsOn_eq, hswept'.removeExpiredIn_eq⟩

theorem sweep_exact_in_any_order_backwards :
    Config.check { scoreMode := .ordered, ceiling := 3 } = .ok () ∧
      ∃ s t u v,
        Store.create .present { scoreMode := .ordered, ceiling := 3 } (Xoshiro.ofSeed 8) =
          .ok (.ok s) ∧
        s.handleAll
          [.command (.setWithTtl [97] [1] 5), .command (.setWithTtl [98] [2] 9),
            .command (.setWithTtl [99] [3] 4), .command (.set [100] [4]),
            .command (.advance 5)] = .ok t ∧
        t.removeExpired = .ok (2, u) ∧ t.Swept 2 u ∧
        t.deadlines.keys.reverse.Perm t.deadlines.keys ∧
        t.removeExpiredIn t.deadlines.keys.reverse = .ok (2, v) ∧ t.Swept 2 v ∧
        u.SameButFree v ∧ v.removeExpiredIn [[99], [97]] = .ok (0, v) := by
  have hvalid : Config.check { scoreMode := .ordered, ceiling := 3 } = .ok () := by decide
  obtain ⟨s, t, count, u, hcreate, hall, hsweep, hswept, horders⟩ :=
    sweep_exact_in_any_order hvalid (Xoshiro.ofSeed 8)
      [.command (.setWithTtl [97] [1] 5), .command (.setWithTtl [98] [2] 9),
        .command (.setWithTtl [99] [3] 4), .command (.set [100] [4]), .command (.advance 5)]
  obtain ⟨v, hsweep', hswept', hsame, -, hagain⟩ := horders _ (List.reverse_perm _)
  have hcount : (do
      match ← Store.create .present { scoreMode := .ordered, ceiling := 3 } (Xoshiro.ofSeed 8) with
      | .error _ => return 0
      | .ok s =>
        let t ← s.handleAll
          [.command (.setWithTtl [97] [1] 5), .command (.setWithTtl [98] [2] 9),
            .command (.setWithTtl [99] [3] 4), .command (.set [100] [4]), .command (.advance 5)]
        return (← t.removeExpired).1 : Checked Nat) = .ok 2 := rfl
  simp only [hcreate, Checked.ok_bind, hall, hsweep] at hcount
  obtain rfl : count = 2 := Except.ok.inj hcount
  exact ⟨hvalid, s, t, u, v, hcreate, hall, hsweep, hswept, List.reverse_perm _, hsweep', hswept',
    hsame, hagain _⟩

end ExpiringStore
