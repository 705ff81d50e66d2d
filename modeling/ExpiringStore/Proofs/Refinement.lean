import ExpiringStore.Proofs.Shows

/-!
# A store refines one map

Each command is answered as the reference store answers it, and the two stores go on together. The
number of levels that an index uses is the one thing that a reply tells and the map does not
determine, so replies are compared without it.
-/

namespace ExpiringStore

/-- The reply without the number of levels of the index. -/
def Reply.unleveled : Reply → Reply
  | .stats snapshot => .stats { snapshot with levels := 0 }
  | reply => reply

namespace Reference

variable {r : Reference} {key : Bytes} {e : Entry}

theorem live_of_absent (hget : r.entries[key]? = none) : r.live[key]? = none := by
  rw [getElem?_live, hget]
  rfl

theorem live_of_live (hget : r.entries[key]? = some e) (hlive : e.liveAt r.now = true) :
    r.live[key]? = some e := by
  rw [getElem?_live, hget]
  exact if_pos hlive

theorem live_of_expired (hget : r.entries[key]? = some e) (hexpired : e.liveAt r.now = false) :
    r.live[key]? = none := by
  rw [getElem?_live, hget]
  exact if_neg (by rw [hexpired]; decide)

theorem onExpiredRead_immediate (h : r.eviction = .immediate) :
    r.onExpiredRead key = r.purgeLazily fun other => other == key := by
  unfold onExpiredRead
  rw [h]

theorem onExpiredRead_deferred (h : r.eviction = .deferred) :
    r.onExpiredRead key = { r with queue := r.queue ++ [key] } := by
  unfold onExpiredRead
  rw [h]

end Reference

namespace Store.Shows

variable {γ : Type} {s : Store γ} {r : Reference}

/-! ### Writing -/

theorem put [WordSource γ] (h : s.Shows r) (key value : Bytes) (deadline? : Option Instant) :
    ∃ s', s.put key value deadline? = .ok ((r.put key value deadline?).1, s') ∧
      s'.Shows (r.put key value deadline?).2 := by
  obtain ⟨e, index, hinsert, hdenotes⟩ := h.index.insert key value (s.scoreOf key)
  have hposition : (⟨s.scoreOf key, key⟩ : Position) = r.scoreMode.position key :=
    h.position_eq key
  rw [hposition, ← Entries.contents_insert r.scoreMode r.entries key ⟨value, deadline?⟩] at hdenotes
  -- the index has grown exactly if the key is new
  have hcreated : decide (s.index.length < index.length) = !r.entries.contains key := by
    rw [h.index.length_eq, hdenotes.length_eq, Entries.size_contents, Entries.size_contents,
      Std.ExtTreeMap.size_insert]
    cases r.entries.contains key <;> simp
  refine ⟨_, by simp only [Store.put, hinsert, Checked.ok_bind, hcreated]; rfl, ?_⟩
  refine { h with index := hdenotes, deadlines_eq := ?_, tally_eq := ?_ }
  · show s.deadlines.assign key deadline? = Entries.deadlines (r.entries.insert key _)
    rw [Entries.deadlines_insert, h.deadlines_eq]
  · show { s.tally with sets := s.tally.sets + 1 } = _
    rw [h.tally_eq]
    rfl

theorem setWithTtl [WordSource γ] (h : s.Shows r) (key value : Bytes) (ttl : Duration) :
    ∃ s', s.setWithTtl key value ttl = .ok ((r.setWithTtl key value ttl).1, s') ∧
      s'.Shows (r.setWithTtl key value ttl).2 := by
  simp only [Store.setWithTtl, Reference.setWithTtl, h.now_eq, Reference.deadlineAfter_eq]
  cases r.refusal? ttl with
  | some error => exact ⟨s, rfl, h⟩
  | none =>
    obtain ⟨s', hput, hshows⟩ := h.put key value (some (r.now + ttl))
    refine ⟨s', ?_, hshows⟩
    simp only [hput, Checked.ok_bind]
    rfl

theorem delete (h : s.Shows r) (key : Bytes) :
    ∃ s', s.delete key = .ok ((r.delete key).1, s') ∧ s'.Shows (r.delete key).2 := by
  obtain ⟨removed, index, hdelete, hsome, hshows⟩ := h.erase key
  refine ⟨_, by simp only [Store.delete, hdelete, Checked.ok_bind, hsome]; rfl, ?_⟩
  refine { hshows with tally_eq := ?_ }
  show { s.tally with deletes := s.tally.deletes + 1 } = _
  rw [h.tally_eq]
  rfl

theorem flush (h : s.Shows r) : s.flush.Shows r.flush := by
  refine { h with index := ?_, deadlines_eq := Entries.deadlines_empty.symm }
  show s.index.clear.Denotes (Entries.contents r.scoreMode ∅)
  rw [Entries.contents_empty]
  exact h.index.clear

/-! ### Reading one key -/

theorem onExpiredRead (h : s.Shows r) (key : Bytes) :
    ∃ s', s.onExpiredRead key = .ok s' ∧ s'.Shows (r.onExpiredRead key) := by
  have hqueued : Shows { s with queue := s.queue ++ [key] } { r with queue := r.queue ++ [key] } := by
    refine { h with queue_eq := ?_ }
    show s.queue ++ [key] = r.queue ++ [key]
    rw [h.queue_eq]
  cases heviction : s.eviction with
  | immediate =>
    rw [Reference.onExpiredRead_immediate (h.eviction_eq ▸ heviction)]
    simp only [Store.onExpiredRead, heviction]
    exact h.expireLazily_one key
  | deferred =>
    rw [Reference.onExpiredRead_deferred (h.eviction_eq ▸ heviction)]
    refine ⟨_, ?_, hqueued⟩
    unfold Store.onExpiredRead
    rw [heviction]
    rfl

theorem get (h : s.Shows r) (key : Bytes) :
    ∃ s', s.get key = .ok ((r.get key).1, s') ∧ s'.Shows (r.get key).2 := by
  -- the read is counted first, whatever it finds
  obtain ⟨s₁, hs₁⟩ : ∃ s₁, s₁ = { s with tally.gets := s.tally.gets + 1 } := ⟨_, rfl⟩
  obtain ⟨r₁, hr₁⟩ : ∃ r₁, r₁ = { r with tally.gets := r.tally.gets + 1 } := ⟨_, rfl⟩
  have hcounted : s₁.Shows r₁ := by
    rw [hs₁, hr₁]
    refine { h with tally_eq := ?_ }
    show { s.tally with gets := s.tally.gets + 1 } = _
    rw [h.tally_eq]
  obtain ⟨e?, hentry, hvalue⟩ := hcounted.entry?_eq key
  have hlive := hcounted.isLive_eq key
  have hread : r.get key = r₁.read key := by rw [hr₁, Reference.get]
  rw [hread]
  simp only [Store.get, ← hs₁, Reference.read]
  cases hget : r₁.entries[key]? with
  | none =>
    simp only [hget, Option.all_none, Option.map_none, Option.map_eq_none_iff] at hlive hvalue
    have hcontains : r₁.entries.contains key = false := by
      rw [Std.ExtTreeMap.contains_eq_isSome_getElem?, hget]
      rfl
    simp only [hlive, ↓reduceIte, hentry, hvalue, Checked.ok_bind, Reference.live_of_absent hget,
      hcontains, Bool.false_eq_true]
    exact ⟨_, rfl, hcounted⟩
  | some e =>
    simp only [hget, Option.all_some] at hlive
    cases hkeep : e.liveAt r₁.now with
    | true =>
      rw [hkeep] at hlive
      simp only [hlive, ↓reduceIte, hentry, Checked.ok_bind, Reference.live_of_live hget hkeep]
      refine ⟨s₁, ?_, hcounted⟩
      have hmap : e?.map (fun e => e.value) = some e.value := by rw [hget] at hvalue; exact hvalue
      rw [hmap]
      rfl
    | false =>
      rw [hkeep] at hlive
      have hcontains : r₁.entries.contains key = true := by
        rw [Std.ExtTreeMap.contains_eq_isSome_getElem?, hget]
        rfl
      obtain ⟨s', hread, hshows⟩ := hcounted.onExpiredRead key
      simp only [hlive, Bool.false_eq_true, ↓reduceIte, hread, Checked.ok_bind,
        Reference.live_of_expired hget hkeep, hcontains]
      exact ⟨s', rfl, hshows⟩

theorem contains (h : s.Shows r) (key : Bytes) : s.contains key = .ok (r.live.contains key) := by
  obtain ⟨e?, hentry, hvalue⟩ := h.entry?_eq key
  have hlive := h.isLive_eq key
  have hsome : e?.isSome = r.entries[key]?.isSome := by
    rw [← Option.isSome_map (f := Element.value), hvalue, Option.isSome_map]
  rw [Std.ExtTreeMap.contains_eq_isSome_getElem?]
  simp only [Store.contains]
  cases hget : r.entries[key]? with
  | none =>
    simp only [hget, Option.all_none] at hlive hsome
    simp only [hlive, ↓reduceIte, hentry, Checked.ok_bind, hsome, Reference.live_of_absent hget]
    rfl
  | some e =>
    simp only [hget, Option.all_some] at hlive hsome
    cases hkeep : e.liveAt r.now with
    | true =>
      rw [hkeep] at hlive
      simp only [hlive, ↓reduceIte, hentry, Checked.ok_bind, hsome,
        Reference.live_of_live hget hkeep]
      rfl
    | false =>
      rw [hkeep] at hlive
      simp only [hlive, Bool.false_eq_true, ↓reduceIte, Reference.live_of_expired hget hkeep]
      rfl

/-! ### Deadlines of entries that are there -/

theorem ttl_eq (h : s.Shows r) (key : Bytes) : s.ttl key = r.ttl key := by
  rw [Store.ttl, Reference.ttl, Deadlines.remaining?, h.deadlines_eq, h.now_eq,
    Entries.getElem?_deadlines]
  cases hget : r.entries[key]? with
  | none =>
    rw [Reference.live_of_absent hget]
    rfl
  | some e =>
    cases hkeep : e.liveAt r.now with
    | true =>
      rw [Reference.live_of_live hget hkeep]
      simp only [Option.bind_some]
      cases hdeadline : e.deadline? with
      | none => rfl
      | some deadline =>
        simp only [Entry.liveAt, hdeadline, Option.all_some, decide_eq_true_eq] at hkeep
        simp [hkeep]
    | false =>
      rw [Reference.live_of_expired hget hkeep]
      simp only [Option.bind_some, Option.bind_none, Option.map_none]
      cases hdeadline : e.deadline? with
      | none => rfl
      | some deadline =>
        simp only [Entry.liveAt, hdeadline, Option.all_some, decide_eq_false_iff_not] at hkeep
        simp [hkeep]

theorem assign (h : s.Shows r) {key : Bytes} {e : Entry} (hget : r.entries[key]? = some e)
    (deadline? : Option Instant) :
    Shows { s with deadlines := s.deadlines.assign key deadline? }
      { r with entries := r.entries.insert key ⟨e.value, deadline?⟩ } := by
  refine { h with index := ?_, deadlines_eq := ?_ }
  · show s.index.Denotes (Entries.contents r.scoreMode (r.entries.insert key _))
    have hvalue : (⟨e.value, deadline?⟩ : Entry).value = e.value := rfl
    rw [Entries.contents_insert_of_value_eq r.scoreMode hget hvalue]
    exact h.index
  · show s.deadlines.assign key deadline? = Entries.deadlines (r.entries.insert key _)
    rw [Entries.deadlines_insert, h.deadlines_eq]

theorem expire (h : s.Shows r) (key : Bytes) (ttl : Duration) :
    ∃ s', s.expire key ttl = .ok ((r.expire key ttl).1, s') ∧
      s'.Shows (r.expire key ttl).2 := by
  obtain ⟨e?, hentry, hvalue⟩ := h.entry?_eq key
  have hlive := h.isLive_eq key
  have hdeadline : deadlineAfter s.now ttl = deadlineAfter r.now ttl := by rw [h.now_eq]
  simp only [Store.expire, Reference.expire, hdeadline, Reference.deadlineAfter_eq]
  cases r.refusal? ttl with
  | some error => exact ⟨s, rfl, h⟩
  | none =>
    cases hget : r.entries[key]? with
    | none =>
      rw [hget, Option.map_none, Option.map_eq_none_iff] at hvalue
      have hpurge : r.purgeLazily (fun other => other == key) = r := by
        have hnone : r.purge (fun other => other == key) = (0, r) := by
          apply Reference.purge_none
          intro other e hother _
          simp only [beq_eq_false_iff_ne, ne_eq]
          intro heq
          rw [heq, hget] at hother
          cases hother
        simp only [Reference.purgeLazily, hnone, Nat.add_zero]
      simp only [hentry, hvalue, Checked.ok_bind, Reference.live_of_absent hget, hpurge]
      exact ⟨s, rfl, h⟩
    | some e =>
      obtain ⟨found, rfl⟩ : ∃ found, e? = some found := by
        rw [hget, Option.map_some, Option.map_eq_some_iff] at hvalue
        obtain ⟨found, hfound, -⟩ := hvalue
        exact ⟨found, hfound⟩
      rw [hget, Option.all_some] at hlive
      simp only [hentry, Checked.ok_bind]
      cases hkeep : e.liveAt r.now with
      | true =>
        rw [hkeep] at hlive
        simp only [hlive, ↓reduceIte, Reference.live_of_live hget hkeep]
        exact ⟨_, rfl, h.assign hget (some (r.now + ttl))⟩
      | false =>
        rw [hkeep] at hlive
        obtain ⟨s', hexpire, hshows⟩ := h.expireLazily_one key
        simp only [hlive, Bool.false_eq_true, ↓reduceIte, Reference.live_of_expired hget hkeep,
          hexpire, Checked.ok_bind]
        exact ⟨s', rfl, hshows⟩

theorem persist (h : s.Shows r) (key : Bytes) :
    (s.persist key).1 = (r.persist key).1 ∧ (s.persist key).2.Shows (r.persist key).2 := by
  rw [Store.persist, h.ttl_eq, Reference.ttl, Reference.persist]
  cases hlive : r.live[key]? with
  | none => exact ⟨rfl, h⟩
  | some e =>
    rw [Reference.getElem?_live, Option.filter_eq_some_iff] at hlive
    obtain ⟨value, deadline?⟩ := e
    cases deadline? with
    | none => exact ⟨rfl, h⟩
    | some deadline => exact ⟨rfl, h.assign hlive.1 none⟩

/-! ### Reading all keys -/

theorem map_filter_live (h : s.Shows r) {es : List Element} {bs : List (Position × Bytes)}
    (hes : es.map Element.binding = bs) :
    (es.filter fun e => s.isLive e.key).map (fun e => (e.key, e.value)) =
      (bs.filter fun b => r.entries[b.1.key]?.all (Entry.liveAt r.now)).map fun b =>
        (b.1.key, b.2) := by
  have hkeep : (fun e : Element => s.isLive e.key) =
      (fun b : Position × Bytes => r.entries[b.1.key]?.all (Entry.liveAt r.now)) ∘
        Element.binding := by
    funext e
    exact h.isLive_eq e.key
  rw [← hes, List.filter_map, List.map_map, hkeep]
  rfl

theorem liveEntries (h : s.Shows r) :
    ∃ es, s.liveEntries = .ok es ∧ es.map (fun e => (e.key, e.value)) = r.listing := by
  obtain ⟨es, helements, hes⟩ := h.index.elements
  refine ⟨es.filter fun e => s.isLive e.key, ?_, ?_⟩
  · simp only [Store.liveEntries, helements, Checked.ok_bind]
    rfl
  · rw [h.map_filter_live hes, Reference.listing_eq_contents]

theorem keys (h : s.Shows r) : s.keys = .ok (r.listing.map Prod.fst) := by
  obtain ⟨es, hlive, hes⟩ := h.liveEntries
  simp only [Store.keys, hlive, Checked.ok_bind]
  rw [← hes, List.map_map]
  rfl

theorem liveCount (h : s.Shows r) : s.liveCount = .ok r.live.size := by
  obtain ⟨es, hlive, hes⟩ := h.liveEntries
  have hlength : es.length = r.live.size := by
    rw [← List.length_map (f := fun e : Element => (e.key, e.value)), hes, Reference.listing,
      List.length_mergeSort, List.length_map, Std.ExtTreeMap.length_toList]
  simp only [Store.liveCount, hlive, Checked.ok_bind, hlength]
  rfl

/-- Whether the walk to the entries under a stem seeks or looks at every entry, it finds the same. -/
theorem entriesUnder (h : s.Shows r) (stem : Bytes) :
    ∃ es, s.index.elements = .ok es ∧
      es.map Element.binding = (r.entries.contents r.scoreMode).toList ∧
      s.entriesUnder stem = .ok (es.filter fun e => stem.isPrefixOf e.key) := by
  obtain ⟨es, link, helements, hes, hseek, hfrom⟩ := h.index.elementsFrom (s.position stem)
  refine ⟨es, helements, hes, ?_⟩
  cases hmode : r.scoreMode with
  | ordered =>
    rw [hmode] at hes
    have hkeys : es.filter (fun e => !decide (e.position < s.position stem)) =
        es.filter fun e => !decide (e.key < stem) := by
      refine List.filter_congr fun e he => ?_
      rw [Entries.position_of_mem hes he, h.position_eq, hmode, decide_eq_decide.2]
      exact position_ordered_lt_iff
    rw [hkeys] at hfrom
    simp only [Store.entriesUnder, h.scoreMode_eq, hmode, ScoreMode.preservesKeyOrder, ↓reduceIte,
      hseek, hfrom, Checked.ok_bind,
      takeWhile_from_stem (Entries.pairwise_key_of_contents hes) stem]
    rfl
  | hashed =>
    simp only [Store.entriesUnder, h.scoreMode_eq, hmode, ScoreMode.preservesKeyOrder,
      Bool.false_eq_true, ↓reduceIte, helements, Checked.ok_bind]
    rfl

/-- A scan takes the first of the live entries that are under its stem. -/
theorem scanEntries (h : s.Shows r) (stem : Bytes) (limit : Nat) :
    ∃ es, s.liveEntries = .ok es ∧ es.map (fun e => (e.key, e.value)) = r.listing ∧
      s.scanEntries stem limit =
        .ok (SkipList.capped limit (es.filter fun e => stem.isPrefixOf e.key)) := by
  obtain ⟨es, helements, hes, hunder⟩ := h.entriesUnder stem
  refine ⟨es.filter fun e => s.isLive e.key, ?_, ?_, ?_⟩
  · simp only [Store.liveEntries, helements, Checked.ok_bind]
    rfl
  · rw [h.map_filter_live hes, Reference.listing_eq_contents]
  · -- leaving out the expired entries and those without the stem commute
    simp only [Store.scanEntries, hunder, Checked.ok_bind, List.filter_filter, Bool.and_comm]
    rfl

theorem scan (h : s.Shows r) (stem : Bytes) (limit : Nat) :
    s.scan stem limit = .ok (r.scan stem limit) := by
  obtain ⟨es, -, hes, hscan⟩ := h.scanEntries stem limit
  simp only [Store.scan, hscan, Checked.ok_bind, Checked.pure_eq]
  rw [← SkipList.capped_map, Reference.scan, ← hes, List.filter_map]
  rfl

/-! ### Commands -/

theorem stats_eq (h : s.Shows r) : { s.stats with levels := 0 } = r.stats := by
  simp only [Store.stats, Reference.stats, h.length_eq, Store.keysWithTtl, h.deadlines_eq,
    Entries.size_deadlines, h.tally_eq]

theorem close (h : s.Shows r) :
    s.close.1 = !r.sweeper.closed ∧
      s.close.2.Shows { r with sweeper.closed := true } := by
  refine ⟨?_, { h with sweeper_eq := ?_ }⟩
  · rw [Store.close, h.sweeper_eq]
  · show { s.sweeper with closed := true } = _
    rw [h.sweeper_eq]

theorem advance (h : s.Shows r) (d : Duration) :
    (s.advance d).Shows { r with now := r.now + d } := by
  refine { h with now_eq := ?_ }
  show s.now + d = r.now + d
  rw [h.now_eq]

theorem unleveled_ofOutcome (outcome : Except TtlError Bool) :
    (Reply.ofOutcome outcome).unleveled = .ofOutcome outcome := by
  cases outcome <;> rfl

theorem perform [WordSource γ] (h : s.Shows r) (command : Command) :
    ∃ reply s', s.perform command = .ok (reply, s') ∧
      reply.unleveled = (r.perform command).1 ∧ s'.Shows (r.perform command).2 := by
  cases command with
  | set key value =>
    obtain ⟨s', hput, hshows⟩ := h.put key value none
    refine ⟨.flag (r.put key value none).1, s', ?_, rfl, hshows⟩
    simp only [Store.perform, Store.set, hput, Checked.ok_bind]
    rfl
  | setWithTtl key value ttl =>
    obtain ⟨s', hset, hshows⟩ := h.setWithTtl key value ttl
    refine ⟨_, s', ?_, unleveled_ofOutcome _, hshows⟩
    simp only [Store.perform, hset, Checked.ok_bind]
    rfl
  | get key =>
    obtain ⟨s', hget, hshows⟩ := h.get key
    refine ⟨.value (r.get key).1, s', ?_, rfl, hshows⟩
    simp only [Store.perform, hget, Checked.ok_bind]
    rfl
  | contains key =>
    refine ⟨.flag (r.live.contains key), s, ?_, rfl, h⟩
    simp only [Store.perform, h.contains, Checked.ok_bind]
    rfl
  | delete key =>
    obtain ⟨s', hdelete, hshows⟩ := h.delete key
    refine ⟨.flag (r.delete key).1, s', ?_, rfl, hshows⟩
    simp only [Store.perform, hdelete, Checked.ok_bind]
    rfl
  | ttl key =>
    refine ⟨.remaining (r.ttl key), s, ?_, rfl, h⟩
    rw [Store.perform, h.ttl_eq]
    rfl
  | expire key ttl =>
    obtain ⟨s', hexpire, hshows⟩ := h.expire key ttl
    refine ⟨_, s', ?_, unleveled_ofOutcome _, hshows⟩
    simp only [Store.perform, hexpire, Checked.ok_bind]
    rfl
  | persist key =>
    obtain ⟨hchanged, hshows⟩ := h.persist key
    refine ⟨.flag (r.persist key).1, (s.persist key).2, ?_, rfl, hshows⟩
    rw [← hchanged]
    rfl
  | keys =>
    refine ⟨.keys (r.listing.map Prod.fst), s, ?_, rfl, h⟩
    simp only [Store.perform, h.keys, Checked.ok_bind]
    rfl
  | scan stem limit =>
    refine ⟨.entries (r.scan stem limit), s, ?_, rfl, h⟩
    simp only [Store.perform, h.scan, Checked.ok_bind]
    rfl
  | length =>
    refine ⟨.count r.entries.size, s, ?_, rfl, h⟩
    rw [Store.perform, h.length_eq]
    rfl
  | isEmpty =>
    refine ⟨.flag r.entries.isEmpty, s, ?_, rfl, h⟩
    rw [Store.perform, Store.isEmpty, h.length_eq, ← Std.ExtTreeMap.isEmpty_eq_size_beq_zero]
    rfl
  | liveCount =>
    refine ⟨.count r.live.size, s, ?_, rfl, h⟩
    simp only [Store.perform, h.liveCount, Checked.ok_bind]
    rfl
  | removeExpired =>
    obtain ⟨s', hremove, hshows⟩ := h.removeExpired
    refine ⟨.count r.sweep.1, s', ?_, rfl, hshows⟩
    simp only [Store.perform, hremove, Checked.ok_bind]
    rfl
  | flush => exact ⟨_, _, rfl, rfl, h.flush⟩
  | stats => exact ⟨_, s, rfl, congrArg Reply.stats h.stats_eq, h⟩
  | close =>
    obtain ⟨hfirst, hshows⟩ := h.close
    refine ⟨.flag (!r.sweeper.closed), s.close.2, ?_, rfl, hshows⟩
    rw [← hfirst]
    rfl
  | isClosed =>
    refine ⟨.flag r.sweeper.closed, s, ?_, rfl, h⟩
    rw [Store.perform, Store.isClosed, h.sweeper_eq]
    rfl
  | advance d => exact ⟨_, _, rfl, rfl, h.advance d⟩
  | runBackground =>
    obtain ⟨s', hrun, hshows⟩ := h.runBackgroundBy .standard
    refine ⟨.done, s', ?_, rfl, hshows⟩
    simp only [Store.perform, Store.runBackground, hrun, Checked.ok_bind]
    rfl

/-- By whatever timer the sweepers sleep, the two stores sweep at the same times. -/
theorem performBy [WordSource γ] (h : s.Shows r) (timer : Timer) (command : Command) :
    ∃ reply s', s.performBy timer command = .ok (reply, (r.performBy timer command).2.1, s') ∧
      reply.unleveled = (r.performBy timer command).1 ∧
      s'.Shows (r.performBy timer command).2.2 := by
  by_cases hbackground : command = .runBackground
  · subst hbackground
    obtain ⟨s', hrun, hshows⟩ := h.runBackgroundBy timer
    refine ⟨.done, s', ?_, rfl, hshows⟩
    simp only [Store.performBy, hrun, Checked.ok_bind, h.now_eq]
    rfl
  · obtain ⟨reply, s', hperform, hreply, hshows⟩ := h.perform command
    rw [Reference.performBy_of_ne timer r hbackground]
    refine ⟨reply, s', ?_, hreply, hshows⟩
    simp only [Store.performBy_of_ne timer s hbackground, hperform, Checked.ok_bind]
    rfl

theorem runBy [WordSource γ] (h : s.Shows r) (timer : Timer) (commands : List Command) :
    ∃ replies s', s.runBy timer commands = .ok (replies, (r.runBy timer commands).2.1, s') ∧
      replies.map Reply.unleveled = (r.runBy timer commands).1 ∧
      s'.Shows (r.runBy timer commands).2.2 := by
  induction commands generalizing s r with
  | nil => exact ⟨[], s, rfl, rfl, h⟩
  | cons command rest ih =>
    obtain ⟨reply, mid, hperform, hreply, hshows⟩ := h.performBy timer command
    obtain ⟨replies, s', hrun, hreplies, hshows'⟩ := ih hshows
    refine ⟨reply :: replies, s', ?_, ?_, hshows'⟩
    · simp only [Store.runBy, hperform, Checked.ok_bind, hrun]
      rfl
    · rw [List.map_cons, hreply, hreplies]
      rfl

theorem run [WordSource γ] (h : s.Shows r) (commands : List Command) :
    ∃ replies s', s.run commands = .ok (replies, s') ∧
      replies.map Reply.unleveled = (r.run commands).1 ∧ s'.Shows (r.run commands).2 := by
  obtain ⟨replies, s', hrun, hreplies, hshows⟩ := h.runBy .standard commands
  refine ⟨replies, s', ?_, hreplies, hshows⟩
  simp only [Store.run, hrun, Checked.ok_bind]
  rfl

end Store.Shows

/-! ### What leaves the map -/

namespace Reference

variable {r : Reference} {key : Bytes}

theorem mem_insert_of_mem (h : key ∈ r.entries) (other : Bytes) (e : Entry) :
    key ∈ r.entries.insert other e :=
  Std.ExtTreeMap.mem_insert.2 (Or.inr h)

theorem entries_read_deferred (heviction : r.eviction = .deferred) (key : Bytes) :
    (r.read key).2.entries = r.entries := by
  unfold read
  split
  · rfl
  · show (if r.entries.contains key then r.onExpiredRead key else r).entries = r.entries
    rw [onExpiredRead_deferred heviction]
    split <;> rfl

theorem mem_perform {command : Command} (hkeeps : command.removes r.eviction = false)
    (h : key ∈ r.entries) : key ∈ (r.perform command).2.entries := by
  cases command with
  | set other value => exact mem_insert_of_mem h _ _
  | setWithTtl other value ttl =>
    simp only [perform, setWithTtl]
    split
    · exact h
    · exact mem_insert_of_mem h _ _
  | get other =>
    have heviction : r.eviction = .deferred := by
      cases hchoice : r.eviction with
      | deferred => rfl
      | immediate =>
        rw [hchoice] at hkeeps
        cases hkeeps
    have hentries : (r.perform (.get other)).2.entries = r.entries :=
      entries_read_deferred (r := { r with tally.gets := r.tally.gets + 1 }) heviction other
    rw [hentries]
    exact h
  | persist other =>
    simp only [perform, persist]
    split
    · exact mem_insert_of_mem h _ _
    · exact h
  | delete | expire | removeExpired | flush | runBackground => cases hkeeps
  | _ => exact h

theorem mem_performBy (timer : Timer) {command : Command}
    (hkeeps : command.removes r.eviction = false) (h : key ∈ r.entries) :
    key ∈ (r.performBy timer command).2.2.entries := by
  have hbackground : command ≠ .runBackground := by
    rintro rfl
    cases hkeeps
  rw [performBy_of_ne timer r hbackground]
  exact mem_perform hkeeps h

end Reference

/-! ### Whole runs -/

/-- Every run of a store with a valid configuration is answered as the reference store answers it, and
ends with the same sizes and counters, whatever words are drawn and whatever timer the sweeper sleeps
by. Keys leave the reference store only by the commands that remove. -/
theorem store_refines_reference {γ : Type} [WordSource γ] {config : Config}
    (hvalid : config.check = .ok ()) (timer : Timer) (source : γ) (commands : List Command) :
    ∃ s replies sweeps t expected r, Store.create .present config source = .ok (.ok s) ∧
      s.runBy timer commands = .ok (replies, sweeps, t) ∧
      (Reference.create config).runBy timer commands = (expected, sweeps, r) ∧
      replies.map Reply.unleveled = expected ∧ { t.stats with levels := 0 } = r.stats ∧
      ∀ command, command.removes config.eviction = false →
        ∀ key ∈ r.entries, key ∈ (r.performBy timer command).2.2.entries := by
  obtain ⟨s, hcreate, hshows⟩ := Store.shows_create hvalid source
  obtain ⟨replies, t, hrun, hreplies, ht⟩ := hshows.runBy timer commands
  have hsettings := (Reference.create config).settings_runBy timer commands
  have heviction : ((Reference.create config).runBy timer commands).2.2.eviction = config.eviction :=
    congrArg Prod.snd hsettings
  refine ⟨s, replies, _, t, _, _, hcreate, hrun, rfl, hreplies, ht.stats_eq, ?_⟩
  intro command hkeeps key hkey
  exact Reference.mem_performBy timer (heviction ▸ hkeeps) hkey

theorem refines_reference_after_expiry :
    Config.check { scoreMode := .ordered, ceiling := 4 } = .ok () ∧
      ∃ s replies sweeps t,
        Store.create .present { scoreMode := .ordered, ceiling := 4 } (Xoshiro.ofSeed 9) =
          .ok (.ok s) ∧
        s.runBy .standard
          [.setWithTtl [97] [1] 5, .set [98] [2], .advance (2 * Duration.second), .get [97],
            .runBackground, .keys, .setWithTtl [97] [3] 0, .expire [98] (2 ^ 63 * Duration.second)] =
          .ok (replies, sweeps, t) ∧
        replies.map Reply.unleveled =
          [.flag true, .flag true, .done, .value none, .done, .keys [[98]], .refused .zero,
            .refused (.overflow (2 ^ 63 * Duration.second))] ∧
        sweeps = [2 * Duration.second] ∧ t.length = 1 ∧ t.keysWithTtl = 0 ∧
        t.tally = { gets := 1, sets := 2, lazilyExpired := 1 } := by
  have hvalid : Config.check { scoreMode := .ordered, ceiling := 4 } = .ok () := by decide
  obtain ⟨s, replies, sweeps, t, expected, r, hcreate, hrun, hreference, hreplies, hstats, -⟩ :=
    store_refines_reference hvalid .standard (Xoshiro.ofSeed 9)
      [.setWithTtl [97] [1] 5, .set [98] [2], .advance (2 * Duration.second), .get [97],
        .runBackground, .keys, .setWithTtl [97] [3] 0, .expire [98] (2 ^ 63 * Duration.second)]
  have hrules : ((Reference.create { scoreMode := .ordered, ceiling := 4 }).runBy .standard
      [.setWithTtl [97] [1] 5, .set [98] [2], .advance (2 * Duration.second), .get [97],
        .runBackground, .keys, .setWithTtl [97] [3] 0,
        .expire [98] (2 ^ 63 * Duration.second)]).map id (Prod.map id Reference.stats) =
      ([.flag true, .flag true, .done, .value none, .done, .keys [[98]], .refused .zero,
        .refused (.overflow (2 ^ 63 * Duration.second))], [2 * Duration.second],
        { keys := 1, keysWithTtl := 0, levels := 0
          tally := { gets := 1, sets := 2, lazilyExpired := 1 } }) := by decide +kernel
  rw [hreference] at hrules
  obtain ⟨rfl, hrest⟩ := Prod.mk.inj hrules
  obtain ⟨rfl, hend⟩ := Prod.mk.inj hrest
  rw [← hstats] at hend
  exact ⟨hvalid, s, replies, _, t, hcreate, hrun, hreplies, rfl, congrArg Stats.keys hend,
    congrArg Stats.keysWithTtl hend, congrArg Stats.tally hend⟩

end ExpiringStore
