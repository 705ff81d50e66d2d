import ExpiringStore.Proofs.Deferred
import ExpiringStore.Proofs.Pacing

/-!
# Closing is final

Two kinds of background work remove expired entries: the queue is worked off, and the sweeper sweeps
when its sleep is over. Closing a store stops the second kind for good and leaves the first one alone,
so from then on an expired entry that nobody touches and that the queue does not name stays.

## Main definitions

* `Command.touches`: whether a command deals with an entry, or with all of them.
* `Reference.Lingers`, `Store.Leftover`: an expired entry that background work does not look at.
* `Store.Retired`: what holds of a store that was closed.
-/

namespace ExpiringStore

/-- Whether a command may write, read or remove the entry of a key. -/
def Command.touches (key : Bytes) : Command → Bool
  | .set other _ | .setWithTtl other _ _ | .get other | .delete other | .expire other _ =>
    other == key
  | .removeExpired | .flush => true
  | _ => false

namespace Reference

variable {r : Reference} {timer : Timer} {command : Command} {commands : List Command}

/-! ### Open and closed -/

theorem closed_performBy (timer : Timer) (hclose : command ≠ .close) :
    (r.performBy timer command).2.2.sweeper.closed = r.sweeper.closed := by
  by_cases hbackground : command = .runBackground
  · subst hbackground
    show (r.runBackgroundBy timer).2.sweeper.closed = r.sweeper.closed
    unfold runBackgroundBy
    simp only
    split <;> rfl
  · rw [performBy_of_ne timer r hbackground]
    exact congrArg Sweeper.closed (r.precedes_perform hclose hbackground).sweeper_eq

theorem closed_runBy (timer : Timer) (hopen : .close ∉ commands) :
    (r.runBy timer commands).2.2.sweeper.closed = r.sweeper.closed := by
  induction commands generalizing r with
  | nil => rfl
  | cons command rest ih =>
    rw [List.mem_cons, not_or] at hopen
    exact (ih hopen.2).trans (closed_performBy timer (Ne.symm hopen.1))

/-- Background work of a closed store is the work on its queue, however long it has not been swept. -/
theorem runBackgroundBy_of_closed (hclosed : r.sweeper.closed = true) (timer : Timer) :
    r.runBackgroundBy timer = (false, r.runQueue) := by
  have hqueue : r.runQueue.sweeper.closed = true := hclosed
  simp only [runBackgroundBy, hqueue, Bool.not_true, Bool.false_and, Bool.false_eq_true, ↓reduceIte]

theorem runBackground_of_closed (hclosed : r.sweeper.closed = true) :
    r.runBackground = r.runQueue := by
  rw [runBackground, runBackgroundBy_of_closed hclosed]

/-- The timer makes no difference to a closed store. -/
theorem performBy_of_closed (hclosed : r.sweeper.closed = true) (timer : Timer)
    (command : Command) :
    r.performBy timer command = ((r.perform command).1, [], (r.perform command).2) := by
  by_cases hbackground : command = .runBackground
  · subst hbackground
    rw [perform, runBackground_of_closed hclosed, performBy, runBackgroundBy_of_closed hclosed]
    rfl
  · exact performBy_of_ne timer r hbackground

theorem closed_perform (hclosed : r.sweeper.closed = true) (command : Command) :
    (r.perform command).2.sweeper.closed = true := by
  by_cases hclose : command = .close
  · rw [hclose]
    rfl
  · have hstep := closed_performBy (r := r) .standard hclose
    rw [performBy_of_closed hclosed] at hstep
    exact hstep.trans hclosed

theorem runBy_of_closed (hclosed : r.sweeper.closed = true) (timer : Timer)
    (commands : List Command) :
    (r.runBy timer commands).2.1 = [] ∧
      (r.runBy timer commands).2.2.sweeper.closed = true := by
  induction commands generalizing r with
  | nil => exact ⟨rfl, hclosed⟩
  | cons command rest ih =>
    have hstep := performBy_of_closed hclosed timer command
    have hmid : (r.performBy timer command).2.2.sweeper.closed = true := by
      rw [hstep]
      exact closed_perform hclosed command
    obtain ⟨hrest, hlast⟩ := ih hmid
    refine ⟨?_, hlast⟩
    show (r.performBy timer command).2.1 ++
      ((r.performBy timer command).2.2.runBy timer rest).2.1 = []
    rw [hrest, hstep, List.append_nil]

/-- A closed store counts an entry as swept only when it is told to sweep. -/
theorem swept_perform (hclosed : r.sweeper.closed = true) (hremove : command ≠ .removeExpired) :
    (r.perform command).2.tally.swept = r.tally.swept := by
  by_cases hbackground : command = .runBackground
  · rw [hbackground, perform, runBackground_of_closed hclosed]
    rfl
  · exact congrArg Prod.snd (r.steady_perform hremove hbackground)

/-! ### Entries that nobody touches -/

/-- The entry of a key is there although its deadline has passed, and the queue does not name it. -/
structure Lingers (key value : Bytes) (deadline : Instant) (r : Reference) : Prop where
  getElem?_eq : r.entries[key]? = some ⟨value, some deadline⟩
  passed : deadline ≤ r.now
  unqueued : key ∉ r.queue

namespace Lingers

variable {key value other : Bytes} {deadline : Instant}

theorem live_eq (h : r.Lingers key value deadline) : r.live[key]? = none := by
  refine live_of_expired h.getElem?_eq ?_
  rw [Entry.liveAt, Option.all_some, decide_eq_false_iff_not]
  exact Nat.not_lt_of_le h.passed

theorem insert (h : r.Lingers key value deadline) (hother : other ≠ key) (e : Entry) :
    Lingers key value deadline { r with entries := r.entries.insert other e } := by
  refine { h with getElem?_eq := ?_ }
  exact (Entries.getElem?_insert_of_ne hother e).trans h.getElem?_eq

theorem erase (h : r.Lingers key value deadline) (hother : other ≠ key) :
    Lingers key value deadline { r with entries := r.entries.erase other } := by
  refine { h with getElem?_eq := ?_ }
  exact (Entries.getElem?_erase_of_ne hother).trans h.getElem?_eq

theorem purgeLazily (h : r.Lingers key value deadline) {named : Bytes → Bool}
    (hnamed : named key = false) : (r.purgeLazily named).Lingers key value deadline := by
  refine { h with getElem?_eq := ?_ }
  refine (getElem?_purge r named key).trans ?_
  rw [h.getElem?_eq, hnamed, Bool.not_false]
  simp only [Bool.or_true, Option.filter_some, ↓reduceIte]

theorem purgeLazily_one (h : r.Lingers key value deadline) (hother : other ≠ key) :
    (r.purgeLazily fun named => named == other).Lingers key value deadline :=
  h.purgeLazily (beq_eq_false_iff_ne.2 (Ne.symm hother))

theorem read (h : r.Lingers key value deadline) (hother : other ≠ key) :
    (r.read other).2.Lingers key value deadline := by
  obtain hsame | hpurge | hqueue := r.read_cases other
  · rw [hsame]
    exact h
  · rw [hpurge]
    exact h.purgeLazily_one hother
  · rw [hqueue]
    refine { h with unqueued := fun hmem => ?_ }
    cases List.mem_append.1 hmem with
    | inl hmem => exact h.unqueued hmem
    | inr hmem => exact hother (List.mem_singleton.1 hmem).symm

theorem expire (h : r.Lingers key value deadline) (hother : other ≠ key) (ttl : Duration) :
    (r.expire other ttl).2.Lingers key value deadline := by
  unfold Reference.expire
  split
  · exact h
  · split
    · exact h.insert hother _
    · exact h.purgeLazily_one hother

theorem persist (h : r.Lingers key value deadline) (other : Bytes) :
    (r.persist other).2.Lingers key value deadline := by
  unfold Reference.persist
  split
  next hlive =>
    refine h.insert (fun hother => ?_) _
    rw [hother, h.live_eq] at hlive
    cases hlive
  next => exact h

/-- Work on the queue passes the entry by, since the queue does not name it. -/
theorem runQueue (h : r.Lingers key value deadline) : r.runQueue.Lingers key value deadline := by
  have hnamed : r.queue.contains key = false := by
    rw [← Bool.not_eq_true, List.contains_iff_mem]
    exact h.unqueued
  exact { h.purgeLazily hnamed with unqueued := List.not_mem_nil }

theorem perform (h : r.Lingers key value deadline) (hclosed : r.sweeper.closed = true)
    (htouches : command.touches key = false) :
    (r.perform command).2.Lingers key value deadline := by
  cases command with
  | set other value' =>
    exact { h.insert (beq_eq_false_iff_ne.1 htouches) ⟨value', none⟩ with }
  | setWithTtl other value' ttl =>
    simp only [Reference.perform, setWithTtl]
    split
    · exact h
    · exact { h.insert (beq_eq_false_iff_ne.1 htouches) ⟨value', some (r.now + ttl)⟩ with }
  | get other =>
    exact read (r := { r with tally.gets := r.tally.gets + 1 }) { h with }
      (beq_eq_false_iff_ne.1 htouches)
  | delete other => exact { h.erase (beq_eq_false_iff_ne.1 htouches) with }
  | expire other ttl => exact h.expire (beq_eq_false_iff_ne.1 htouches) ttl
  | persist other => exact h.persist other
  | removeExpired | flush => cases htouches
  | close => exact { h with }
  | advance d => exact { h with passed := Nat.le_add_right_of_le h.passed }
  | runBackground =>
    rw [Reference.perform, runBackground_of_closed hclosed]
    exact h.runQueue
  | _ => exact h

theorem runBy (h : r.Lingers key value deadline) (hclosed : r.sweeper.closed = true) (timer : Timer)
    (htouches : ∀ command ∈ commands, command.touches key = false) :
    (r.runBy timer commands).2.2.Lingers key value deadline := by
  induction commands generalizing r with
  | nil => exact h
  | cons command rest ih =>
    have hfirst := h.perform hclosed (htouches command List.mem_cons_self)
    have hlater : ∀ later ∈ rest, later.touches key = false := fun later hlater =>
      htouches later (List.mem_cons_of_mem command hlater)
    have hlast := ih hfirst (closed_perform hclosed command) hlater
    simp only [Reference.runBy, performBy_of_closed hclosed]
    exact hlast

end Lingers

end Reference

/-! ### Stores that were closed -/

namespace Store

variable {γ : Type} {s : Store γ} {r : Reference}

/-- The store counts an entry whose deadline has passed and that its queue does not name. -/
structure Leftover (s : Store γ) (key value : Bytes) (deadline : Instant) : Prop where
  counted : ∃ es, s.index.elements = .ok es ∧ s.length = es.length ∧
    ∃ e ∈ es, e.key = key ∧ e.value = value
  deadline_eq : s.deadlines[key]? = some deadline
  passed : deadline ≤ s.now
  unqueued : key ∉ s.queue

/-- The store was closed for good. Whatever timer its sweeper would sleep by, background work removes
what is overdue in the queue and nothing else. -/
structure Retired [WordSource γ] (s : Store γ) : Prop where
  isClosed_eq : s.perform .isClosed = .ok (.flag true, s)
  close_eq : s.perform .close = .ok (.flag false, s)
  swept_eq : ∀ timer, ∀ command ≠ .removeExpired, ∃ reply t,
    s.performBy timer command = .ok (reply, [], t) ∧ t.tally.swept = s.tally.swept
  background : ∀ timer, ∃ t, s.runBackgroundBy timer = .ok (false, t) ∧ s.runQueue = .ok t ∧
    s.Without (s.overdue s.queue) t
  lingers : ∀ timer key value deadline, s.Leftover key value deadline →
    ∀ commands : List Command, (∀ command ∈ commands, command.touches key = false) →
      ∃ replies t, s.runBy timer commands = .ok (replies, [], t) ∧ t.Leftover key value deadline

namespace Shows

theorem leftover_iff (h : s.Shows r) {key value : Bytes} {deadline : Instant} :
    s.Leftover key value deadline ↔ r.Lingers key value deadline := by
  have hdeadlines : s.deadlines[key]? = r.entries[key]?.bind Entry.deadline? := by
    rw [h.deadlines_eq, Entries.getElem?_deadlines]
  obtain ⟨es, helements, hes⟩ := h.index.elements
  constructor
  · rintro ⟨⟨es', helements', -, hcounted⟩, hdeadline, hpassed, hunqueued⟩
    cases helements.symm.trans helements'
    refine ⟨?_, h.now_eq ▸ hpassed, h.queue_eq ▸ hunqueued⟩
    rw [hdeadlines] at hdeadline
    obtain ⟨⟨value', deadline?⟩, hget, hvalue⟩ :=
      Option.map_eq_some_iff.1 ((Entries.exists_element_iff hes).1 hcounted)
    rw [hget] at hdeadline ⊢
    obtain rfl : value' = value := hvalue
    obtain rfl : deadline? = some deadline := hdeadline
    rfl
  · intro hlingers
    have hlength : s.length = es.length := by
      rw [length, h.index.length_eq, ← Std.ExtTreeMap.length_toList, ← hes, List.length_map]
    refine ⟨⟨es, helements, hlength, ?_⟩, ?_, h.now_eq ▸ hlingers.passed,
      h.queue_eq ▸ hlingers.unqueued⟩
    · rw [Entries.exists_element_iff hes, hlingers.getElem?_eq]
      rfl
    · rw [hdeadlines, hlingers.getElem?_eq]
      rfl

theorem retired [WordSource γ] (h : s.Shows r) (hclosed : r.sweeper.closed = true) :
    s.Retired := by
  have hsweeper : s.sweeper.closed = true := by rw [h.sweeper_eq, hclosed]
  constructor
  case isClosed_eq =>
    rw [Store.perform, isClosed, hsweeper]
    rfl
  case close_eq =>
    have hsame : { s with sweeper.closed := true } = s := by rw [← hsweeper]
    show Except.ok (Reply.flag !s.sweeper.closed, { s with sweeper.closed := true }) = _
    rw [hsame, hsweeper]
    rfl
  case swept_eq =>
    intro timer command hremove
    obtain ⟨reply, t, hperform, -, ht⟩ := h.performBy timer command
    rw [Reference.performBy_of_closed hclosed] at hperform ht
    refine ⟨reply, t, hperform, ?_⟩
    rw [ht.tally_eq, h.tally_eq]
    exact Reference.swept_perform hclosed hremove
  case background =>
    intro timer
    obtain ⟨ts, hlayout, hruns⟩ := h.runQueue_thins
    obtain ⟨t, hrun, ht, hthins⟩ := hruns s.queue
    have hqueue : s.runQueue = .ok t := hrun
    have hsame : t.sweeper = r.sweeper := ht.sweeper_eq
    have hdue : t.sweeper.dueBy timer t.now = false := by
      rw [Sweeper.dueBy, hsame, hclosed]
      rfl
    refine ⟨t, ?_, hqueue, h.without hlayout ht hthins⟩
    simp only [Store.runBackgroundBy, hqueue, Checked.ok_bind, hdue, Bool.false_eq_true, ↓reduceIte]
    rfl
  case lingers =>
    intro timer key value deadline hleftover commands htouches
    obtain ⟨replies, t, hrun, -, ht⟩ := h.runBy timer commands
    rw [(Reference.runBy_of_closed hclosed timer commands).1] at hrun
    have hlingers := (h.leftover_iff.1 hleftover).runBy hclosed timer htouches
    exact ⟨replies, t, hrun, ht.leftover_iff.2 hlingers⟩

end Shows

end Store

/-- A store with a valid configuration is closed by the first call for it, and by that alone. From
then on there is no sweep in the background any more, whatever timer the sweeper would sleep by and
whatever happens, and only what is overdue in the queue is removed there. -/
theorem closing_is_final {γ : Type} [WordSource γ] {config : Config}
    (hvalid : config.check = .ok ()) (timer : Timer) (source : γ) {opening : List Command}
    (hopen : .close ∉ opening) (later : List Command) :
    ∃ s replies sweeps t u replies' v, Store.create .present config source = .ok (.ok s) ∧
      s.runBy timer opening = .ok (replies, sweeps, t) ∧
      t.perform .isClosed = .ok (.flag false, t) ∧ t.perform .close = .ok (.flag true, u) ∧
      u.runBy timer later = .ok (replies', [], v) ∧ v.Retired := by
  obtain ⟨s, hcreate, hshows⟩ := Store.shows_create hvalid source
  obtain ⟨replies, t, hopening, -, ht⟩ := hshows.runBy timer opening
  have hclosed : t.sweeper.closed = false := by
    rw [ht.sweeper_eq, Reference.closed_runBy timer hopen]
    rfl
  obtain ⟨r, hu, hshut⟩ : ∃ r, t.close.2.Shows r ∧ r.sweeper.closed = true := ⟨_, ht.close.2, rfl⟩
  obtain ⟨replies', v, hlater, -, hv⟩ := hu.runBy timer later
  obtain ⟨hsweeps, hlast⟩ := Reference.runBy_of_closed hshut timer later
  rw [hsweeps] at hlater
  refine ⟨s, replies, _, t, t.close.2, replies', v, hcreate, hopening, ?_, ?_, hlater,
    hv.retired hlast⟩
  · rw [Store.perform, Store.isClosed, hclosed]
    rfl
  · rw [Store.perform, Store.close, hclosed]
    rfl

theorem closing_is_final_with_an_expired_entry :
    Config.check { scoreMode := .ordered, ceiling := 3 } = .ok () ∧
      Command.close ∉ [Command.setWithTtl [97] [1] 5, .setWithTtl [98] [2] 5, .set [99] [3]] ∧
      ∃ s replies sweeps t u replies' v,
        Store.create .present { scoreMode := .ordered, ceiling := 3 } (Xoshiro.ofSeed 4) =
          .ok (.ok s) ∧
        s.runBy .standard [.setWithTtl [97] [1] 5, .setWithTtl [98] [2] 5, .set [99] [3]] =
          .ok (replies, sweeps, t) ∧
        t.perform .isClosed = .ok (.flag false, t) ∧ t.perform .close = .ok (.flag true, u) ∧
        u.runBy .standard
          [.advance 9, .get [97], .advance (9 * Duration.second), .close, .runBackground] =
            .ok (replies', [], v) ∧
        v.Retired ∧ v.Leftover [98] [2] 5 := by
  have hvalid : Config.check { scoreMode := .ordered, ceiling := 3 } = .ok () := by decide
  have hopen : Command.close ∉
      [Command.setWithTtl [97] [1] 5, .setWithTtl [98] [2] 5, .set [99] [3]] := by decide
  obtain ⟨s, replies, sweeps, t, u, replies', v, hcreate, hopening, hisClosed, hclose, hlater,
    hretired⟩ :=
    closing_is_final hvalid .standard (Xoshiro.ofSeed 4) hopen
      [.advance 9, .get [97], .advance (9 * Duration.second), .close, .runBackground]
  -- the entry that was not read is still there in the reference store
  obtain ⟨s', hcreate', hs⟩ := Store.shows_create hvalid (Xoshiro.ofSeed 4)
  cases hcreate.symm.trans hcreate'
  obtain ⟨_, t', hopening', -, ht⟩ := hs.runBy .standard
    [.setWithTtl [97] [1] 5, .setWithTtl [98] [2] 5, .set [99] [3]]
  cases hopening.symm.trans hopening'
  obtain ⟨_, u', hclose', -, hu⟩ := ht.perform .close
  cases hclose.symm.trans hclose'
  obtain ⟨_, v', hlater', -, hv⟩ := hu.runBy .standard
    [.advance 9, .get [97], .advance (9 * Duration.second), .close, .runBackground]
  rw [hlater] at hlater'
  cases hlater'
  have hleftover : v.Leftover [98] [2] 5 :=
    hv.leftover_iff.2 ⟨by decide +kernel, by decide +kernel, by decide +kernel⟩
  exact ⟨hvalid, hopen, s, replies, _, t, u, replies', v, hcreate, hopening, hisClosed, hclose,
    hlater, hretired, hleftover⟩

end ExpiringStore
