import ExpiringStore.Proofs.Events

/-!
# Every entry is accounted for

An entry comes into a store when a write tells that its key is new, and it leaves by one of several
routes: it is deleted, flushed, or found to have expired, by a touch or by a sweep. Whichever route is
first counts the entry, and the others find nothing to count. What was created is therefore what is
still there together with what each route has counted.

## Main definitions

* `Step`, `Store.record`: a run with what its replies told.
* `Step.creates`, `Step.deletes`, `Step.flushed`: what a step brought in and took out.
* `Reference.held`: the entries that are there, and those that were counted as expired.
-/

namespace ExpiringStore

/-! ### What replies tell -/

def Command.creates (command : Command) (reply : Reply) : Bool :=
  match command with
  | .set .. | .setWithTtl .. => reply = .flag true
  | _ => false

def Command.deletes (command : Command) (reply : Reply) : Bool :=
  match command with
  | .delete _ => reply = .flag true
  | _ => false

/-- The number of entries that a command throws away unseen, if there are `length` of them. -/
def Command.flushed (length : Nat) : Command → Nat
  | .flush => length
  | _ => 0

theorem Reply.unleveled_eq_flag {reply : Reply} {answer : Bool} :
    reply.unleveled = .flag answer ↔ reply = .flag answer := by
  cases reply <;> simp [unleveled]

theorem Command.creates_unleveled (command : Command) (reply : Reply) :
    command.creates reply.unleveled = command.creates reply := by
  cases command <;> simp [creates, Reply.unleveled_eq_flag]

theorem Command.deletes_unleveled (command : Command) (reply : Reply) :
    command.deletes reply.unleveled = command.deletes reply := by
  cases command <;> simp [deletes, Reply.unleveled_eq_flag]

/-! ### The balance of the reference store -/

namespace Reference

variable {r : Reference} {key : Bytes}

def held (r : Reference) : Nat := r.entries.size + r.tally.lazilyExpired + r.tally.swept

theorem purge_fst_add (r : Reference) (named : Bytes → Bool) :
    (r.purge named).1 + (r.purge named).2.entries.size = r.entries.size :=
  Nat.sub_add_cancel (r.size_purge_le named)

theorem held_purgeLazily (r : Reference) (named : Bytes → Bool) :
    (r.purgeLazily named).held = r.held := by
  have hsize := r.purge_fst_add named
  show (r.purge named).2.entries.size + (r.tally.lazilyExpired + (r.purge named).1) +
    r.tally.swept = r.entries.size + r.tally.lazilyExpired + r.tally.swept
  omega

theorem held_sweepNamed (r : Reference) (named : Bytes → Bool) :
    (r.sweepNamed named).2.held = r.held := by
  have hsize := r.purge_fst_add named
  show (r.purge named).2.entries.size + r.tally.lazilyExpired +
    (r.tally.swept + (r.purge named).1) = r.entries.size + r.tally.lazilyExpired + r.tally.swept
  omega

theorem held_runBackgroundBy (timer : Timer) (r : Reference) :
    (r.runBackgroundBy timer).2.held = r.held := by
  have hqueue : r.runQueue.held = r.held := r.held_purgeLazily r.queue.contains
  unfold runBackgroundBy
  simp only
  split
  · exact (r.runQueue.held_sweepNamed fun _ => true).trans hqueue
  · exact hqueue

theorem held_read (r : Reference) (key : Bytes) : (r.read key).2.held = r.held := by
  obtain hsame | hpurge | hqueue := r.read_cases key
  · rw [hsame]
  · rw [hpurge]
    exact r.held_purgeLazily _
  · rw [hqueue]
    rfl

theorem held_put (r : Reference) (key value : Bytes) (deadline? : Option Instant) :
    (r.put key value deadline?).2.held = r.held + (r.put key value deadline?).1.toNat := by
  show (r.entries.insert key ⟨value, deadline?⟩).size + r.tally.lazilyExpired + r.tally.swept =
    r.entries.size + r.tally.lazilyExpired + r.tally.swept + (!r.entries.contains key).toNat
  rw [Std.ExtTreeMap.size_insert]
  cases r.entries.contains key
  · simp only [Bool.false_eq_true, ↓reduceIte, Bool.not_false, Bool.toNat_true]
    omega
  · rfl

theorem held_delete (r : Reference) (key : Bytes) :
    (r.delete key).2.held + (r.delete key).1.toNat = r.held := by
  show (r.entries.erase key).size + r.tally.lazilyExpired + r.tally.swept +
    (r.entries.contains key).toNat = r.entries.size + r.tally.lazilyExpired + r.tally.swept
  cases hkey : r.entries.contains key with
  | true =>
    have hsize := Entries.size_erase_add_one (Std.ExtTreeMap.contains_iff_mem.1 hkey)
    rw [Bool.toNat_true]
    omega
  | false =>
    rw [Std.ExtTreeMap.size_erase, hkey, if_neg Bool.false_ne_true]
    rfl

/-- Giving an entry that is there another deadline brings nothing in. -/
theorem held_insert_of_live {e : Entry} (hlive : r.live[key]? = some e) (e' : Entry) :
    held { r with entries := r.entries.insert key e' } = r.held := by
  have hget : r.entries[key]? = some e := by
    rw [getElem?_live, Option.filter_eq_some_iff] at hlive
    exact hlive.1
  have hkey : r.entries.contains key = true := by
    rw [Std.ExtTreeMap.contains_eq_isSome_getElem?, hget]
    rfl
  show (r.entries.insert key e').size + r.tally.lazilyExpired + r.tally.swept = r.held
  rw [Std.ExtTreeMap.size_insert, hkey, if_pos rfl]
  rfl

theorem held_expire (r : Reference) (key : Bytes) (ttl : Duration) :
    (r.expire key ttl).2.held = r.held := by
  unfold expire
  split
  · rfl
  · split
    next hlive => exact held_insert_of_live hlive _
    next => exact r.held_purgeLazily _

theorem held_persist (r : Reference) (key : Bytes) : (r.persist key).2.held = r.held := by
  unfold persist
  split
  next hlive => exact held_insert_of_live hlive _
  next => rfl

theorem held_setWithTtl (r : Reference) (key value : Bytes) (ttl : Duration) :
    (r.setWithTtl key value ttl).2.held =
      r.held + (decide (Reply.ofOutcome (r.setWithTtl key value ttl).1 = .flag true)).toNat := by
  unfold setWithTtl
  split
  · rfl
  · have hput := r.held_put key value (some (r.now + ttl))
    simpa [Reply.ofOutcome] using hput

/-- What is held after a command, and what it took out, is what was held before it and what it brought
in. -/
theorem held_perform (r : Reference) (command : Command) :
    (r.perform command).2.held + (command.deletes (r.perform command).1).toNat +
        command.flushed r.entries.size =
      r.held + (command.creates (r.perform command).1).toNat := by
  cases command with
  | set key value =>
    simpa [perform, Command.creates, Command.deletes, Command.flushed] using
      r.held_put key value none
  | setWithTtl key value ttl => exact r.held_setWithTtl key value ttl
  | get key => exact held_read { r with tally.gets := r.tally.gets + 1 } key
  | delete key =>
    simpa [perform, Command.creates, Command.deletes, Command.flushed] using r.held_delete key
  | expire key ttl => exact r.held_expire key ttl
  | persist key => exact r.held_persist key
  | removeExpired => exact r.held_sweepNamed fun _ => true
  | flush =>
    show 0 + r.tally.lazilyExpired + r.tally.swept + 0 + r.entries.size =
      r.entries.size + r.tally.lazilyExpired + r.tally.swept + 0
    omega
  | runBackground => exact r.held_runBackgroundBy .standard
  | _ => rfl

theorem held_handle (r : Reference) {event : Event} (hevent : ∀ command, event ≠ .command command) :
    (r.handle event).held = r.held := by
  cases event with
  | command command => exact absurd rfl (hevent command)
  | queued place =>
    simp only [handle]
    split
    · exact held_purgeLazily { r with queue := r.queue.eraseIdx place } _
    · rfl
  | sweep keys => exact r.held_sweepNamed keys.contains

end Reference

/-! ### Runs -/

/-- One event in the life of a store: the store before it, and the reply. -/
structure Step (γ : Type) where
  before : Store γ
  event : Event
  reply : Reply

namespace Step

variable {γ : Type}

def creates (step : Step γ) : Bool :=
  match step.event with
  | .command command => command.creates step.reply
  | _ => false

def deletes (step : Step γ) : Bool :=
  match step.event with
  | .command command => command.deletes step.reply
  | _ => false

def flushed (step : Step γ) : Nat :=
  match step.event with
  | .command command => command.flushed step.before.length
  | _ => 0

end Step

namespace Store

variable {γ : Type} {s t : Store γ} {r : Reference}

/-- The reply to an event. Background work has nobody to reply to. -/
def answer [WordSource γ] (s : Store γ) : Event → Checked (Reply × Store γ)
  | .command command => s.perform command
  | event => return (.done, ← s.handle event)

/-- The steps of a run, and the store after it. -/
def record [WordSource γ] (s : Store γ) : List Event → Checked (List (Step γ) × Store γ)
  | [] => return ([], s)
  | event :: rest => do
    let (reply, s') ← s.answer event
    let (steps, t) ← s'.record rest
    return (⟨s, event, reply⟩ :: steps, t)

theorem handle_of_answer [WordSource γ] {event : Event} {reply : Reply}
    (h : s.answer event = .ok (reply, t)) : s.handle event = .ok t := by
  cases event with
  | command command =>
    have hperform : s.perform command = .ok (reply, t) := h
    simp only [handle, hperform, Checked.ok_bind]
    rfl
  | queued | sweep =>
    obtain ⟨u, hhandle, hpure⟩ := Checked.bind_eq_ok h
    cases hpure
    exact hhandle

theorem handleAll_of_record [WordSource γ] {events : List Event} {steps : List (Step γ)}
    (h : s.record events = .ok (steps, t)) :
    s.handleAll events = .ok t ∧ steps.map Step.event = events := by
  induction events generalizing s steps with
  | nil =>
    cases h
    exact ⟨rfl, rfl⟩
  | cons event rest ih =>
    obtain ⟨⟨reply, mid⟩, hanswer, hrest⟩ := Checked.bind_eq_ok h
    obtain ⟨⟨later, u⟩, hrecord, hpure⟩ := Checked.bind_eq_ok hrest
    cases hpure
    obtain ⟨hall, hevents⟩ := ih hrecord
    refine ⟨?_, by rw [List.map_cons, hevents]⟩
    rw [handleAll, List.foldlM_cons, handle_of_answer hanswer, Checked.ok_bind]
    exact hall

namespace Shows

/-- One event keeps the balance. Only commands bring anything in or take anything out uncounted. -/
theorem answer [WordSource γ] (h : s.Shows r) (event : Event) :
    ∃ reply s' r', s.answer event = .ok (reply, s') ∧ s'.Shows r' ∧
      r'.held + (Step.deletes ⟨s, event, reply⟩).toNat + Step.flushed ⟨s, event, reply⟩ =
        r.held + (Step.creates ⟨s, event, reply⟩).toNat := by
  have hbackground := h.handle event
  cases event with
  | command command =>
    obtain ⟨reply, s', hperform, hreply, hshows⟩ := h.perform command
    refine ⟨reply, s', _, hperform, hshows, ?_⟩
    have hheld := r.held_perform command
    rw [← hreply, command.creates_unleveled, command.deletes_unleveled, ← h.length_eq] at hheld
    exact hheld
  | queued | sweep =>
    obtain ⟨s', hhandle, hshows⟩ := hbackground
    refine ⟨.done, s', _, ?_, hshows, r.held_handle fun _ heq => nomatch heq⟩
    simp only [Store.answer, hhandle, Checked.ok_bind]
    rfl

theorem record [WordSource γ] (h : s.Shows r) (events : List Event) :
    ∃ steps t r', s.record events = .ok (steps, t) ∧ t.Shows r' ∧
      r'.held + steps.countP Step.deletes + (steps.map Step.flushed).sum =
        r.held + steps.countP Step.creates := by
  induction events generalizing s r with
  | nil => exact ⟨[], s, r, rfl, h, rfl⟩
  | cons event rest ih =>
    obtain ⟨reply, mid, r₁, hanswer, hshows, hheld⟩ := h.answer event
    obtain ⟨steps, t, r', hrecord, hshows', hheld'⟩ := ih hshows
    refine ⟨⟨s, event, reply⟩ :: steps, t, r', ?_, hshows', ?_⟩
    · simp only [Store.record, hanswer, Checked.ok_bind, hrecord]
      rfl
    · have hcounts (p : Step γ → Bool) : (⟨s, event, reply⟩ :: steps).countP p =
          steps.countP p + (p ⟨s, event, reply⟩).toNat := by
        rw [List.countP_cons, Bool.toNat]
        cases p ⟨s, event, reply⟩ <;> rfl
      -- the balance of the first step and that of the others add up
      rw [hcounts, hcounts, List.map_cons, List.sum_cons]
      omega

end Shows

end Store

/-- Whatever has happened to a store with a valid configuration, the entries that were created are as
many as there are now, were deleted, were flushed, and were counted as expired, all taken together. -/
theorem entries_accounted {γ : Type} [WordSource γ] {config : Config}
    (hvalid : config.check = .ok ()) (source : γ) (events : List Event) :
    ∃ s steps t, Store.create .present config source = .ok (.ok s) ∧
      s.record events = .ok (steps, t) ∧
      s.handleAll events = .ok t ∧ steps.map Step.event = events ∧
      steps.countP Step.creates = t.length + steps.countP Step.deletes +
        (steps.map Step.flushed).sum + t.tally.lazilyExpired + t.tally.swept := by
  obtain ⟨s, hcreate, hshows⟩ := Store.shows_create hvalid source
  obtain ⟨steps, t, r, hrecord, hshows', hheld⟩ := hshows.record events
  obtain ⟨hall, hevents⟩ := Store.handleAll_of_record hrecord
  refine ⟨s, steps, t, hcreate, hrecord, hall, hevents, ?_⟩
  have hempty : (Reference.create config).held = 0 := rfl
  rw [hshows'.length_eq, hshows'.tally_eq]
  rw [hempty, Reference.held] at hheld
  omega

theorem entries_accounted_by_every_route :
    Config.check { scoreMode := .ordered, eviction := .deferred, ceiling := 3 } = .ok () ∧
      ∃ s steps t,
        Store.create .present { scoreMode := .ordered, eviction := .deferred, ceiling := 3 }
          (Xoshiro.ofSeed 5) = .ok (.ok s) ∧
        s.record
          [.command (.set [97] [1]), .command (.setWithTtl [98] [2] 5),
            .command (.setWithTtl [99] [3] 5), .command (.setWithTtl [100] [4] 5),
            .command (.setWithTtl [101] [5] 5), .command (.delete [97]), .command (.advance 5),
            .command (.get [98]), .command (.get [98]), .queued 1, .command (.expire [99] 9),
            .sweep [[100], [98]], .command .removeExpired, .command .runBackground,
            .command (.set [97] [6]), .command .flush, .command (.set [98] [7])] =
          .ok (steps, t) ∧
        steps.countP Step.creates = t.length + steps.countP Step.deletes +
          (steps.map Step.flushed).sum + t.tally.lazilyExpired + t.tally.swept := by
  have hvalid :
      Config.check { scoreMode := .ordered, eviction := .deferred, ceiling := 3 } = .ok () := by
    decide
  obtain ⟨s, steps, t, hcreate, hrecord, -, -, hcounts⟩ :=
    entries_accounted hvalid (Xoshiro.ofSeed 5)
      [.command (.set [97] [1]), .command (.setWithTtl [98] [2] 5),
        .command (.setWithTtl [99] [3] 5), .command (.setWithTtl [100] [4] 5),
        .command (.setWithTtl [101] [5] 5), .command (.delete [97]), .command (.advance 5),
        .command (.get [98]), .command (.get [98]), .queued 1, .command (.expire [99] 9),
        .sweep [[100], [98]], .command .removeExpired, .command .runBackground,
        .command (.set [97] [6]), .command .flush, .command (.set [98] [7])]
  exact ⟨hvalid, s, steps, t, hcreate, hrecord, hcounts⟩

end ExpiringStore
