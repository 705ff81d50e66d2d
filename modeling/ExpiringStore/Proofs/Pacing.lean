import ExpiringStore.Proofs.Refinement
import ExpiringStore.Proofs.Timer

/-!
# The pace of the sweeper

Every deadline in a store lies behind the last sweep, since a sweep removes the deadlines that have
passed and a new one always lies ahead. While the sweeper sleeps as long as it should, an entry that
has expired therefore stays no longer than the sweeper sleeps, and the sweeps are as far apart as the
interval says.

## Main definitions

* `Entries.Ahead`: no deadline has passed at an instant.
* `Reference.Precedes`: what holds from one state to a later one while there is no sweep.
* `Reference.Paced`, `Reference.Sweeping`: the invariant of the sweeper, and how the times of the
  sweeps lead from one state to another.
* `Store.KeepsPace`: what the sweeps of a run and the background work after it have to do with time.
-/

namespace ExpiringStore

/-! ### Deadlines that lie ahead -/

namespace Entries

def Ahead (t : Instant) (entries : Entries) : Prop :=
  ∀ (key : Bytes) (e : Entry) (deadline : Instant),
    entries[key]? = some e → e.deadline? = some deadline → t < deadline

variable {t : Instant} {entries : Entries}

theorem ahead_empty (t : Instant) : Ahead t ∅ := by
  intro key e deadline hget
  rw [Std.ExtTreeMap.getElem?_empty] at hget
  cases hget

theorem Ahead.insert (h : entries.Ahead t) (key : Bytes) {e : Entry}
    (he : ∀ deadline, e.deadline? = some deadline → t < deadline) :
    Ahead t (entries.insert key e) := by
  intro other d deadline hget hdeadline
  rw [Std.ExtTreeMap.getElem?_insert] at hget
  split at hget
  next =>
    cases hget
    exact he deadline hdeadline
  next => exact h other d deadline hget hdeadline

theorem Ahead.erase (h : entries.Ahead t) (key : Bytes) : Ahead t (entries.erase key) := by
  intro other d deadline hget hdeadline
  rw [Std.ExtTreeMap.getElem?_erase] at hget
  split at hget
  next => cases hget
  next => exact h other d deadline hget hdeadline

theorem Ahead.filter (h : entries.Ahead t) (keep : Bytes → Entry → Bool) :
    Ahead t (entries.filter keep) := by
  intro key e deadline hget hdeadline
  rw [Std.ExtTreeMap.getElem?_filter', Option.filter_eq_some_iff] at hget
  exact h key e deadline hget.1 hdeadline

theorem ahead_filter_live (entries : Entries) (now : Instant) :
    Ahead now (entries.filter fun _ e => e.liveAt now) := by
  intro key e deadline hget hdeadline
  rw [Std.ExtTreeMap.getElem?_filter', Option.filter_eq_some_iff] at hget
  obtain ⟨-, hlive⟩ := hget
  rw [Entry.liveAt, hdeadline, Option.all_some, decide_eq_true_iff] at hlive
  exact hlive

end Entries

/-! ### Steps without a sweep -/

def Command.elapsed : Command → Duration
  | .advance d => d
  | _ => 0

namespace Reference

/-- From `r` to `r'` the time `d` has passed, the sweeper has not stirred, and every deadline that was
given lay ahead. -/
structure Precedes (r : Reference) (d : Duration) (r' : Reference) : Prop where
  sweeper_eq : r'.sweeper = r.sweeper
  now_eq : r'.now = r.now + d
  ahead : ∀ t ≤ r.now, r.entries.Ahead t → r'.entries.Ahead t

variable {r : Reference}

theorem precedes_refl (r : Reference) : r.Precedes 0 r := ⟨rfl, rfl, fun _ _ h => h⟩

theorem precedes_purgeLazily (r : Reference) (named : Bytes → Bool) :
    r.Precedes 0 (r.purgeLazily named) :=
  ⟨rfl, rfl, fun _ _ h => h.filter _⟩

theorem precedes_insert (r : Reference) (key : Bytes) {e : Entry}
    (he : ∀ deadline, e.deadline? = some deadline → r.now < deadline) :
    r.Precedes 0 { r with entries := r.entries.insert key e } :=
  ⟨rfl, rfl, fun _ ht h => h.insert key fun deadline hdeadline =>
    Nat.lt_of_le_of_lt ht (he deadline hdeadline)⟩

theorem precedes_read (r : Reference) (key : Bytes) : r.Precedes 0 (r.read key).2 := by
  obtain hsame | hpurge | hqueue := r.read_cases key
  · rw [hsame]
    exact r.precedes_refl
  · rw [hpurge]
    exact r.precedes_purgeLazily _
  · rw [hqueue]
    exact ⟨rfl, rfl, fun _ _ h => h⟩

theorem precedes_expire (r : Reference) (key : Bytes) (ttl : Duration) :
    r.Precedes 0 (r.expire key ttl).2 := by
  unfold expire
  split
  next => exact r.precedes_refl
  next haccepted =>
    split
    · refine r.precedes_insert key fun deadline hdeadline => ?_
      cases hdeadline
      exact lt_add_of_refusal?_eq_none haccepted
    · exact r.precedes_purgeLazily _

theorem precedes_setWithTtl (r : Reference) (key value : Bytes) (ttl : Duration) :
    r.Precedes 0 (r.setWithTtl key value ttl).2 := by
  unfold setWithTtl
  split
  next => exact r.precedes_refl
  next haccepted =>
    refine { r.precedes_insert key (e := ⟨value, some (r.now + ttl)⟩)
      fun deadline hdeadline => ?_ with }
    cases hdeadline
    exact lt_add_of_refusal?_eq_none haccepted

theorem precedes_persist (r : Reference) (key : Bytes) : r.Precedes 0 (r.persist key).2 := by
  unfold persist
  split
  · exact r.precedes_insert key fun _ hdeadline => nomatch hdeadline
  · exact r.precedes_refl

theorem precedes_perform (r : Reference) {command : Command} (hclose : command ≠ .close)
    (hbackground : command ≠ .runBackground) : r.Precedes command.elapsed (r.perform command).2 := by
  cases command with
  | set key value =>
    exact { r.precedes_insert key (e := ⟨value, none⟩) fun _ hdeadline => nomatch hdeadline with }
  | setWithTtl key value ttl => exact r.precedes_setWithTtl key value ttl
  | get key => exact { precedes_read { r with tally.gets := r.tally.gets + 1 } key with }
  | delete key => exact ⟨rfl, rfl, fun _ _ h => h.erase key⟩
  | expire key ttl => exact r.precedes_expire key ttl
  | persist key => exact r.precedes_persist key
  | removeExpired => exact ⟨rfl, rfl, fun _ _ h => h.filter _⟩
  | flush => exact ⟨rfl, rfl, fun t _ _ => Entries.ahead_empty t⟩
  | advance d => exact ⟨rfl, rfl, fun _ _ h => h⟩
  | close => exact absurd rfl hclose
  | runBackground => exact absurd rfl hbackground
  | _ => exact r.precedes_refl

end Reference

/-! ### Sweeps that are apart -/

namespace Timer

/-- If the clock can show when the interval ends that starts at `a`, then `b` is not before it. -/
def Apart (interval : Duration) (a b : Instant) : Prop :=
  Instant.Representable (a + interval) → a + interval ≤ b

theorem isChain_cons_append {R : Instant → Instant → Prop} {t : Instant} {ts us : List Instant}
    (hts : (t :: ts).IsChain R) (hus : (ts.getLastD t :: us).IsChain R) :
    (t :: (ts ++ us)).IsChain R := by
  induction ts generalizing t with
  | nil => exact hus
  | cons u ts ih =>
    rw [List.isChain_cons_cons] at hts
    rw [List.getLastD_cons] at hus
    exact List.isChain_cons_cons.2 ⟨hts.1, ih hts.2 hus⟩

theorem getLastD_append (ts us : List Instant) (t : Instant) :
    (ts ++ us).getLastD t = us.getLastD (ts.getLastD t) := by
  induction ts generalizing t with
  | nil => rfl
  | cons u ts ih => rw [List.cons_append, List.getLastD_cons, List.getLastD_cons, ih]

/-- Instants that are an interval apart are so many intervals away from where they started. -/
theorem add_mul_le_getLastD {interval : Duration} {t : Instant} {ts : List Instant}
    (hapart : (t :: ts).IsChain (Apart interval))
    (hshown : ∀ u ∈ (t :: ts).dropLast, Instant.Representable (u + interval)) :
    t + ts.length * interval ≤ ts.getLastD t := by
  induction ts generalizing t with
  | nil => simp
  | cons u ts ih =>
    rw [List.isChain_cons_cons] at hapart
    rw [List.dropLast_cons_cons] at hshown
    have hnext : t + interval ≤ u := hapart.1 (hshown t List.mem_cons_self)
    have hrest := ih hapart.2 fun v hv => hshown v (List.mem_cons_of_mem t hv)
    rw [List.getLastD_cons, List.length_cons, Nat.succ_mul]
    simp only [Instant, Duration] at hnext hrest ⊢
    omega

end Timer

/-! ### The invariant of the sweeper -/

namespace Reference

variable {r r' : Reference} {interval d : Duration} {timer : Timer}

/-- The sweeper is at work, and every deadline lies behind its last sweep. -/
structure Paced (interval : Duration) (r : Reference) : Prop where
  closed_eq : r.sweeper.closed = false
  interval_eq : r.sweeper.interval = interval
  since_le : r.sweeper.since ≤ r.now
  ahead : r.entries.Ahead r.sweeper.since

theorem paced_create (config : Config) : (create config).Paced config.sweepInterval :=
  ⟨rfl, rfl, Nat.le_refl _, Entries.ahead_empty _⟩

theorem Paced.precedes (h : r.Paced interval) (hprecedes : r.Precedes d r') :
    r'.Paced interval := by
  obtain ⟨hsweeper, hnow, hahead⟩ := hprecedes
  constructor
  case closed_eq => rw [hsweeper, h.closed_eq]
  case interval_eq => rw [hsweeper, h.interval_eq]
  case since_le =>
    rw [hsweeper, hnow]
    exact Nat.le_add_right_of_le h.since_le
  case ahead =>
    rw [hsweeper]
    exact hahead _ h.since_le h.ahead

/-- From `r` to `r'` the time `d` has passed, with sweeps at the times `sweeps`. -/
structure Sweeping (interval : Duration) (r : Reference) (sweeps : List Instant) (d : Duration)
    (r' : Reference) : Prop where
  paced : r'.Paced interval
  now_eq : r'.now = r.now + d
  since_eq : r'.sweeper.since = sweeps.getLastD r.sweeper.since
  apart : Instant.Representable r'.now →
    (r.sweeper.since :: sweeps).IsChain (Timer.Apart interval)

theorem Paced.sweeping (h : r.Paced interval) (hprecedes : r.Precedes d r') :
    Sweeping interval r [] d r' := by
  constructor
  case paced => exact h.precedes hprecedes
  case now_eq => exact hprecedes.now_eq
  case since_eq =>
    rw [hprecedes.sweeper_eq]
    rfl
  case apart => exact fun _ => .singleton _

theorem Sweeping.trans {r₁ r₂ r₃ : Reference} {sweeps later : List Instant} {d' : Duration}
    (h : Sweeping interval r₁ sweeps d r₂) (h' : Sweeping interval r₂ later d' r₃) :
    Sweeping interval r₁ (sweeps ++ later) (d + d') r₃ := by
  constructor
  case paced => exact h'.paced
  case now_eq => rw [h'.now_eq, h.now_eq, Nat.add_assoc]
  case since_eq => rw [h'.since_eq, h.since_eq, Timer.getLastD_append]
  case apart =>
    intro hnow
    have hle : r₂.now ≤ r₃.now := h'.now_eq ▸ Nat.le_add_right r₂.now d'
    have hlater := h'.apart hnow
    rw [h.since_eq] at hlater
    exact Timer.isChain_cons_append (h.apart (hnow.mono hle)) hlater

/-- While the sweeper is at work, the timer alone decides whether there is a sweep. -/
theorem Paced.runBackgroundBy_eq (h : r.Paced interval) (timer : Timer) :
    r.runBackgroundBy timer =
      if timer r.sweeper.since interval r.now then
        (true, { r.runQueue.sweep.2 with sweeper.since := r.now })
      else (false, r.runQueue) := by
  have hdue : (!r.runQueue.sweeper.closed &&
      timer r.runQueue.sweeper.since r.runQueue.sweeper.interval r.runQueue.now) =
        timer r.sweeper.since interval r.now := by
    show (!r.sweeper.closed && timer r.sweeper.since r.sweeper.interval r.now) = _
    rw [h.closed_eq, h.interval_eq, Bool.not_false, Bool.true_and]
  simp only [Reference.runBackgroundBy, hdue]
  rfl

theorem precedes_runQueue (r : Reference) : r.Precedes 0 r.runQueue :=
  { r.precedes_purgeLazily r.queue.contains with }

/-- A sweep of background work is an interval behind the last one, and leaves no deadline that has
passed. -/
theorem sweeping_sweep (h : r.Paced interval) (hkeeps : timer.Keeps interval)
    (hdue : timer r.sweeper.since interval r.now = true) :
    Sweeping interval r [r.now] 0 { r.sweep.2 with sweeper.since := r.now } := by
  constructor
  case paced =>
    refine ⟨h.closed_eq, h.interval_eq, Nat.le_refl _, ?_⟩
    have hlive : (fun (_ : Bytes) (e : Entry) => e.liveAt r.now || !true) =
        fun _ e => e.liveAt r.now := by
      funext _ e
      rw [Bool.not_true, Bool.or_false]
    show Entries.Ahead r.now (r.entries.filter fun _ e => e.liveAt r.now || !true)
    rw [hlive]
    exact r.entries.ahead_filter_live r.now
  case now_eq => rfl
  case since_eq => rfl
  case apart =>
    intro hnow
    refine List.isChain_cons_cons.2 ⟨fun hshown => ?_, .singleton _⟩
    exact hkeeps.add_le hnow hshown hdue

theorem Paced.runBackgroundBy (h : r.Paced interval) (hkeeps : timer.Keeps interval) :
    Sweeping interval r (if (r.runBackgroundBy timer).1 then [r.now] else []) 0
      (r.runBackgroundBy timer).2 := by
  have hqueue := h.sweeping r.precedes_runQueue
  rw [h.runBackgroundBy_eq timer]
  by_cases hdue : timer r.sweeper.since interval r.now = true
  · simp only [hdue, ↓reduceIte]
    exact hqueue.trans (sweeping_sweep hqueue.paced hkeeps hdue)
  · simp only [hdue, Bool.false_eq_true, ↓reduceIte]
    exact hqueue

theorem Paced.performBy (h : r.Paced interval) (hkeeps : timer.Keeps interval) {command : Command}
    (hclose : command ≠ .close) :
    Sweeping interval r (r.performBy timer command).2.1 command.elapsed
      (r.performBy timer command).2.2 := by
  by_cases hbackground : command = .runBackground
  · subst hbackground
    exact h.runBackgroundBy hkeeps
  · rw [performBy_of_ne timer r hbackground]
    exact h.sweeping (r.precedes_perform hclose hbackground)

theorem Paced.runBy (h : r.Paced interval) (hkeeps : timer.Keeps interval) {commands : List Command}
    (hclose : .close ∉ commands) :
    Sweeping interval r (r.runBy timer commands).2.1 (commands.map Command.elapsed).sum
      (r.runBy timer commands).2.2 := by
  induction commands generalizing r with
  | nil => exact h.sweeping r.precedes_refl
  | cons command rest ih =>
    rw [List.mem_cons, not_or] at hclose
    have hstep := h.performBy hkeeps (Ne.symm hclose.1)
    rw [List.map_cons, List.sum_cons]
    exact hstep.trans (ih hstep.paced hclose.2)

/-- After background work without a sweep, the last sweep was not long ago. -/
theorem Paced.lt_add (h : r.Paced interval) (hkeeps : timer.Keeps interval)
    (hnow : Instant.Representable r.now) (hswept : (r.runBackgroundBy timer).1 = false) :
    r.now < r.sweeper.since + (interval + Duration.millisecond) := by
  have hdue : timer r.sweeper.since interval r.now = false := by
    by_contra hdue
    rw [Bool.not_eq_false] at hdue
    rw [h.runBackgroundBy_eq timer, hdue] at hswept
    cases hswept
  exact hkeeps.lt_add hnow hdue

/-- After background work, no entry has been expired for long. -/
theorem Paced.sub_lt (h : r.Paced interval) (hkeeps : timer.Keeps interval)
    (hnow : Instant.Representable r.now) {key : Bytes} {e : Entry} {deadline : Instant}
    (hget : (r.runBackgroundBy timer).2.entries[key]? = some e)
    (hdeadline : e.deadline? = some deadline) (hle : deadline ≤ r.now) :
    r.now - deadline < interval + Duration.millisecond := by
  have hsweeping := h.runBackgroundBy hkeeps
  have hlt := hsweeping.paced.ahead key e deadline hget hdeadline
  rw [hsweeping.since_eq] at hlt
  cases hswept : (r.runBackgroundBy timer).1 with
  | true =>
    rw [hswept, if_pos rfl] at hlt
    exact absurd hlt (Nat.not_lt_of_le hle)
  | false =>
    rw [hswept, if_neg Bool.false_ne_true] at hlt
    have hwait := h.lt_add hkeeps hnow hswept
    simp only [List.getLastD_nil, Instant, Duration] at hlt hwait hle ⊢
    omega

end Reference

/-! ### Runs of a store -/

namespace Store

variable {γ : Type} {s : Store γ} {r : Reference}

/-- From `s` to `s'`, background work went through the queue and then, if `swept`, swept once. -/
def WorksOnce (s : Store γ) (swept : Bool) (s' : Store γ) : Prop :=
  ∃ mid, s.runQueue = .ok mid ∧
    if swept then
      ∃ count after, mid.removeExpired = .ok (count, after) ∧
        s' = { after with sweeper.since := after.now }
    else s' = mid

theorem worksOnce_of_runBackgroundBy {timer : Timer} {swept : Bool} {s' : Store γ}
    (h : s.runBackgroundBy timer = .ok (swept, s')) : s.WorksOnce swept s' := by
  obtain ⟨mid, hqueue, hrest⟩ := Checked.bind_eq_ok h
  refine ⟨mid, hqueue, ?_⟩
  split at hrest
  next =>
    obtain ⟨⟨count, after⟩, hremove, hpure⟩ := Checked.bind_eq_ok hrest
    cases hpure
    rw [if_pos rfl]
    exact ⟨count, after, hremove, rfl⟩
  next =>
    cases hrest
    rw [if_neg Bool.false_ne_true]

/-- The background work of a run swept at the times `sweeps` until the state `t`, and then it went on
to `t'`, sweeping again or not. -/
structure KeepsPace (interval : Duration) (sweeps : List Instant) (t : Store γ) (swept : Bool)
    (t' : Store γ) : Prop where
  /-- No entry that is left has been expired for long. -/
  fresh : ∀ (key : Bytes) (deadline : Instant), t'.deadlines[key]? = some deadline →
    deadline ≤ t.now → t.now - deadline < interval + Duration.millisecond
  /-- Sweeps are an interval apart, the first from the start of the clock. -/
  apart : (0 :: sweeps).IsChain (Timer.Apart interval)
  length_le : (∀ start ∈ (0 :: sweeps).dropLast, Instant.Representable (start + interval)) →
    sweeps.length ≤ t.now / interval
  /-- No sweep is put off for long. -/
  prompt : sweeps.getLastD 0 + (interval + Duration.millisecond) ≤ t.now → swept = true

theorem keepsPace_of_sweeping {timer : Timer} {interval : Duration} {sweeps : List Instant}
    {d : Duration} {t t' : Store γ} {q : Reference} (hpositive : 0 < interval)
    (hkeeps : timer.Keeps interval) (hstart : r.sweeper.since = 0)
    (hsweeping : Reference.Sweeping interval r sweeps d q) (ht : t.Shows q)
    (ht' : t'.Shows (q.runBackgroundBy timer).2) (hnow : Instant.Representable t.now) :
    t.KeepsPace interval sweeps (q.runBackgroundBy timer).1 t' := by
  have hsince := hsweeping.since_eq
  have hapart := hsweeping.apart (ht.now_eq ▸ hnow)
  rw [hstart] at hsince hapart
  rw [ht.now_eq] at hnow
  constructor
  case fresh =>
    intro key deadline hdeadline hle
    rw [ht'.deadlines_eq, Entries.getElem?_deadlines, Option.bind_eq_some_iff] at hdeadline
    obtain ⟨e, hget, hdeadline⟩ := hdeadline
    rw [ht.now_eq] at hle ⊢
    exact hsweeping.paced.sub_lt hkeeps hnow hget hdeadline hle
  case apart => exact hapart
  case length_le =>
    intro hshown
    have hmul := Timer.add_mul_le_getLastD hapart hshown
    have hle := hsweeping.paced.since_le
    rw [Nat.zero_add, ← hsince] at hmul
    rw [ht.now_eq, Nat.le_div_iff_mul_le hpositive]
    exact Nat.le_trans hmul hle
  case prompt =>
    intro hlate
    rw [← hsince, ht.now_eq] at hlate
    by_contra hswept
    rw [Bool.not_eq_true] at hswept
    exact Nat.not_lt_of_le hlate (hsweeping.paced.lt_add hkeeps hnow hswept)

end Store

/-- Until a store with a valid configuration is closed, its background work keeps pace by any timer
whose sleeps last as long as they should, at every time that the clock can show. -/
theorem background_keeps_pace {γ : Type} [WordSource γ] {timer : Timer} {config : Config}
    (hvalid : config.check = .ok ()) (hkeeps : timer.Keeps config.sweepInterval) (source : γ)
    {commands : List Command} (hopen : .close ∉ commands) :
    ∃ s replies sweeps t swept t', Store.create .present config source = .ok (.ok s) ∧
      s.runBy timer commands = .ok (replies, sweeps, t) ∧
      t.runBackgroundBy timer = .ok (swept, t') ∧
      t.now = (commands.map Command.elapsed).sum ∧ t'.now = t.now ∧ t.WorksOnce swept t' ∧
      (Instant.Representable t.now → t.KeepsPace config.sweepInterval sweeps swept t') := by
  obtain ⟨hpositive, -⟩ := (Config.check_eq_ok_iff config).1 hvalid
  obtain ⟨s, hcreate, hshows⟩ := Store.shows_create hvalid source
  obtain ⟨replies, t, hrun, -, ht⟩ := hshows.runBy timer commands
  obtain ⟨t', hbackground, ht'⟩ := ht.runBackgroundBy timer
  have hsweeping := (Reference.paced_create config).runBy hkeeps hopen
  refine ⟨s, replies, _, t, _, t', hcreate, hrun, hbackground, ?_, ?_, ?_, ?_⟩
  · rw [ht.now_eq, hsweeping.now_eq]
    exact Nat.zero_add _
  · rw [ht'.now_eq, (hsweeping.paced.runBackgroundBy hkeeps).now_eq, ht.now_eq, Nat.add_zero]
  · exact Store.worksOnce_of_runBackgroundBy hbackground
  · exact Store.keepsPace_of_sweeping hpositive hkeeps rfl hsweeping ht ht'

theorem background_keeps_pace_every_ten_milliseconds :
    Config.check { sweepInterval := 10 * Duration.millisecond } = .ok () ∧
      Timer.standard.Keeps (10 * Duration.millisecond) ∧
      Command.close ∉ [Command.setWithTtl [97] [1] 5, .advance (12 * Duration.millisecond),
        .runBackground, .setWithTtl [98] [2] 5, .advance (9 * Duration.millisecond), .get [98]] ∧
      ∃ s replies sweeps t swept t',
        Store.create .present { sweepInterval := 10 * Duration.millisecond } (Xoshiro.ofSeed 5) =
          .ok (.ok s) ∧
        s.runBy .standard [.setWithTtl [97] [1] 5, .advance (12 * Duration.millisecond),
          .runBackground, .setWithTtl [98] [2] 5, .advance (9 * Duration.millisecond),
          .get [98]] = .ok (replies, sweeps, t) ∧
        t.runBackgroundBy .standard = .ok (swept, t') ∧ t.now = 21 * Duration.millisecond ∧
        t.WorksOnce swept t' ∧ t.KeepsPace (10 * Duration.millisecond) sweeps swept t' := by
  have hvalid : Config.check { sweepInterval := 10 * Duration.millisecond } = .ok () := by decide
  have hkeeps := Timer.standard_keeps (10 * Duration.millisecond)
  have hopen : Command.close ∉ [Command.setWithTtl [97] [1] 5, .advance (12 * Duration.millisecond),
      .runBackground, .setWithTtl [98] [2] 5, .advance (9 * Duration.millisecond), .get [98]] := by
    decide
  obtain ⟨s, replies, sweeps, t, swept, t', hcreate, hrun, hbackground, hnow, -, honce, hpace⟩ :=
    background_keeps_pace hvalid hkeeps (Xoshiro.ofSeed 5) hopen
  have hend : t.now = 21 * Duration.millisecond := hnow
  have hshown : Instant.Representable t.now := by
    rw [hend]
    decide
  exact ⟨hvalid, hkeeps, hopen, s, replies, sweeps, t, swept, t', hcreate, hrun, hbackground,
    hend, honce, hpace hshown⟩

end ExpiringStore
