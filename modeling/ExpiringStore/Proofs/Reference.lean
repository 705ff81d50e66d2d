import ExpiringStore.Store.Command

/-!
# The reference store

A store without an index: one map from keys to values with their deadlines, a queue of keys that are
to be looked at later, and the counters. What has expired is filtered out of the map wherever a step
reads it, and it leaves the map only where a step purges it. The rules are its own: of the functions
of a store it uses the positions alone, which tell in what order keys are listed.

## Main definitions

* `Reference`, `Reference.live`: the store, and the part of its map that readers see.
* `Reference.purge`: the removal of expired keys.
* `Reference.refusal?`: why a time to live is refused.
* `Reference.perform`, `Reference.run`: what a store does, said of the map.
* `Reference.performBy`, `Reference.runBy`: the same by any timer, with the times of the sweeps.
-/

namespace ExpiringStore

structure Entry where
  value : Bytes
  deadline? : Option Instant
  deriving DecidableEq, Repr

def Entry.liveAt (now : Instant) (e : Entry) : Bool := e.deadline?.all fun deadline => now < deadline

abbrev Entries := Std.ExtTreeMap Bytes Entry

structure Reference where
  entries : Entries
  queue : List Bytes
  tally : Tally
  sweeper : Sweeper
  now : Instant
  scoreMode : ScoreMode
  eviction : Eviction

namespace Reference

def create (config : Config) : Reference :=
  { entries := ∅, queue := [], tally := {}, now := 0
    sweeper := { interval := config.sweepInterval, since := 0, closed := false }
    scoreMode := config.scoreMode, eviction := config.eviction }

/-- The entries that readers see. -/
def live (r : Reference) : Entries := r.entries.filter fun _ e => e.liveAt r.now

/-! ### Removal of what has expired -/

/-- Removes the named keys that have expired, and counts them. -/
def purge (r : Reference) (named : Bytes → Bool) : Nat × Reference :=
  let entries := r.entries.filter fun key e => e.liveAt r.now || !named key
  (r.entries.size - entries.size, { r with entries })

def purgeLazily (r : Reference) (named : Bytes → Bool) : Reference :=
  let (count, r) := r.purge named
  { r with tally.lazilyExpired := r.tally.lazilyExpired + count }

def sweep (r : Reference) : Nat × Reference :=
  let (count, r) := r.purge fun _ => true
  (count, { r with tally.swept := r.tally.swept + count })

def runQueue (r : Reference) : Reference := { r.purgeLazily r.queue.contains with queue := [] }

/-- Works off the queue and then sweeps, unless the store was closed or the timer says that the sleep
since the last sweep is not over. Tells whether there was a sweep. -/
def runBackgroundBy (timer : Timer) (r : Reference) : Bool × Reference :=
  let r := r.runQueue
  if !r.sweeper.closed && timer r.sweeper.since r.sweeper.interval r.now then
    (true, { r.sweep.2 with sweeper.since := r.now })
  else (false, r)

def runBackground (r : Reference) : Reference := (r.runBackgroundBy .standard).2

/-! ### Writing -/

def put (r : Reference) (key value : Bytes) (deadline? : Option Instant) : Bool × Reference :=
  (!r.entries.contains key,
    { r with entries := r.entries.insert key ⟨value, deadline?⟩, tally.sets := r.tally.sets + 1 })

/-- Why a time to live is refused, if it is: it is zero, or it ends 2^63 seconds or more after the
start of the clock. -/
def refusal? (r : Reference) (ttl : Duration) : Option TtlError :=
  if ttl = 0 then some .zero
  else if 9223372036854775808 * 1000000000 ≤ r.now + ttl then some (.overflow ttl)
  else none

/-- The store refuses the same times to live, and gives the others the same deadline. -/
theorem deadlineAfter_eq (r : Reference) (ttl : Duration) :
    deadlineAfter r.now ttl =
      match r.refusal? ttl with
      | some error => .error error
      | none => .ok (r.now + ttl) := by
  have hshown : Instant.Representable (r.now + ttl) ↔
      ¬ 9223372036854775808 * 1000000000 ≤ r.now + ttl := by
    rw [Instant.Representable, Nat.div_lt_iff_lt_mul (by decide), Nat.not_le]
    rfl
  unfold deadlineAfter Instant.after? refusal?
  by_cases hzero : ttl = 0
  · simp only [hzero, ↓reduceIte]
  · by_cases hlate : 9223372036854775808 * 1000000000 ≤ r.now + ttl
    · simp only [hzero, hshown, hlate, not_true_eq_false, ↓reduceIte]
    · simp only [hzero, hshown, hlate, not_false_eq_true, ↓reduceIte]

theorem refusal?_eq_none {r : Reference} {ttl : Duration} {deadline : Instant}
    (h : deadlineAfter r.now ttl = .ok deadline) : r.refusal? ttl = none := by
  rw [deadlineAfter_eq] at h
  split at h
  · cases h
  · assumption

theorem lt_add_of_refusal?_eq_none {r : Reference} {ttl : Duration} (h : r.refusal? ttl = none) :
    r.now < r.now + ttl := by
  unfold refusal? at h
  split at h
  · cases h
  next hpos => exact Nat.lt_add_of_pos_right (Nat.pos_of_ne_zero hpos)

theorem refusal?_congr {r r' : Reference} (h : r.now = r'.now) (ttl : Duration) :
    r.refusal? ttl = r'.refusal? ttl := by
  rw [refusal?, refusal?, h]

def setWithTtl (r : Reference) (key value : Bytes) (ttl : Duration) :
    Except TtlError Bool × Reference :=
  match r.refusal? ttl with
  | some error => (.error error, r)
  | none =>
    let (created, r) := r.put key value (some (r.now + ttl))
    (.ok created, r)

def delete (r : Reference) (key : Bytes) : Bool × Reference :=
  (r.entries.contains key,
    { r with entries := r.entries.erase key, tally.deletes := r.tally.deletes + 1 })

def flush (r : Reference) : Reference := { r with entries := ∅ }

/-! ### Reading -/

/-- An expired entry that a read has met is removed at once or named in the queue. -/
def onExpiredRead (r : Reference) (key : Bytes) : Reference :=
  match r.eviction with
  | .immediate => r.purgeLazily fun other => other == key
  | .deferred => { r with queue := r.queue ++ [key] }

def read (r : Reference) (key : Bytes) : Option Bytes × Reference :=
  match r.live[key]? with
  | some e => (some e.value, r)
  | none => (none, if r.entries.contains key then r.onExpiredRead key else r)

def get (r : Reference) (key : Bytes) : Option Bytes × Reference :=
  { r with tally.gets := r.tally.gets + 1 }.read key

/-- The live keys with their values, by score and then by key. -/
def listing (r : Reference) : List (Bytes × Bytes) :=
  (r.live.toList.map fun b => (b.1, b.2.value)).mergeSort fun a b =>
    !decide (r.scoreMode.position b.1 < r.scoreMode.position a.1)

def scan (r : Reference) (stem : Bytes) (limit : Nat) : Std.ExtTreeMap Bytes Bytes :=
  let under := r.listing.filter fun b => stem.isPrefixOf b.1
  .ofList (if limit = 0 then under else under.take limit)

def ttl (r : Reference) (key : Bytes) : Option Duration :=
  (r.live[key]?.bind (·.deadline?)).map fun deadline => deadline - r.now

/-! ### Deadlines of entries that are there -/

def expire (r : Reference) (key : Bytes) (ttl : Duration) : Except TtlError Bool × Reference :=
  match r.refusal? ttl with
  | some error => (.error error, r)
  | none =>
    match r.live[key]? with
    | some e =>
      (.ok true, { r with entries := r.entries.insert key ⟨e.value, some (r.now + ttl)⟩ })
    | none => (.ok false, r.purgeLazily fun other => other == key)

def persist (r : Reference) (key : Bytes) : Bool × Reference :=
  match r.live[key]? with
  | some ⟨value, some _⟩ => (true, { r with entries := r.entries.insert key ⟨value, none⟩ })
  | _ => (false, r)

/-! ### Commands -/

/-- The sizes and counters. There is no index whose levels could be counted. -/
def stats (r : Reference) : Stats :=
  { keys := r.entries.size
    keysWithTtl := (r.entries.filter fun _ e => e.deadline?.isSome).size
    levels := 0, tally := r.tally }

def perform (r : Reference) : Command → Reply × Reference
  | .set key value =>
    let (created, r) := r.put key value none
    (.flag created, r)
  | .setWithTtl key value ttl =>
    let (outcome, r) := r.setWithTtl key value ttl
    (.ofOutcome outcome, r)
  | .get key =>
    let (value, r) := r.get key
    (.value value, r)
  | .contains key => (.flag (r.live.contains key), r)
  | .delete key =>
    let (removed, r) := r.delete key
    (.flag removed, r)
  | .ttl key => (.remaining (r.ttl key), r)
  | .expire key ttl =>
    let (outcome, r) := r.expire key ttl
    (.ofOutcome outcome, r)
  | .persist key =>
    let (changed, r) := r.persist key
    (.flag changed, r)
  | .keys => (.keys (r.listing.map Prod.fst), r)
  | .scan stem limit => (.entries (r.scan stem limit), r)
  | .length => (.count r.entries.size, r)
  | .isEmpty => (.flag r.entries.isEmpty, r)
  | .liveCount => (.count r.live.size, r)
  | .removeExpired =>
    let (count, r) := r.sweep
    (.count count, r)
  | .flush => (.done, r.flush)
  | .stats => (.stats r.stats, r)
  | .close => (.flag (!r.sweeper.closed), { r with sweeper.closed := true })
  | .isClosed => (.flag r.sweeper.closed, r)
  | .advance d => (.done, { r with now := r.now + d })
  | .runBackground => (.done, r.runBackground)

def performBy (timer : Timer) (r : Reference) : Command → Reply × List Instant × Reference
  | .runBackground =>
    let (swept, r') := r.runBackgroundBy timer
    (.done, if swept then [r.now] else [], r')
  | command =>
    let (reply, r) := r.perform command
    (reply, [], r)

/-- A run whose sweeper sleeps by the timer, with the replies and the times of the sweeps. -/
def runBy (timer : Timer) (r : Reference) : List Command → List Reply × List Instant × Reference
  | [] => ([], [], r)
  | command :: rest =>
    let (reply, sweeps, r) := r.performBy timer command
    let (replies, later, r) := r.runBy timer rest
    (reply :: replies, sweeps ++ later, r)

def run (r : Reference) (commands : List Command) : List Reply × Reference :=
  let (replies, _, r) := r.runBy .standard commands
  (replies, r)

theorem performBy_of_ne (timer : Timer) (r : Reference) {command : Command}
    (h : command ≠ .runBackground) :
    r.performBy timer command = ((r.perform command).1, [], (r.perform command).2) := by
  cases command with
  | runBackground => exact absurd rfl h
  | _ => rfl

theorem performBy_standard (r : Reference) (command : Command) :
    (r.performBy .standard command).1 = (r.perform command).1 ∧
      (r.performBy .standard command).2.2 = (r.perform command).2 := by
  by_cases h : command = .runBackground
  · subst h
    exact ⟨rfl, rfl⟩
  · rw [performBy_of_ne _ r h]
    exact ⟨rfl, rfl⟩

/-- By the standard timer a command is performed as it is without naming one. -/
theorem run_cons (r : Reference) (command : Command) (rest : List Command) :
    r.run (command :: rest) =
      ((r.perform command).1 :: ((r.perform command).2.run rest).1,
        ((r.perform command).2.run rest).2) := by
  obtain ⟨hreply, hafter⟩ := r.performBy_standard command
  simp only [run, runBy, hreply, hafter]

end Reference

/-- Whether a command may take a key out of a store. -/
def Command.removes (eviction : Eviction) : Command → Bool
  | .get _ => eviction == .immediate
  | .delete _ | .expire .. | .removeExpired | .flush | .runBackground => true
  | _ => false

end ExpiringStore
