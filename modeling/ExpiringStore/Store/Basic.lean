import ExpiringStore.Config
import ExpiringStore.Deadlines
import ExpiringStore.SkipList.Descent

/-!
# The store

A store maps keys to values, some of them until a deadline. Its index holds every entry that has not
been removed, expired ones included, at the score of its key. Beside the index it keeps the
deadlines, a queue of keys whose removal was left to background work, a sweeper that wakes at
intervals, counters of what was done, and the time.

## Main definitions

* `Store`, `Store.create`.
* `Store.isLive`: whether readers may see a key.
* `Store.stats`: a snapshot of the counters.
-/

namespace ExpiringStore

structure Tally where
  gets : Nat := 0
  sets : Nat := 0
  deletes : Nat := 0
  /-- Expired entries removed because something touched them. -/
  lazilyExpired : Nat := 0
  /-- Expired entries removed by a sweep. -/
  swept : Nat := 0
  deriving DecidableEq, Repr

/-- The background work that removes expired entries at intervals. -/
structure Sweeper where
  interval : Duration
  /-- The time of the last sweep, or of the start of the clock if there was none. -/
  since : Instant
  closed : Bool
  deriving DecidableEq, Repr

/-- A map from keys to values in which entries may expire. -/
structure Store (γ : Type) where
  index : SkipList γ
  deadlines : Deadlines
  scoreMode : ScoreMode
  eviction : Eviction
  tally : Tally
  /-- The keys whose removal background work will look at, in the order in which they were found. -/
  queue : List Bytes
  sweeper : Sweeper
  now : Instant

inductive Executor where
  | present
  | absent
  deriving DecidableEq, Repr

inductive OpenError where
  | noExecutor
  | config (error : ConfigError)
  deriving DecidableEq, Repr

def OpenError.message : OpenError → String
  | noExecutor => "no tokio runtime available to drive background expiry"
  | config error => error.message

structure Stats where
  keys : Nat
  keysWithTtl : Nat
  levels : Nat
  tally : Tally
  deriving DecidableEq, Repr

namespace Store

variable {γ : Type}

/-- The empty store of a configuration at the start of the clock, with heights drawn from `source`. A
missing executor is reported before the configuration is looked at. -/
def create (executor : Executor) (config : Config) (source : γ) :
    Checked (Except OpenError (Store γ)) := do
  match executor, config.check with
  | .absent, _ => return .error .noExecutor
  | .present, .error error => return .error (.config error)
  | .present, .ok () =>
    let index ← SkipList.create config.ceiling source
    return .ok
      { index, deadlines := ∅, scoreMode := config.scoreMode, eviction := config.eviction
        tally := {}, queue := [], now := 0
        sweeper := { interval := config.sweepInterval, since := 0, closed := false } }

def scoreOf (s : Store γ) (key : Bytes) : Score := s.scoreMode.score key

def position (s : Store γ) (key : Bytes) : Position := s.scoreMode.position key

/-- Whether a key has not expired. A key that the store does not hold has not. -/
def isLive (s : Store γ) (key : Bytes) : Bool := s.deadlines.live s.now key

def length (s : Store γ) : Nat := s.index.length

def isEmpty (s : Store γ) : Bool := s.length == 0

def keysWithTtl (s : Store γ) : Nat := s.deadlines.size

/-- The entry of a key in the index, expired or not. -/
def entry? (s : Store γ) (key : Bytes) : Checked (Option Element) := s.index.search (s.position key)

def stats (s : Store γ) : Stats :=
  { keys := s.length, keysWithTtl := s.keysWithTtl, levels := s.index.level, tally := s.tally }

def advance (s : Store γ) (d : Duration) : Store γ := { s with now := s.now + d }

end Store

end ExpiringStore
