import ExpiringStore.SkipList.Update
import ExpiringStore.Store.Basic

/-!
# The store: removing what has expired

An expired entry leaves the index in one of three ways: a read or another touch removes it or puts
its key in the queue of background work, a periodic sweep removes it, or a caller asks for a sweep.
Each of them looks at the deadline again at the moment of removal, so a key that was written in the
meantime stays.

## Main definitions

* `Store.evict`, `Store.evictAll`: removal of keys, provided that they have expired.
* `Store.sweep`, `Store.removeExpired`: removal of all expired keys.
* `Sweeper.dueBy`, `Store.runBackgroundBy`: background work, with a sweeper that sleeps by a timer.
* `Store.runBackground`: background work by the standard timer.
-/

namespace ExpiringStore

namespace Store

variable {γ : Type}

/-- Removes a key with its deadline if it has expired, and tells whether the index held it. -/
def evict (s : Store γ) (key : Bytes) : Checked (Bool × Store γ) := do
  if s.isLive key then return (false, s)
  let (removed, index) ← s.index.delete key (s.scoreOf key)
  return (removed.isSome, { s with index, deadlines := s.deadlines.erase key })

def evictAll (s : Store γ) : List Bytes → Checked (Nat × Store γ)
  | [] => return (0, s)
  | key :: rest => do
    let (removed, s) ← s.evict key
    let (count, s) ← s.evictAll rest
    return (removed.toNat + count, s)

def expireLazily (s : Store γ) (keys : List Bytes) : Checked (Store γ) := do
  let (count, s) ← s.evictAll keys
  return { s with tally.lazilyExpired := s.tally.lazilyExpired + count }

def onExpiredRead (s : Store γ) (key : Bytes) : Checked (Store γ) :=
  match s.eviction with
  | .immediate => s.expireLazily [key]
  | .deferred => return { s with queue := s.queue ++ [key] }

/-! ### Sweeps -/

def expiredKeys (s : Store γ) : List Bytes := s.deadlines.expired s.now

def sweep (s : Store γ) (keys : List Bytes) : Checked (Nat × Store γ) := do
  let (count, s) ← s.evictAll keys
  return (count, { s with tally.swept := s.tally.swept + count })

def removeExpired (s : Store γ) : Checked (Nat × Store γ) := s.sweep s.expiredKeys

end Store

/-! ### Background work -/

/-- Whether the sweeper, unless it was told to stop, has slept long enough by the timer. -/
def Sweeper.dueBy (timer : Timer) (w : Sweeper) (now : Instant) : Bool :=
  !w.closed && timer w.since w.interval now

namespace Store

variable {γ : Type}

def runQueue (s : Store γ) : Checked (Store γ) := do
  let s ← s.expireLazily s.queue
  return { s with queue := [] }

/-- Lets background work run now: the queue first, then at most one sweep if one is due by the timer.
Tells whether there was a sweep; if so, the sweeper sleeps again from now on. -/
def runBackgroundBy (timer : Timer) (s : Store γ) : Checked (Bool × Store γ) := do
  let s ← s.runQueue
  if s.sweeper.dueBy timer s.now then
    let (_, s) ← s.removeExpired
    return (true, { s with sweeper.since := s.now })
  else return (false, s)

def runBackground (s : Store γ) : Checked (Bool × Store γ) := s.runBackgroundBy .standard

def close (s : Store γ) : Bool × Store γ :=
  (!s.sweeper.closed, { s with sweeper.closed := true })

def isClosed (s : Store γ) : Bool := s.sweeper.closed

end Store

end ExpiringStore
