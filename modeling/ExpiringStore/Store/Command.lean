import ExpiringStore.Store.Access

/-!
# The store: commands and replies

Everything that can happen to a store, as data: the calls of its users, the passing of time and the
running of background work. A run takes a store through a list of commands and collects the replies.
The sweeper sleeps by a timer that a run is given; it is the standard timer unless another one is
named. Commands follow one another, and each of them is performed as a whole.

## Main definitions

* `Command`, `Reply`: what can happen, and what is answered.
* `Store.perform`, `Store.run`: a command, and a list of commands.
* `Store.performBy`, `Store.runBy`: the same by any timer, with the times of the sweeps.
-/

namespace ExpiringStore

inductive Command where
  | set (key value : Bytes)
  | setWithTtl (key value : Bytes) (ttl : Duration)
  | get (key : Bytes)
  | contains (key : Bytes)
  | delete (key : Bytes)
  | ttl (key : Bytes)
  | expire (key : Bytes) (ttl : Duration)
  | persist (key : Bytes)
  | keys
  | scan (stem : Bytes) (limit : Nat)
  | length
  | isEmpty
  | liveCount
  | removeExpired
  | flush
  | stats
  | close
  | isClosed
  | advance (d : Duration)
  | runBackground
  deriving DecidableEq, Repr

inductive Reply where
  | done
  | flag (answer : Bool)
  | count (n : Nat)
  | value (value? : Option Bytes)
  | remaining (duration? : Option Duration)
  | keys (keys : List Bytes)
  | entries (entries : Std.ExtTreeMap Bytes Bytes)
  | stats (stats : Stats)
  | refused (error : TtlError)
  deriving DecidableEq

def Reply.ofOutcome : Except TtlError Bool → Reply
  | .ok answer => .flag answer
  | .error error => .refused error

namespace Store

variable {γ : Type}

def perform [WordSource γ] (s : Store γ) : Command → Checked (Reply × Store γ)
  | .set key value => do
    let (created, s) ← s.set key value
    return (.flag created, s)
  | .setWithTtl key value ttl => do
    let (outcome, s) ← s.setWithTtl key value ttl
    return (.ofOutcome outcome, s)
  | .get key => do
    let (value, s) ← s.get key
    return (.value value, s)
  | .contains key => return (.flag (← s.contains key), s)
  | .delete key => do
    let (removed, s) ← s.delete key
    return (.flag removed, s)
  | .ttl key => return (.remaining (s.ttl key), s)
  | .expire key ttl => do
    let (outcome, s) ← s.expire key ttl
    return (.ofOutcome outcome, s)
  | .persist key =>
    let (changed, s) := s.persist key
    return (.flag changed, s)
  | .keys => return (.keys (← s.keys), s)
  | .scan stem limit => return (.entries (← s.scan stem limit), s)
  | .length => return (.count s.length, s)
  | .isEmpty => return (.flag s.isEmpty, s)
  | .liveCount => return (.count (← s.liveCount), s)
  | .removeExpired => do
    let (count, s) ← s.removeExpired
    return (.count count, s)
  | .flush => return (.done, s.flush)
  | .stats => return (.stats s.stats, s)
  | .close =>
    let (first, s) := s.close
    return (.flag first, s)
  | .isClosed => return (.flag s.isClosed, s)
  | .advance d => return (.done, s.advance d)
  | .runBackground => do
    let (_, s) ← s.runBackground
    return (.done, s)

/-- Performs a command with a sweeper that sleeps by the timer. Tells the times of its sweeps beside the
reply. -/
def performBy [WordSource γ] (timer : Timer) (s : Store γ) :
    Command → Checked (Reply × List Instant × Store γ)
  | .runBackground => do
    let (swept, s') ← s.runBackgroundBy timer
    return (.done, if swept then [s.now] else [], s')
  | command => do
    let (reply, s) ← s.perform command
    return (reply, [], s)

/-- A run whose sweeper sleeps by the timer, with the replies and the times of the sweeps. -/
def runBy [WordSource γ] (timer : Timer) (s : Store γ) :
    List Command → Checked (List Reply × List Instant × Store γ)
  | [] => return ([], [], s)
  | command :: rest => do
    let (reply, sweeps, s) ← s.performBy timer command
    let (replies, later, s) ← s.runBy timer rest
    return (reply :: replies, sweeps ++ later, s)

def run [WordSource γ] (s : Store γ) (commands : List Command) :
    Checked (List Reply × Store γ) := do
  let (replies, _, s) ← s.runBy .standard commands
  return (replies, s)

theorem performBy_of_ne [WordSource γ] (timer : Timer) (s : Store γ) {command : Command}
    (h : command ≠ .runBackground) : s.performBy timer command = do
      let (reply, s) ← s.perform command
      return (reply, [], s) := by
  cases command with
  | runBackground => exact absurd rfl h
  | _ => rfl

/-- By the standard timer a command is performed as it is without naming one. -/
theorem run_cons [WordSource γ] (s : Store γ) (command : Command) (rest : List Command) :
    s.run (command :: rest) = do
      let (reply, s) ← s.perform command
      let (replies, s) ← s.run rest
      return (reply :: replies, s) := by
  by_cases h : command = .runBackground
  · subst h
    simp only [run, runBy, performBy, perform, runBackground, bind_assoc, pure_bind]
  · simp only [run, runBy, performBy_of_ne _ _ h, bind_assoc, pure_bind]

end Store

end ExpiringStore
