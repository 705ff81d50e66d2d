import ExpiringStore.Store.Expiry

/-!
# The store: reading and writing

Readers see the entries that have not expired. Writing a value replaces the value and the deadline
of a key, and counts as creating it only if the index did not hold it at all. A time to live that is
refused changes nothing.

## Main definitions

* `Store.set`, `Store.setWithTtl`, `Store.delete`, `Store.flush`: writing.
* `Store.get`, `Store.contains`, `Store.keys`, `Store.scan`, `Store.liveCount`: reading.
* `Store.ttl`, `Store.expire`, `Store.persist`: deadlines of entries that are there.
-/

namespace ExpiringStore.Store

variable {γ : Type}

/-! ### Writing -/

/-- Writes a value with its deadline, if it has one, and tells whether the key is new. -/
def put [WordSource γ] (s : Store γ) (key value : Bytes) (deadline? : Option Instant) :
    Checked (Bool × Store γ) := do
  let (_, index) ← s.index.insert key value (s.scoreOf key)
  return (decide (s.index.length < index.length),
    { s with
      index, deadlines := s.deadlines.assign key deadline?
      tally.sets := s.tally.sets + 1 })

def set [WordSource γ] (s : Store γ) (key value : Bytes) : Checked (Bool × Store γ) :=
  s.put key value none

def setWithTtl [WordSource γ] (s : Store γ) (key value : Bytes) (ttl : Duration) :
    Checked (Except TtlError Bool × Store γ) := do
  match deadlineAfter s.now ttl with
  | .error error => return (.error error, s)
  | .ok deadline =>
    let (created, s) ← s.put key value (some deadline)
    return (.ok created, s)

/-- Removes a key, expired or not, and tells whether it was there. -/
def delete (s : Store γ) (key : Bytes) : Checked (Bool × Store γ) := do
  let (removed, index) ← s.index.delete key (s.scoreOf key)
  return (removed.isSome,
    { s with
      index, deadlines := s.deadlines.erase key
      tally.deletes := s.tally.deletes + 1 })

/-- Removes every entry and every deadline. The queue and the counters are kept. -/
def flush (s : Store γ) : Store γ := { s with index := s.index.clear, deadlines := ∅ }

/-! ### Reading -/

/-- The value of a key. Reading an expired key leads to its removal, at once or later. -/
def get (s : Store γ) (key : Bytes) : Checked (Option Bytes × Store γ) := do
  let s := { s with tally.gets := s.tally.gets + 1 }
  if s.isLive key then
    let entry ← s.entry? key
    return (entry.map (·.value), s)
  else return (none, ← s.onExpiredRead key)

def getAll (s : Store γ) : List Bytes → Checked (List (Option Bytes) × Store γ)
  | [] => return ([], s)
  | key :: rest => do
    let (value, s) ← s.get key
    let (values, s) ← s.getAll rest
    return (value :: values, s)

def contains (s : Store γ) (key : Bytes) : Checked Bool := do
  if s.isLive key then return (← s.entry? key).isSome else return false

def liveEntries (s : Store γ) : Checked (List Element) := do
  return (← s.index.elements).filter fun e => s.isLive e.key

def keys (s : Store γ) : Checked (List Bytes) := do return (← s.liveEntries).map (·.key)

def liveCount (s : Store γ) : Checked Nat := do return (← s.liveEntries).length

/-- The entries whose key starts with `stem`, expired or not, in the order of the index. If that is
the order of the keys, they stand together behind the position of `stem`. -/
def entriesUnder (s : Store γ) (stem : Bytes) : Checked (List Element) := do
  if s.scoreMode.preservesKeyOrder then
    let rest ← s.index.elementsFrom (← s.index.seek (s.position stem))
    return rest.takeWhile fun e => stem.isPrefixOf e.key
  else
    return (← s.index.elements).filter fun e => stem.isPrefixOf e.key

/-- The entries whose key starts with `stem` and that have not expired; only the first `limit` of
them in the order of the index, unless `limit` is zero. -/
def scanEntries (s : Store γ) (stem : Bytes) (limit : Nat) : Checked (List Element) := do
  return SkipList.capped limit ((← s.entriesUnder stem).filter fun e => s.isLive e.key)

def scan (s : Store γ) (stem : Bytes) (limit : Nat) : Checked (Std.ExtTreeMap Bytes Bytes) := do
  return .ofList ((← s.scanEntries stem limit).map fun e => (e.key, e.value))

/-! ### Deadlines of entries that are there -/

def ttl (s : Store γ) (key : Bytes) : Option Duration := s.deadlines.remaining? s.now key

/-- Gives an entry a new time to live, and tells whether there was one to give it to. An entry that
has expired is removed. -/
def expire (s : Store γ) (key : Bytes) (ttl : Duration) :
    Checked (Except TtlError Bool × Store γ) := do
  match deadlineAfter s.now ttl with
  | .error error => return (.error error, s)
  | .ok deadline =>
    match ← s.entry? key with
    | none => return (.ok false, s)
    | some _ =>
      if s.isLive key then
        return (.ok true, { s with deadlines := s.deadlines.assign key (some deadline) })
      else return (.ok false, ← s.expireLazily [key])

def persist (s : Store γ) (key : Bytes) : Bool × Store γ :=
  match s.ttl key with
  | some _ => (true, { s with deadlines := s.deadlines.assign key none })
  | none => (false, s)

end ExpiringStore.Store
