import ExpiringStore.SkipList.Update
import ExpiringStore.Store.Access

/-!
# Series of numbered entries

In a series the keys and values are numbered from zero, and the scores are evenly spaced modulo
2^64. A list takes in a series or gives it up again entry by entry; a store takes in the keys and
values of one and scores the keys itself.
-/

namespace ExpiringStore

structure Series where
  count : Nat
  stem : Bytes
  start : Score
  step : Score
  deriving DecidableEq, Repr

def numberedValue (i : Nat) : Bytes := Bytes.numbered (Bytes.ofText "v") i

namespace Series

def key (series : Series) (i : Nat) : Bytes := Bytes.numbered series.stem i

def score (series : Series) (i : Nat) : Score := series.start + i.toUInt64 * series.step

end Series

namespace SkipList

variable {γ : Type}

def fill [WordSource γ] (l : SkipList γ) (series : Series) : Checked (SkipList γ) :=
  (List.range series.count).foldlM
    (fun l i => return (← l.insert (series.key i) (numberedValue i) (series.score i)).2) l

/-- Removes the entries of a series in order, and counts those that were there. -/
def drain (l : SkipList γ) (series : Series) : Checked (Nat × SkipList γ) :=
  (List.range series.count).foldlM
    (fun (count, l) i => do
      let (removed, l) ← l.delete (series.key i) (series.score i)
      return (count + removed.isSome.toNat, l))
    (0, l)

end SkipList

namespace Store

variable {γ : Type} [WordSource γ]

/-- Writes a value with the time to live, if there is one, and tells whether the key is new. -/
def write (s : Store γ) (key value : Bytes) (ttl? : Option Duration) :
    Checked (Except TtlError Bool × Store γ) := do
  match ttl? with
  | some ttl => s.setWithTtl key value ttl
  | none =>
    let (created, s) ← s.set key value
    return (.ok created, s)

/-- Writes pairs in order and counts the new keys. Stops at the first write that is refused. -/
def writeAll (s : Store γ) (ttl? : Option Duration) :
    List (Bytes × Bytes) → Checked (Except TtlError Nat × Store γ)
  | [] => return (.ok 0, s)
  | (key, value) :: rest => do
    let (outcome, s) ← s.write key value ttl?
    match outcome with
    | .error error => return (.error error, s)
    | .ok created =>
      let (outcome, s) ← s.writeAll ttl? rest
      return (outcome.map (created.toNat + ·), s)

def fill (s : Store γ) (count : Nat) (stem : Bytes) (ttl? : Option Duration) :
    Checked (Except TtlError Nat × Store γ) :=
  s.writeAll ttl? ((List.range count).map fun i => (Bytes.numbered stem i, numberedValue i))

end Store

end ExpiringStore
