import ExpiringStore.Record
import ExpiringStore.Store.Access

/-!
# Rankings

The ranking of a store shows the records that it holds under ranked keys, the highest score first.
Records of equal score stand in the order of the index.
-/

namespace ExpiringStore

namespace Ranking

def stem : Bytes := Bytes.ofText "player:"

/-- Records by descending score; equal scores keep their order. -/
def sorted (records : List Record) : List Record := records.mergeSort fun a b => b.score ≤ a.score

def line (rank : Nat) (r : Record) : String :=
  .join ["  #", toString rank, ": ", r.name, " - ", toString r.score.toNat]

def lines (records : List Record) : List String :=
  "Leaderboard (highest first):" :: (sorted records).mapIdx fun i r => line (i + 1) r

end Ranking

namespace Store

variable {γ : Type}

/-- The records under ranked keys in the order of the index. Each ranked key is read once, and one
whose value is no record is left out. -/
def rankedRecords (s : Store γ) : Checked (List Record × Store γ) := do
  let keys := (← s.keys).filter fun key => Ranking.stem.isPrefixOf key
  let (values, s) ← s.getAll keys
  return (values.filterMap fun value? => value?.bind Record.decode?, s)

def ranking (s : Store γ) : Checked (List String × Store γ) := do
  let (records, s) ← s.rankedRecords
  return (Ranking.lines records, s)

end Store

end ExpiringStore
