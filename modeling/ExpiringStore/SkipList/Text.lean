import ExpiringStore.SkipList.Basic

/-!
# Skip lists: text forms

A list has two text forms: a one-line summary of its sizes, and a drawing that shows the scores on
every level in use, the highest level first.
-/

namespace ExpiringStore.SkipList

variable {γ : Type}

def summary (l : SkipList γ) : String :=
  .join
    ["SkipList \x7b len: ", toString l.length, ", level: ", toString l.level, ", max_level: ",
      toString l.ceiling, ", slots: ", toString l.slots, " \x7d"]

def levelLine (level : Nat) (scores : List Score) : String :=
  .join ["Level ", toString level, ": ", .join (scores.map link), "nil\n"]
where
  /-- A score and the arrow to what follows it. -/
  link (score : Score) : String := .join ["[", toString score.toNat, "] -> "]

def drawing (l : SkipList γ) : Checked String := do
  let lines ← (List.range l.level).reverse.mapM fun level => do
    return levelLine level ((← l.elementsOn level).map (·.score))
  let header := ["SkipList(level=", toString l.level, ", len=", toString l.length, "):\n"]
  return .join (header ++ lines)

end ExpiringStore.SkipList
