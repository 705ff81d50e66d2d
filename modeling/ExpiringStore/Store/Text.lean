import ExpiringStore.SkipList.Text
import ExpiringStore.Store.Expiry

/-!
# The store: text form

The one-line description of a store: the summary of its index, its settings, and whether its sweeper
has been stopped.
-/

namespace ExpiringStore.Store

variable {γ : Type}

def summary (s : Store γ) : String :=
  .join
    ["SkipListStore \x7b index: ", s.index.summary, ", score_mode: ", s.scoreMode.name,
      ", lazy_expiry: ", s.eviction.name, ", closed: ", toString s.isClosed, " \x7d"]

end ExpiringStore.Store
