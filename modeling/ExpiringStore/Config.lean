import ExpiringStore.Clock
import ExpiringStore.Random.Xoshiro
import ExpiringStore.SkipList.Basic

/-!
# Configuration

What a store is told when it is created: how often expired entries are swept out, how many levels
its index may use, how keys are scored, what a read does with an expired entry, and which generator
draws the heights. A configuration is valid if the interval is positive and the ceiling is one that
an index accepts.

## Main definitions

* `Config`, `Config.check`: the settings, and the test that a store makes before it is created.
* `Config.generator`: the generator that a seed stands for.
-/

namespace ExpiringStore

inductive Eviction where
  /-- Leaves the removal to background work. -/
  | deferred
  /-- Removes the entry before it returns. -/
  | immediate
  deriving DecidableEq, Repr

def Eviction.name : Eviction → String
  | deferred => "Deferred"
  | immediate => "Inline"

structure Config where
  /-- The time between two sweeps. -/
  sweepInterval : Duration := Duration.second
  ceiling : Nat := defaultCeiling
  scoreMode : ScoreMode := .hashed
  eviction : Eviction := .deferred
  /-- The seed of the generator of heights, or none for a generator that nobody chose. -/
  seed : Option UInt64 := none
  deriving DecidableEq, Repr

inductive ConfigError where
  | zeroInterval
  | ceiling (requested : Nat)
  deriving DecidableEq, Repr

def ConfigError.message : ConfigError → String
  | zeroInterval => "invalid configuration: reap_interval must be greater than zero"
  | ceiling n =>
    .join
      ["invalid configuration: max_level must be between 1 and ", toString maxCeiling, ", got ",
        toString n]

namespace Config

/-- Refuses a configuration that is out of range; the interval is looked at first. -/
def check (config : Config) : Except ConfigError Unit :=
  if config.sweepInterval = 0 then .error .zeroInterval
  else if 1 ≤ config.ceiling ∧ config.ceiling ≤ maxCeiling then .ok ()
  else .error (.ceiling config.ceiling)

def generator (config : Config) (unseeded : Xoshiro) : Xoshiro :=
  match config.seed with
  | some seed => .ofSeed seed
  | none => unseeded

theorem check_eq_ok_iff (config : Config) :
    config.check = .ok () ↔
      0 < config.sweepInterval ∧ 1 ≤ config.ceiling ∧ config.ceiling ≤ maxCeiling := by
  unfold check
  split
  next hzero => simp [hzero]
  next hpos =>
    have hlt : 0 < config.sweepInterval := Nat.pos_of_ne_zero hpos
    split
    next hrange => simp [hlt, hrange]
    next hrange => simp [hrange]

end Config

end ExpiringStore
