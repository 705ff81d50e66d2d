import ExpiringStore.Clock

/-!
# Timers that keep to the clock

The sweeper sleeps by a timer that is not its own. All that it asks of the timer is that a sleep lasts
for the interval that was asked for, rounded up to whole milliseconds, or for thirty years if the
clock cannot show the instant at which the interval ends. The standard timer keeps to this at every
interval.

## Main definitions

* `Timer.Keeps`: sleeps of an interval are over when they should be.
-/

namespace ExpiringStore.Timer

/-- At the instants of the clock, sleeps for `interval` are over when they should be. -/
def Keeps (timer : Timer) (interval : Duration) : Prop :=
  ∀ since now, Instant.Representable now →
    (timer since interval now = true ↔
      (since +
          (if Instant.Representable (since + interval) then interval else Duration.thirtyYears) +
          (Duration.millisecond - 1)) / Duration.millisecond ≤
        now / Duration.millisecond)

theorem standard_keeps (interval : Duration) : standard.Keeps interval :=
  fun _ _ _ => decide_eq_true_iff

variable {timer : Timer} {interval : Duration} {since now : Instant}

theorem Keeps.add_le (h : timer.Keeps interval) (hnow : Instant.Representable now)
    (hspan : Instant.Representable (since + interval)) (hover : timer since interval now = true) :
    since + interval ≤ now := by
  have hle := (h since now hnow).1 hover
  rw [if_pos hspan] at hle
  simp only [Duration.millisecond, Instant, Duration] at hle ⊢
  omega

theorem Keeps.lt_add (h : timer.Keeps interval) (hnow : Instant.Representable now)
    (hover : timer since interval now = false) :
    now < since + (interval + Duration.millisecond) := by
  by_cases hspan : Instant.Representable (since + interval)
  · have hlt : ¬ _ := fun hle => Bool.false_ne_true (hover.symm.trans ((h since now hnow).2 hle))
    rw [if_pos hspan] at hlt
    simp only [Duration.millisecond, Instant, Duration] at hlt ⊢
    omega
  · -- the interval ends after every instant of the clock
    have hlt : now < since + interval := hnow.lt_of_not hspan
    simp only [Instant, Duration] at hlt ⊢
    omega

end ExpiringStore.Timer
