/-!
# Time

Instants and durations are counted in nanoseconds. An instant is counted from the moment the clock
started, and the clock holds whole seconds below 2^63, so an instant that lies too far ahead does not
exist. Durations have a text form that uses the largest unit with a non-zero whole part. A timer tells
when a sleep is over.
-/

namespace ExpiringStore

abbrev Instant := Nat

abbrev Duration := Nat

namespace Duration

def microsecond : Duration := 1000

def millisecond : Duration := 1000000

def second : Duration := 1000000000

/-- Thirty years of 365 days. -/
def thirtyYears : Duration := 30 * 365 * 24 * 60 * 60 * second

/-- The digits after a decimal point, led by the point: `part` written with `places` digits and
without its trailing zeros, or nothing if `part` is zero. -/
def fraction (places part : Nat) : String :=
  if part = 0 then ""
  else
    let digits := Nat.toDigits 10 part
    let padded := List.replicate (places - digits.length) '0' ++ digits
    "." ++ String.ofList (padded.reverse.dropWhile (· == '0')).reverse

def textIn (d : Duration) (unit : Duration) (places : Nat) (name : String) : String :=
  toString (d / unit) ++ fraction places (d % unit) ++ name

/-- The text form of a duration, in seconds from one second on and in a smaller unit below. -/
def text (d : Duration) : String :=
  if second ≤ d then textIn d second 9 "s"
  else if millisecond ≤ d then textIn d millisecond 6 "ms"
  else if microsecond ≤ d then textIn d microsecond 3 "µs"
  else toString d ++ "ns"

end Duration

namespace Instant

/-- The number of whole seconds that the clock can tell apart, which is 2^63. -/
def secondsShown : Nat := 0x8000000000000000

def Representable (t : Instant) : Prop := t / Duration.second < secondsShown

instance (t : Instant) : Decidable (Representable t) :=
  inferInstanceAs (Decidable (t / Duration.second < secondsShown))

theorem Representable.mono {t u : Instant} (h : Representable u) (hle : t ≤ u) : Representable t :=
  Nat.lt_of_le_of_lt (Nat.div_le_div_right hle) h

theorem Representable.lt_of_not {t u : Instant} (h : Representable t) (hu : ¬ Representable u) :
    t < u :=
  Nat.lt_of_not_le fun hle => hu (h.mono hle)

def after? (t : Instant) (d : Duration) : Option Instant :=
  if Representable (t + d) then some (t + d) else none

theorem after?_eq_some_iff {t u : Instant} {d : Duration} :
    after? t d = some u ↔ Representable (t + d) ∧ u = t + d := by
  unfold after?
  split <;> simp_all [eq_comm]

end Instant

/-! ### Timers -/

/-- Whether a sleep from an instant on, for a duration, is over at a later instant. -/
abbrev Timer := Instant → Duration → Instant → Bool

namespace Timer

/-- How long a sleep for `interval` lasts: for thirty years if the clock cannot show the instant at
which the interval ends. -/
def span (since : Instant) (interval : Duration) : Duration :=
  if Instant.Representable (since + interval) then interval else Duration.thirtyYears

/-- The timer that counts in whole milliseconds. A sleep that ends between two of them is over at the
later one. -/
def standard : Timer := fun since interval now =>
  (since + span since interval + (Duration.millisecond - 1)) / Duration.millisecond ≤
    now / Duration.millisecond

end Timer

end ExpiringStore
