import Std.Data.ExtTreeMap
import ExpiringStore.Bytes
import ExpiringStore.Clock

/-!
# Deadlines

A key may have a deadline: the instant from which on it counts as expired. A key without a deadline
never expires. Deadlines are asked for as a time to live, which is refused if it is zero, since the
key could then never be read, or if the clock cannot show the instant at which it ends.
-/

namespace ExpiringStore

abbrev Deadlines := Std.ExtTreeMap Bytes Instant

namespace Deadlines

/-- Whether a key has not expired: it has no deadline, or its deadline lies ahead. -/
def live (table : Deadlines) (now : Instant) (key : Bytes) : Bool :=
  match table[key]? with
  | none => true
  | some deadline => now < deadline

/-- Gives a key the deadline, or takes its deadline away if there is none to give. -/
def assign (table : Deadlines) (key : Bytes) (deadline? : Option Instant) : Deadlines :=
  match deadline? with
  | some deadline => table.insert key deadline
  | none => table.erase key

def remaining? (table : Deadlines) (now : Instant) (key : Bytes) : Option Duration :=
  match table[key]? with
  | some deadline => if now < deadline then some (deadline - now) else none
  | none => none

def expired (table : Deadlines) (now : Instant) : List Bytes :=
  table.keys.filter fun key => !table.live now key

theorem getElem?_assign (table : Deadlines) (key other : Bytes) (deadline? : Option Instant) :
    (table.assign key deadline?)[other]? = if key = other then deadline? else table[other]? := by
  cases deadline? with
  | none => simp [assign, Std.ExtTreeMap.getElem?_erase]
  | some deadline => simp [assign, Std.ExtTreeMap.getElem?_insert]

theorem live_eq_false_iff (table : Deadlines) (now : Instant) (key : Bytes) :
    table.live now key = false ↔ ∃ deadline, table[key]? = some deadline ∧ deadline ≤ now := by
  unfold live
  split <;> simp_all

end Deadlines

inductive TtlError where
  | zero
  | overflow (ttl : Duration)
  deriving DecidableEq, Repr

def TtlError.message : TtlError → String
  | zero => "ttl must be greater than zero"
  | overflow ttl => .join ["ttl of ", ttl.text, " overflows the clock"]

def deadlineAfter (now : Instant) (ttl : Duration) : Except TtlError Instant :=
  if ttl = 0 then .error .zero
  else
    match now.after? ttl with
    | some deadline => .ok deadline
    | none => .error (.overflow ttl)

theorem deadlineAfter_eq_ok_iff {now deadline : Instant} {ttl : Duration} :
    deadlineAfter now ttl = .ok deadline ↔
      0 < ttl ∧ Instant.Representable (now + ttl) ∧ deadline = now + ttl := by
  unfold deadlineAfter
  split
  next hzero => simp [hzero]
  next hpos =>
    have hlt : 0 < ttl := Nat.pos_of_ne_zero hpos
    cases hafter : now.after? ttl with
    | none =>
      have hnot : ¬ Instant.Representable (now + ttl) := by
        intro hrep
        have hsome := Instant.after?_eq_some_iff.2 ⟨hrep, rfl⟩
        rw [hafter] at hsome
        cases hsome
      simp [hnot]
    | some u =>
      obtain ⟨hrep, hu⟩ := Instant.after?_eq_some_iff.1 hafter
      simp [hlt, hrep, hu, eq_comm]

end ExpiringStore
