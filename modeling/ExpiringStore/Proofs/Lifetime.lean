import ExpiringStore.Proofs.Events
import ExpiringStore.Proofs.Visibility

/-!
# Times to live

A time to live is refused before anything changes, and only if it is zero or ends beyond what the
clock can show. Once it is taken, the entry of its key is shown up to the deadline and not from then
on, whatever happens to other keys and whenever background work comes by.

## Main definitions

* `Command.alters`, `Event.alters`: what may end or prolong the life of an entry before its time.
* `Store.Answers`: the outcome of a call that gives a time to live.
* `Store.HoldsUntil`, `Store.Grants`: what such a call has promised when it succeeds.
-/

namespace ExpiringStore

/-- Whether a command is about the entry of a key or its deadline, other than to read it. -/
def Command.alters (key : Bytes) : Command → Bool
  | .set other _ | .setWithTtl other _ _ | .delete other | .expire other _ | .persist other =>
    other == key
  | .flush => true
  | _ => false

def Event.alters (key : Bytes) : Event → Bool
  | .command call => call.alters key
  | .queued _ | .sweep _ => false

/-! ### Deadlines that the clock can show -/

theorem deadlineAfter_eq_error_zero_iff {now : Instant} {ttl : Duration} :
    deadlineAfter now ttl = .error .zero ↔ ttl = 0 := by
  unfold deadlineAfter
  split
  next hzero => simp [hzero]
  next hpos => cases now.after? ttl <;> simp [hpos]

theorem deadlineAfter_eq_error_overflow_iff {now : Instant} {ttl d : Duration} :
    deadlineAfter now ttl = .error (.overflow d) ↔
      d = ttl ∧ ttl ≠ 0 ∧ ¬ Instant.Representable (now + ttl) := by
  unfold deadlineAfter Instant.after?
  split
  next hzero => simp [hzero]
  next hpos =>
    by_cases hshown : Instant.Representable (now + ttl)
    · simp [hshown]
    · simp [hshown, hpos, eq_comm]

theorem exists_eq_ok_iff {ε α : Type} {x : Except ε α} :
    (∃ a, x = .ok a) ↔ ∀ error, x ≠ .error error := by
  cases x <;> simp

theorem Instant.representable_iff (t : Instant) :
    Representable t ↔ t / Duration.second ≤ 2 ^ 63 - 1 := by
  have hshown : secondsShown = 2 ^ 63 := rfl
  rw [Representable, hshown]
  exact Nat.lt_iff_le_pred (by decide)

/-! ### Entries that last -/

namespace Reference

variable {r r' : Reference} {key value other : Bytes} {deadline : Instant}

/-- Readers see the value with its deadline up to the deadline, and nothing from then on. -/
def HoldsUntil (key value : Bytes) (deadline : Instant) (r : Reference) : Prop :=
  r.live[key]? = if r.now < deadline then some ⟨value, some deadline⟩ else none

theorem holdsUntil_of_insert (hentries : r'.entries = r.entries.insert key ⟨value, some deadline⟩) :
    r'.HoldsUntil key value deadline := by
  rw [HoldsUntil, getElem?_live, hentries, Std.ExtTreeMap.getElem?_insert_self, Option.filter_some]
  simp only [Entry.liveAt, Option.all_some, decide_eq_true_eq]

namespace HoldsUntil

theorem congr (h : r.HoldsUntil key value deadline) (halike : r.Alike r') :
    r'.HoldsUntil key value deadline := by
  rw [HoldsUntil, ← halike.live_eq, ← halike.now_eq]
  exact h

theorem insert (h : r.HoldsUntil key value deadline) (hother : other ≠ key) (e : Entry) :
    HoldsUntil key value deadline { r with entries := r.entries.insert other e } := by
  rw [HoldsUntil, getElem?_live, Entries.getElem?_insert_of_ne hother]
  exact (r.getElem?_live key).symm.trans h

theorem erase (h : r.HoldsUntil key value deadline) (hother : other ≠ key) :
    HoldsUntil key value deadline { r with entries := r.entries.erase other } := by
  rw [HoldsUntil, getElem?_live, Entries.getElem?_erase_of_ne hother]
  exact (r.getElem?_live key).symm.trans h

/-- Time passes the deadline or it does not; it does not bring an entry back. -/
theorem advance (h : r.HoldsUntil key value deadline) (d : Duration) :
    HoldsUntil key value deadline { r with now := r.now + d } := by
  rw [HoldsUntil, live_advance, Std.ExtTreeMap.getElem?_filter', h]
  by_cases hpassed : r.now < deadline
  · rw [if_pos hpassed, Option.filter_some]
    simp only [Entry.liveAt, Option.all_some, decide_eq_true_eq]
  · have hlater : ¬ r.now + d < deadline := by
      simp only [Instant, Duration] at *
      omega
    rw [if_neg hpassed, if_neg hlater, Option.filter_none]

theorem expire (h : r.HoldsUntil key value deadline) (hother : other ≠ key) (ttl : Duration) :
    (r.expire other ttl).2.HoldsUntil key value deadline := by
  unfold Reference.expire
  split
  · exact h
  · split
    · exact h.insert hother _
    · exact h.congr (r.alike_purgeLazily _)

theorem persist (h : r.HoldsUntil key value deadline) (hother : other ≠ key) :
    (r.persist other).2.HoldsUntil key value deadline := by
  unfold Reference.persist
  split
  · exact h.insert hother _
  · exact h

theorem perform (h : r.HoldsUntil key value deadline) {command : Command}
    (halters : command.alters key = false) :
    (r.perform command).2.HoldsUntil key value deadline := by
  cases command with
  | set other value' => exact h.insert (beq_eq_false_iff_ne.1 halters) ⟨value', none⟩
  | setWithTtl other value' ttl =>
    simp only [Reference.perform, setWithTtl]
    split
    · exact h
    · exact h.insert (beq_eq_false_iff_ne.1 halters) ⟨value', some (r.now + ttl)⟩
  | get other => exact h.congr (r.alike_get other)
  | delete other => exact h.erase (beq_eq_false_iff_ne.1 halters)
  | expire other ttl => exact h.expire (beq_eq_false_iff_ne.1 halters) ttl
  | persist other => exact h.persist (beq_eq_false_iff_ne.1 halters)
  | advance d => exact h.advance d
  | flush => cases halters
  | contains | ttl | keys | scan | liveCount => exact h
  | _ => exact h.congr (r.alike_perform_of_not_shared rfl)

theorem handle (h : r.HoldsUntil key value deadline) {event : Event}
    (halters : event.alters key = false) : (r.handle event).HoldsUntil key value deadline := by
  cases event with
  | command command => exact h.perform halters
  | queued place =>
    simp only [Reference.handle]
    split
    · exact congr (r := { r with queue := r.queue.eraseIdx place }) h (alike_purgeLazily _ _)
    · exact h
  | sweep keys => exact h.congr ⟨rfl, (r.live_purge _).symm⟩

end HoldsUntil

end Reference

/-! ### Stores that were given a time to live -/

namespace Store

variable {γ : Type} {s u : Store γ} {r r' : Reference} {key value : Bytes} {ttl : Duration}
  {outcome : Except TtlError Bool}

/-- `outcome` is the right answer to `ttl`, and `u` is the store that a refusal leaves. -/
structure Answers (s : Store γ) (ttl : Duration) (outcome : Except TtlError Bool) (u : Store γ) :
    Prop where
  zero_iff : outcome = .error .zero ↔ ttl = 0
  overflow_iff : ∀ d, outcome = .error (.overflow d) ↔
    d = ttl ∧ ttl ≠ 0 ∧ 2 ^ 63 - 1 < (s.now + ttl) / Duration.second
  ok_iff : (∃ answer, outcome = .ok answer) ↔
    ttl ≠ 0 ∧ (s.now + ttl) / Duration.second ≤ 2 ^ 63 - 1
  unchanged : ∀ error, outcome = .error error → u = s

/-- As long as nothing alters the entry of the key, readers are shown the value and what is left of
its time up to the deadline, and neither from then on. -/
def HoldsUntil [WordSource γ] (s : Store γ) (key value : Bytes) (deadline : Instant) : Prop :=
  ∀ events : List Event, (∀ event ∈ events, event.alters key = false) →
    ∃ t u, s.handleAll events = .ok t ∧
      t.get key = .ok (if t.now < deadline then some value else none, u) ∧
      t.ttl key = if t.now < deadline then some (deadline - t.now) else none

/-- `u` is `s` after the key was given the time to live. -/
structure Grants [WordSource γ] (s : Store γ) (key value : Bytes) (ttl : Duration) (u : Store γ) :
    Prop where
  deadlines_eq : u.deadlines = s.deadlines.insert key (s.now + ttl)
  ttl_eq : u.ttl key = some ttl
  holdsUntil : u.HoldsUntil key value (s.now + ttl)

/-- A call that is refused for the reason for which there is no deadline answers right. -/
theorem answers_of_error_iff
    (herror : ∀ error, outcome = .error error ↔ deadlineAfter s.now ttl = .error error)
    (hunchanged : ∀ error, outcome = .error error → u = s) : s.Answers ttl outcome u := by
  have hok : (∃ answer, outcome = .ok answer) ↔
      ∃ deadline, deadlineAfter s.now ttl = .ok deadline := by
    rw [exists_eq_ok_iff, exists_eq_ok_iff]
    exact forall_congr' fun error => not_congr (herror error)
  constructor
  case zero_iff => rw [herror, deadlineAfter_eq_error_zero_iff]
  case overflow_iff =>
    intro d
    rw [herror, deadlineAfter_eq_error_overflow_iff, Instant.representable_iff, Nat.not_le]
  case ok_iff =>
    rw [hok, ← Instant.representable_iff, ← Nat.pos_iff_ne_zero]
    simp only [deadlineAfter_eq_ok_iff, exists_and_left, exists_eq, and_true]
  case unchanged => exact hunchanged

theorem answers_error {error : TtlError} (h : deadlineAfter s.now ttl = .error error) :
    s.Answers ttl (.error error) s := by
  refine answers_of_error_iff (fun other => ?_) fun _ _ => rfl
  simp [h]

theorem answers_ok {deadline : Instant} (h : deadlineAfter s.now ttl = .ok deadline) (answer : Bool)
    (u : Store γ) : s.Answers ttl (.ok answer) u := by
  refine answers_of_error_iff (fun error => ?_) fun error herror => ?_
  · simp [h]
  · cases herror

namespace Shows

theorem holdsUntil [WordSource γ] (h : s.Shows r) {deadline : Instant}
    (hr : r.HoldsUntil key value deadline) : s.HoldsUntil key value deadline := by
  intro events halters
  induction events generalizing s r with
  | nil =>
    -- both replies are read off the visible entry of the key
    obtain ⟨u, hget, -⟩ := h.get key
    refine ⟨s, u, rfl, ?_, ?_⟩
    · rw [hget, Reference.get_fst, hr, h.now_eq]
      split <;> rfl
    · rw [h.ttl_eq, Reference.ttl, hr, h.now_eq]
      split <;> rfl
  | cons event rest ih =>
    obtain ⟨mid, hhandle, hmid⟩ := h.handle event
    have hevent := hr.handle (halters event List.mem_cons_self)
    obtain ⟨t, u, hall, hshown⟩ :=
      ih hmid hevent fun later hlater => halters later (List.mem_cons_of_mem event hlater)
    refine ⟨t, u, ?_, hshown⟩
    rw [Store.handleAll, List.foldlM_cons, hhandle, Checked.ok_bind]
    exact hall

theorem grants [WordSource γ] (h : s.Shows r) (hu : u.Shows r') (hpos : 0 < ttl)
    (hentries : r'.entries = r.entries.insert key ⟨value, some (r.now + ttl)⟩)
    (hnow : r'.now = r.now) : s.Grants key value ttl u := by
  rw [← h.now_eq] at hentries
  have hholds := Reference.holdsUntil_of_insert hentries
  have hsame : u.now = s.now := (hu.now_eq.trans hnow).trans h.now_eq.symm
  constructor
  case deadlines_eq =>
    rw [hu.deadlines_eq, hentries, Entries.deadlines_insert, h.deadlines_eq]
    rfl
  case ttl_eq =>
    obtain ⟨t, v, hall, -, httl⟩ := hu.holdsUntil hholds [] (List.forall_mem_nil _)
    cases hall
    have hlt : u.now < s.now + ttl := hsame ▸ Nat.lt_add_of_pos_right hpos
    rw [httl, if_pos hlt, hsame, Nat.add_sub_cancel_left]
  case holdsUntil => exact hu.holdsUntil hholds

theorem setWithTtl_answers [WordSource γ] (h : s.Shows r) (key value : Bytes) (ttl : Duration) :
    ∃ outcome u, s.setWithTtl key value ttl = .ok (outcome, u) ∧ s.Answers ttl outcome u ∧
      ∀ created, outcome = .ok created → s.Grants key value ttl u := by
  cases hdeadline : deadlineAfter s.now ttl with
  | error error =>
    have hset : s.setWithTtl key value ttl = .ok (.error error, s) := by
      simp only [Store.setWithTtl, hdeadline]
      rfl
    refine ⟨_, s, hset, answers_error hdeadline, ?_⟩
    intro created hok
    cases hok
  | ok deadline =>
    obtain ⟨hpos, -, rfl⟩ := deadlineAfter_eq_ok_iff.1 hdeadline
    have haccepted : r.refusal? ttl = none := Reference.refusal?_eq_none (h.now_eq ▸ hdeadline)
    obtain ⟨u, hset, hu⟩ := h.setWithTtl key value ttl
    simp only [Reference.setWithTtl, haccepted] at hset hu
    exact ⟨_, u, hset, answers_ok hdeadline _ u, fun _ _ => h.grants hu hpos rfl rfl⟩

theorem expire_answers [WordSource γ] (h : s.Shows r) (key : Bytes) (ttl : Duration) :
    ∃ outcome u, s.expire key ttl = .ok (outcome, u) ∧ s.Answers ttl outcome u ∧
      (outcome = .ok true →
        ∃ value v, s.get key = .ok (some value, v) ∧ s.Grants key value ttl u) := by
  cases hdeadline : deadlineAfter s.now ttl with
  | error error =>
    have hexpire : s.expire key ttl = .ok (.error error, s) := by
      simp only [Store.expire, hdeadline]
      rfl
    refine ⟨_, s, hexpire, answers_error hdeadline, ?_⟩
    intro hok
    cases hok
  | ok deadline =>
    obtain ⟨hpos, -, rfl⟩ := deadlineAfter_eq_ok_iff.1 hdeadline
    have haccepted : r.refusal? ttl = none := Reference.refusal?_eq_none (h.now_eq ▸ hdeadline)
    obtain ⟨u, hexpire, hu⟩ := h.expire key ttl
    obtain ⟨v, hget, -⟩ := h.get key
    rw [Reference.get_fst] at hget
    simp only [Reference.expire, haccepted] at hexpire hu
    cases hlive : r.live[key]? with
    | none =>
      simp only [hlive] at hexpire
      refine ⟨_, u, hexpire, answers_ok hdeadline false u, ?_⟩
      intro hok
      cases hok
    | some e =>
      simp only [hlive] at hexpire hu hget
      refine ⟨_, u, hexpire, answers_ok hdeadline true u, fun _ => ?_⟩
      exact ⟨e.value, v, hget, h.grants hu hpos rfl rfl⟩

end Shows

end Store

/-- Whatever has happened to a store with a valid configuration, a time to live is refused just if
it is zero or ends beyond the clock, and a refusal changes nothing. Once it is taken, by writing a
value or for an entry that is there, it ends the entry at its deadline and not before. -/
theorem time_to_live_exact {γ : Type} [WordSource γ] {config : Config}
    (hvalid : config.check = .ok ()) (source : γ) (events : List Event) :
    ∃ s t, Store.create .present config source = .ok (.ok s) ∧ s.handleAll events = .ok t ∧
      ∀ (key value : Bytes) (ttl : Duration),
        (∃ outcome u, t.setWithTtl key value ttl = .ok (outcome, u) ∧ t.Answers ttl outcome u ∧
          ∀ created, outcome = .ok created → t.Grants key value ttl u) ∧
        ∃ outcome u, t.expire key ttl = .ok (outcome, u) ∧ t.Answers ttl outcome u ∧
          (outcome = .ok true →
            ∃ shown v, t.get key = .ok (some shown, v) ∧ t.Grants key shown ttl u) := by
  obtain ⟨s, t, r, hcreate, hall, hshows, -⟩ := Store.shows_handleAll hvalid source events
  exact ⟨s, t, hcreate, hall, fun key value ttl =>
    ⟨hshows.setWithTtl_answers key value ttl, hshows.expire_answers key ttl⟩⟩

/-- One nanosecond more carries the deadline into a second that the clock cannot show. -/
theorem time_to_live_exact_at_the_last_second :
    Config.check { eviction := .immediate, ceiling := 2 } = .ok () ∧
      ∃ s t created u,
        Store.create .present { eviction := .immediate, ceiling := 2 } (Xoshiro.ofSeed 6) =
          .ok (.ok s) ∧
        s.handleAll [.command (.setWithTtl [97] [1] 5), .command (.advance 1)] = .ok t ∧
        t.setWithTtl [97] [2] (2 ^ 63 * Duration.second - 2) = .ok (.ok created, u) ∧
        t.Grants [97] [2] (2 ^ 63 * Duration.second - 2) u ∧
        t.expire [97] (2 ^ 63 * Duration.second - 1) =
          .ok (.error (.overflow (2 ^ 63 * Duration.second - 1)), t) := by
  have hvalid : Config.check { eviction := .immediate, ceiling := 2 } = .ok () := by decide
  obtain ⟨s, t, hcreate, hall, hcalls⟩ := time_to_live_exact hvalid (Xoshiro.ofSeed 6)
    [.command (.setWithTtl [97] [1] 5), .command (.advance 1)]
  have hnow : (do
      match ← Store.create .present { eviction := .immediate, ceiling := 2 } (Xoshiro.ofSeed 6) with
      | .error _ => return 0
      | .ok s =>
        let t ← s.handleAll [.command (.setWithTtl [97] [1] 5), .command (.advance 1)]
        return t.now : Checked Instant) = .ok 1 := rfl
  simp only [hcreate, Checked.ok_bind, hall] at hnow
  obtain ⟨⟨outcome, u, hset, hanswers, hgrants⟩, -⟩ :=
    hcalls [97] [2] (2 ^ 63 * Duration.second - 2)
  obtain ⟨created, rfl⟩ := hanswers.ok_iff.2 ⟨by decide, by rw [Except.ok.inj hnow]; decide⟩
  obtain ⟨-, outcome', u', hexpire, hanswers', -⟩ :=
    hcalls [97] [2] (2 ^ 63 * Duration.second - 1)
  obtain rfl := (hanswers'.overflow_iff _).2
    ⟨rfl, by decide, by rw [Except.ok.inj hnow]; decide⟩
  rw [hanswers'.unchanged _ rfl] at hexpire
  exact ⟨hvalid, s, t, created, u, hcreate, hall, hset, hgrants created rfl, hexpire⟩

end ExpiringStore
