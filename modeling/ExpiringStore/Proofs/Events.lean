import ExpiringStore.Proofs.Refinement

/-!
# Events

Commands come from the users of a store and from the clock. Background work comes in between at any
grain: a removal that was put off may run out of turn, and a sweep looks at keys that it has collected
some time ago. Every event leads from a store that shows a reference store to another one.

## Main definitions

* `Event`, `Store.handle`, `Store.handleAll`: what can happen to a store, and what it does then.
* `Reference.handle`: what the reference store does then.
-/

namespace ExpiringStore

inductive Event where
  | command (command : Command)
  /-- Background work looks at the key at a place of the queue. -/
  | queued (place : Nat)
  /-- A sweep looks at keys that it has collected before. -/
  | sweep (keys : List Bytes)
  deriving DecidableEq, Repr

namespace Store

variable {γ : Type}

def handle [WordSource γ] (s : Store γ) : Event → Checked (Store γ)
  | .command command => return (← s.perform command).2
  | .queued place =>
    match s.queue[place]? with
    | some key => { s with queue := s.queue.eraseIdx place }.expireLazily [key]
    | none => return s
  | .sweep keys => return (← s.sweep keys).2

def handleAll [WordSource γ] (s : Store γ) (events : List Event) : Checked (Store γ) :=
  events.foldlM handle s

end Store

namespace Reference

def handle (r : Reference) : Event → Reference
  | .command command => (r.perform command).2
  | .queued place =>
    match r.queue[place]? with
    | some key => { r with queue := r.queue.eraseIdx place }.purgeLazily [key].contains
    | none => r
  | .sweep keys => (r.sweepNamed keys.contains).2

theorem settings_handle (r : Reference) (event : Event) :
    (r.handle event).settings = r.settings := by
  cases event with
  | command command => exact r.settings_perform command
  | queued place =>
    simp only [handle]
    split <;> rfl
  | sweep keys => rfl

end Reference

namespace Store

variable {γ : Type} {s : Store γ} {r : Reference}

namespace Shows

theorem withQueue (h : s.Shows r) (queue : List Bytes) :
    Shows { s with queue } { r with queue } := { h with queue_eq := rfl }

theorem handle [WordSource γ] (h : s.Shows r) (event : Event) :
    ∃ s', s.handle event = .ok s' ∧ s'.Shows (r.handle event) := by
  cases event with
  | command command =>
    obtain ⟨reply, s', hperform, -, hshows⟩ := h.perform command
    refine ⟨s', ?_, hshows⟩
    simp only [Store.handle, hperform, Checked.ok_bind]
    rfl
  | queued place =>
    simp only [Store.handle, Reference.handle, h.queue_eq]
    cases r.queue[place]? with
    | none => exact ⟨s, rfl, h⟩
    | some key => exact (h.withQueue (r.queue.eraseIdx place)).expireLazily [key]
  | sweep keys =>
    obtain ⟨s', hsweep, hshows⟩ := h.sweep_keys keys
    refine ⟨s', ?_, hshows⟩
    simp only [Store.handle, hsweep, Checked.ok_bind]
    rfl

theorem handleAll [WordSource γ] (h : s.Shows r) (events : List Event) :
    ∃ s' r', s.handleAll events = .ok s' ∧ s'.Shows r' ∧ r'.settings = r.settings := by
  induction events generalizing s r with
  | nil => exact ⟨s, r, rfl, h, rfl⟩
  | cons event rest ih =>
    obtain ⟨mid, hhandle, hshows⟩ := h.handle event
    obtain ⟨s', r', hall, hshows', hsettings⟩ := ih hshows
    refine ⟨s', r', ?_, hshows', hsettings.trans (r.settings_handle event)⟩
    rw [Store.handleAll, List.foldlM_cons, hhandle, Checked.ok_bind]
    exact hall

end Shows

/-- Whatever happens to a store with a valid configuration, it goes on showing a reference store with
the same settings. -/
theorem shows_handleAll [WordSource γ] {config : Config} (hvalid : config.check = .ok ())
    (source : γ) (events : List Event) :
    ∃ s t r, create .present config source = .ok (.ok s) ∧ s.handleAll events = .ok t ∧
      t.Shows r ∧ r.settings = (config.scoreMode, config.eviction) := by
  obtain ⟨s, hcreate, hshows⟩ := shows_create hvalid source
  obtain ⟨t, r, hall, hshows', hsettings⟩ := hshows.handleAll events
  exact ⟨s, t, r, hcreate, hall, hshows', hsettings⟩

end Store

end ExpiringStore
