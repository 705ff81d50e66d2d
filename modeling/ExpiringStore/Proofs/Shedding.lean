import ExpiringStore.Proofs.History
import ExpiringStore.Store.Command

/-!
# What a store takes out of its index

Unless it writes, a store does nothing to its index but take elements out: a deletion, a flush and
every route by which an expired entry leaves come down to removals. So what removals keep, everything
but a write keeps.

## Main definitions

* `SkipList.Sheds`: removals that lead from one list to another.
* `Command.written?`: the key that a command writes.
-/

namespace ExpiringStore

namespace SkipList

variable {γ : Type} {l m u : SkipList γ} {ts : List Tower}

/-- Removals lead from one list to the other. -/
inductive Sheds : SkipList γ → SkipList γ → Prop
  | refl (l : SkipList γ) : Sheds l l
  | delete {l m u : SkipList γ} {key : Bytes} {score : Score} {e? : Option Element}
      (hdelete : l.delete key score = .ok (e?, m)) (hrest : Sheds m u) : Sheds l u
  | clear {l u : SkipList γ} (hrest : Sheds l.clear u) : Sheds l u

theorem Sheds.trans (h : l.Sheds m) (h' : m.Sheds u) : l.Sheds u := by
  induction h with
  | refl => exact h'
  | delete hdelete _ ih => exact .delete hdelete (ih h')
  | clear _ ih => exact .clear (ih h')

/-- Removals leave some of the towers, and all the words. -/
theorem Layout.sheds (h : l.Layout ts) (hsheds : l.Sheds u) :
    ∃ ts', u.Layout ts' ∧ ts' ⊆ ts ∧ u.ceiling = l.ceiling ∧ u.source = l.source := by
  induction hsheds generalizing ts with
  | refl => exact ⟨ts, h, List.Subset.refl ts, rfl, rfl⟩
  | @delete l m u key score e? hdelete _ ih =>
    obtain ⟨found, l', hdelete', -, -, hlayout, hceiling⟩ := h.delete_eq key score
    obtain ⟨-, rfl⟩ := Prod.mk.inj (Except.ok.inj (hdelete.symm.trans hdelete'))
    obtain ⟨ts', hlayout', hsub, hceiling', hsource⟩ := ih hlayout
    exact ⟨ts', hlayout', fun t ht => (Tower.mem_remove.1 (hsub ht)).1, hceiling'.trans hceiling,
      hsource.trans (h.source_delete hdelete)⟩
  | @clear l u _ ih =>
    obtain ⟨ts', hlayout, hsub, hceiling, hsource⟩ := ih h.clear
    refine ⟨ts', hlayout, fun t ht => absurd (hsub ht) List.not_mem_nil, hceiling.trans ?_, hsource⟩
    simp [SkipList.clear, SkipList.ceiling]

end SkipList

/-- The key that a command writes. -/
def Command.written? : Command → Option Bytes
  | .set key _ | .setWithTtl key _ _ => some key
  | _ => none

namespace Store

variable {γ : Type} {s u : Store γ}

theorem evict_sheds {key : Bytes} {removed : Bool} (h : s.evict key = .ok (removed, u)) :
    s.index.Sheds u.index := by
  unfold evict at h
  split at h
  · cases h
    exact .refl _
  · obtain ⟨⟨e?, index⟩, hdelete, hpure⟩ := Checked.bind_eq_ok h
    cases hpure
    exact .delete hdelete (.refl _)

theorem evictAll_sheds {keys : List Bytes} {count : Nat} (h : s.evictAll keys = .ok (count, u)) :
    s.index.Sheds u.index := by
  induction keys generalizing s count with
  | nil =>
    cases h
    exact .refl _
  | cons key rest ih =>
    obtain ⟨⟨removed, mid⟩, hfirst, hrest⟩ := Checked.bind_eq_ok h
    obtain ⟨⟨later, last⟩, hrest, hpure⟩ := Checked.bind_eq_ok hrest
    cases hpure
    exact (evict_sheds hfirst).trans (ih hrest)

theorem expireLazily_sheds {keys : List Bytes} (h : s.expireLazily keys = .ok u) :
    s.index.Sheds u.index := by
  obtain ⟨⟨count, mid⟩, hevict, hpure⟩ := Checked.bind_eq_ok h
  cases hpure
  have hsheds := evictAll_sheds hevict
  exact hsheds

theorem onExpiredRead_sheds {key : Bytes} (h : s.onExpiredRead key = .ok u) :
    s.index.Sheds u.index := by
  unfold onExpiredRead at h
  split at h
  · exact expireLazily_sheds h
  · cases h
    exact .refl _

theorem sweep_sheds {keys : List Bytes} {count : Nat} (h : s.sweep keys = .ok (count, u)) :
    s.index.Sheds u.index := by
  obtain ⟨⟨later, mid⟩, hevict, hpure⟩ := Checked.bind_eq_ok h
  cases hpure
  have hsheds := evictAll_sheds hevict
  exact hsheds

theorem runBackgroundBy_sheds {timer : Timer} {swept : Bool}
    (h : s.runBackgroundBy timer = .ok (swept, u)) : s.index.Sheds u.index := by
  obtain ⟨mid, hqueue, hrest⟩ := Checked.bind_eq_ok h
  obtain ⟨worked, hexpire, hpure⟩ := Checked.bind_eq_ok hqueue
  cases hpure
  have hworked := expireLazily_sheds hexpire
  split at hrest
  · obtain ⟨⟨count, last⟩, hsweep, hpure⟩ := Checked.bind_eq_ok hrest
    cases hpure
    have hswept := sweep_sheds hsweep
    exact hworked.trans hswept
  · cases hrest
    exact hworked

theorem delete_sheds {key : Bytes} {removed : Bool} (h : s.delete key = .ok (removed, u)) :
    s.index.Sheds u.index := by
  obtain ⟨⟨e?, index⟩, hdelete, hpure⟩ := Checked.bind_eq_ok h
  cases hpure
  exact .delete hdelete (.refl _)

theorem get_sheds {key : Bytes} {value? : Option Bytes} (h : s.get key = .ok (value?, u)) :
    s.index.Sheds u.index := by
  unfold get at h
  simp only at h
  split at h
  · obtain ⟨e?, -, hpure⟩ := Checked.bind_eq_ok h
    cases hpure
    exact .refl _
  · obtain ⟨last, hread, hpure⟩ := Checked.bind_eq_ok h
    cases hpure
    have hsheds := onExpiredRead_sheds hread
    exact hsheds

theorem expire_sheds {key : Bytes} {ttl : Duration} {outcome : Except TtlError Bool}
    (h : s.expire key ttl = .ok (outcome, u)) : s.index.Sheds u.index := by
  unfold expire at h
  split at h
  · cases h
    exact .refl _
  · obtain ⟨e?, -, hfound⟩ := Checked.bind_eq_ok h
    cases e? with
    | none =>
      cases hfound
      exact .refl _
    | some e =>
      simp only at hfound
      split at hfound
      · cases hfound
        exact .refl _
      · obtain ⟨last, hexpire, hpure⟩ := Checked.bind_eq_ok hfound
        cases hpure
        exact expireLazily_sheds hexpire

theorem persist_sheds (s : Store γ) (key : Bytes) : s.index.Sheds (s.persist key).2.index := by
  unfold persist
  split
  · exact .refl _
  · exact .refl _

theorem perform_sheds [WordSource γ] {command : Command} {reply : Reply}
    (hperform : s.perform command = .ok (reply, u)) (hcommand : command.written? = none) :
    s.index.Sheds u.index := by
  cases command with
  | set key value => cases hcommand
  | setWithTtl key value ttl => cases hcommand
  | get key =>
    obtain ⟨⟨value?, mid⟩, hget, hpure⟩ := Checked.bind_eq_ok hperform
    cases hpure
    exact get_sheds hget
  | delete key =>
    obtain ⟨⟨removed, mid⟩, hdelete, hpure⟩ := Checked.bind_eq_ok hperform
    cases hpure
    exact delete_sheds hdelete
  | expire key ttl =>
    obtain ⟨⟨outcome, mid⟩, hexpire, hpure⟩ := Checked.bind_eq_ok hperform
    cases hpure
    exact expire_sheds hexpire
  | persist key =>
    cases hperform
    exact s.persist_sheds key
  | removeExpired =>
    obtain ⟨⟨count, mid⟩, hremove, hpure⟩ := Checked.bind_eq_ok hperform
    cases hpure
    exact sweep_sheds hremove
  | flush =>
    cases hperform
    exact .clear (.refl _)
  | runBackground =>
    obtain ⟨⟨swept, mid⟩, hrun, hpure⟩ := Checked.bind_eq_ok hperform
    cases hpure
    exact runBackgroundBy_sheds hrun
  | contains | keys | scan | liveCount =>
    obtain ⟨answer, -, hpure⟩ := Checked.bind_eq_ok hperform
    cases hpure
    exact .refl _
  | ttl | length | isEmpty | stats | close | isClosed | advance =>
    cases hperform
    exact .refl _

end Store

end ExpiringStore
