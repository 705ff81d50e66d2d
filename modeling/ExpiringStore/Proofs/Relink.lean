import ExpiringStore.Proofs.Layout
import ExpiringStore.SkipList.Update

/-!
# Relinking

Insertion and removal go through the levels one by one and write a new link behind the predecessor
on each. All those writes together are one change of the whole list, `relink`: the links that are
written are told from the others by their level and by the place that holds them.
-/

namespace ExpiringStore

/-! ### Changing the links of some places -/

/-- The row of a place with its links below level `n` replaced where `places` names the place. -/
def rewire (places targets : Nat → Link) (n : Nat) (place : Link) (row : Array Link) :
    Array Link :=
  row.mapIdx fun level link => if level < n ∧ places level = place then targets level else link

section Rewire

variable (places targets : Nat → Link) (n : Nat) (place : Link)

@[simp] theorem size_rewire (row : Array Link) :
    (rewire places targets n place row).size = row.size := by
  simp [rewire]

theorem getElem?_rewire (row : Array Link) (level : Nat) :
    (rewire places targets n place row)[level]? =
      row[level]?.map fun link =>
        if level < n ∧ places level = place then targets level else link := by
  simp [rewire]

theorem rewire_zero (row : Array Link) : rewire places targets 0 place row = row := by
  apply Array.ext_getElem?
  intro level
  rw [getElem?_rewire]
  cases row[level]? <;> simp

theorem rewire_eq_self {row : Array Link} (h : ∀ level < row.size, places level ≠ place) :
    rewire places targets n place row = row := by
  apply Array.ext_getElem?
  intro level
  rw [getElem?_rewire]
  by_cases hlt : level < row.size
  · rw [Array.getElem?_eq_getElem hlt]
    simp [h level hlt]
  · rw [Array.getElem?_eq_none (by omega)]
    rfl

theorem rewire_succ_of_ne (h : places n ≠ place) (row : Array Link) :
    rewire places targets (n + 1) place row = rewire places targets n place row := by
  apply Array.ext_getElem?
  intro level
  rw [getElem?_rewire, getElem?_rewire]
  congr 1
  funext link
  by_cases hlevel : level = n
  · rw [hlevel]
    simp [h]
  · have hiff : level < n + 1 ↔ level < n := by omega
    simp [hiff]

theorem rewire_succ_of_eq (h : places n = place) {row : Array Link} (hn : n < row.size) :
    rewire places targets (n + 1) place row =
      (rewire places targets n place row).set n (targets n) (by simpa using hn) := by
  apply Array.ext_getElem?
  intro level
  rw [Array.getElem?_set, getElem?_rewire, getElem?_rewire]
  by_cases hlevel : n = level
  · subst hlevel
    simp [h, Array.getElem?_eq_getElem hn]
  · have hiff : level < n + 1 ↔ level < n := by omega
    simp [hlevel, hiff]

theorem linkAt_rewire (row : Array Link) (level : Nat) :
    linkAt (rewire places targets n place row) level =
      (linkAt row level).map fun link =>
        if level < n ∧ places level = place then targets level else link := by
  simp only [linkAt, getElem?_rewire]
  cases row[level]? <;> rfl

/-- A row whose place ends the levels that no tower of `mid` is on is led on from `rest` to `rest'`
behind `mid`. -/
theorem rewire_links {height : Nat} {mid rest rest' : List Tower}
    (hplaces : ∀ level < height, places level = place ↔ Tower.tall level mid = [])
    (htargets : ∀ level < n, targets level = Tower.firstOn level rest')
    (hsame : ∀ level, n ≤ level → Tower.firstOn level rest = Tower.firstOn level rest') :
    rewire places targets n place (Tower.links height (mid ++ rest)) =
      Tower.links height (mid ++ rest') := by
  refine Tower.eq_links (by simp) fun level hlevel => ?_
  rw [getElem?_rewire, Tower.getElem?_links hlevel, Option.map_some, Tower.firstOn_append,
    Tower.firstOn_append]
  congr 1
  by_cases hlt : level < n
  · by_cases hmid : Tower.tall level mid = []
    · rw [if_pos ⟨hlt, (hplaces level hlevel).2 hmid⟩, Tower.firstOn_eq_none.2 hmid,
        Option.none_or, htargets level hlt]
    · rw [if_neg fun hand => hmid ((hplaces level hlevel).1 hand.2)]
      cases hfirst : Tower.firstOn level mid with
      | none => exact absurd (Tower.firstOn_eq_none.1 hfirst) hmid
      | some slot => rfl
  · rw [if_neg fun hand => hlt hand.1, hsame level (by omega)]

end Rewire

theorem setLink_of_lt {row : Array Link} {level : Nat} (h : level < row.size) (link : Link) :
    setLink row level link = .ok (row.set level link) := by
  simp [setLink, h]

theorem lt_size_of_linkAt {row : Array Link} {level : Nat} {link : Link}
    (h : linkAt row level = .ok link) : level < row.size := by
  by_cases hlt : level < row.size
  · exact hlt
  · rw [linkAt, Array.getElem?_eq_none (by omega)] at h
    cases h

namespace SkipList

open Tower

variable {γ : Type}

/-- Makes each place that `places` names lead to its target, on the levels below `n`. -/
def relink (places targets : Nat → Link) (n : Nat) (l : SkipList γ) : SkipList γ :=
  { l with
    front := rewire places targets n none l.front
    arena := l.arena.mapSlots fun slot e =>
      { e with next := rewire places targets n (some slot) e.next } }

def relinkBack (follower link : Link) (l : SkipList γ) : SkipList γ :=
  { l with
    back := if follower = none then link else l.back
    arena := l.arena.mapSlots fun slot e => if some slot = follower then { e with prev := link } else e }

theorem element_eq_ok_iff {l : SkipList γ} {slot : Slot} {e : Element} :
    l.element slot = .ok e ↔ l.arena.get? slot = some e := by
  unfold element
  cases l.arena.get? slot <;> simp

theorem next_congr {l l' : SkipList γ} {place : Link} (hfront : l'.front = l.front)
    (hget : ∀ slot, place = some slot → l'.arena.get? slot = l.arena.get? slot) (level : Nat) :
    l'.next place level = l.next place level := by
  cases place with
  | none => simp only [next, hfront]
  | some slot => simp only [next, element, hget slot rfl]

/-- The towers in front of a cut lead across it, in every list that has their elements. -/
theorem Layout.next_lastOn_of_get? {l l' : SkipList γ} {ts before after : List Tower} {level : Nat}
    (h : l.Layout ts) (hsplit : ts = before ++ after) (hlevel : level < l.ceiling)
    (hfront : l'.front = l.front)
    (hget : ∀ u ∈ before, l'.arena.get? u.slot = l.arena.get? u.slot) :
    l'.next (lastOn level before) level = .ok (firstOn level after) := by
  rw [next_congr hfront, h.next_lastOn hsplit hlevel]
  intro slot hslot
  obtain ⟨u, hu, -, rfl⟩ := exists_of_lastOn hslot
  exact hget u hu

theorem relink_zero (places targets : Nat → Link) (l : SkipList γ) :
    l.relink places targets 0 = l := by
  simp only [relink, rewire_zero]
  rw [Arena.mapSlots_id]

theorem next_relink (places targets : Nat → Link) (n : Nat) (l : SkipList γ) (place : Link)
    (level : Nat) :
    (l.relink places targets n).next place level =
      (l.next place level).map fun link =>
        if level < n ∧ places level = place then targets level else link := by
  cases place with
  | none => exact linkAt_rewire places targets n none l.front level
  | some slot =>
    simp only [next, element, relink, Arena.get?_mapSlots]
    cases l.arena.get? slot with
    | none => rfl
    | some e => exact linkAt_rewire places targets n (some slot) e.next level

theorem setNext_relink {places targets : Nat → Link} {n : Nat} {l : SkipList γ} {link : Link}
    (h : l.next (places n) n = .ok link) :
    (l.relink places targets n).setNext (places n) n (targets n) =
      .ok (l.relink places targets (n + 1)) := by
  cases hplace : places n with
  | none =>
    rw [hplace] at h
    have hlt : n < l.front.size := lt_size_of_linkAt h
    have hlt' : n < (rewire places targets n none l.front).size := by simpa using hlt
    have harena : ∀ slot, rewire places targets (n + 1) (some slot) =
        rewire places targets n (some slot) := by
      intro slot
      funext row
      exact rewire_succ_of_ne places targets n (some slot) (by simp [hplace]) row
    simp only [setNext, relink, setLink_of_lt hlt', Checked.ok_bind, Checked.pure_eq,
      rewire_succ_of_eq places targets n none hplace hlt, harena]
  | some slot =>
    rw [hplace] at h
    cases hget : l.arena.get? slot with
    | none =>
      simp only [next, element, hget] at h
      cases h
    | some e =>
      simp only [next, element_eq_ok_iff.2 hget, Checked.ok_bind] at h
      have hlt : n < e.next.size := lt_size_of_linkAt h
      have hlt' : n < (rewire places targets n (some slot) e.next).size := by simpa using hlt
      have hfront := rewire_succ_of_ne places targets n none (by simp [hplace]) l.front
      have hget' : (l.relink places targets n).arena.get? slot =
          some { e with next := rewire places targets n (some slot) e.next } := by
        simp [relink, Arena.get?_mapSlots, hget]
      simp only [setNext, modify, element_eq_ok_iff.2 hget', Checked.ok_bind,
        setLink_of_lt hlt', Checked.pure_eq, ← rewire_succ_of_eq places targets n (some slot) hplace hlt]
      simp only [relink, hfront]
      congr 2
      refine Arena.ext_get? (by simp) rfl fun other => ?_
      by_cases hother : slot = other
      · subst hother
        rw [Arena.get?_put_self (by simpa using Arena.lt_size_of_get? hget), Arena.get?_mapSlots,
          hget, Option.map_some]
      · have hne : places n ≠ some other := by simpa [hplace] using hother
        rw [Arena.get?_put_of_ne _ hother, Arena.get?_mapSlots, Arena.get?_mapSlots]
        simp only [rewire_succ_of_ne places targets n (some other) hne]

theorem foldlM_setNext {places targets : Nat → Link} {n : Nat} {l : SkipList γ}
    (h : ∀ level < n, ∃ link, l.next (places level) level = .ok link) :
    (List.range n).foldlM (fun l level => l.setNext (places level) level (targets level)) l =
      .ok (l.relink places targets n) := by
  induction n with
  | zero => rw [relink_zero]; rfl
  | succ n ih =>
    obtain ⟨link, hlink⟩ := h n (by omega)
    rw [List.range_succ, List.foldlM_append, ih fun level hlevel => h level (by omega),
      Checked.ok_bind, List.foldlM_cons, setNext_relink hlink]
    rfl

theorem foldlM_unlink {found : List Link} {slot : Slot} {e : Element} {targets : Nat → Link}
    {n : Nat} {l : SkipList γ}
    (h : ∀ level < n, l.next (predecessor found level) level = .ok (some slot))
    (htargets : ∀ level < n, linkAt e.next level = .ok (targets level)) :
    (List.range n).foldlM (unlink found slot e) l =
      .ok (l.relink (predecessor found) targets n) := by
  induction n with
  | zero => rw [relink_zero]; rfl
  | succ n ih =>
    have hnext : (l.relink (predecessor found) targets n).next (predecessor found n) n =
        .ok (some slot) := by
      rw [next_relink, h n (by omega)]
      simp [Except.map]
    rw [List.range_succ, List.foldlM_append, ih (fun level hlevel => h level (by omega))
      (fun level hlevel => htargets level (by omega)), Checked.ok_bind, List.foldlM_cons]
    simp only [unlink, hnext, htargets n (by omega), Checked.ok_bind, ↓reduceIte,
      setNext_relink (h n (by omega))]
    rfl

theorem setPrev_eq {l : SkipList γ} {follower : Link} (link : Link)
    (h : ∀ slot, follower = some slot → ∃ e, l.arena.get? slot = some e) :
    l.setPrev follower link = .ok (l.relinkBack follower link) := by
  cases follower with
  | none => simp [setPrev, relinkBack, Arena.mapSlots_id, Checked.pure_eq]
  | some slot =>
    obtain ⟨e, hget⟩ := h slot rfl
    simp only [setPrev, modify, element_eq_ok_iff.2 hget, Checked.ok_bind, Checked.pure_eq,
      relinkBack, Option.some.injEq, reduceCtorEq, ↓reduceIte,
      Arena.put_eq_mapSlots hget fun e => { e with prev := link }]

end SkipList

end ExpiringStore
