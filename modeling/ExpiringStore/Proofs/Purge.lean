import ExpiringStore.Proofs.Reference

/-!
# Purging

What a purge removes depends on the keys it names only as far as they have expired. Purges add up, so
a list of keys can be worked off one by one, and no purge takes anything away from the readers.
-/

namespace ExpiringStore

theorem Entries.size_erase_add_one {entries : Entries} {key : Bytes} (h : key ∈ entries) :
    (entries.erase key).size + 1 = entries.size := by
  have hpos : 0 < entries.size := by
    rw [← Std.ExtTreeMap.length_keys]
    exact List.length_pos_of_mem (Std.ExtTreeMap.mem_keys.2 h)
  rw [Std.ExtTreeMap.size_erase, if_pos (Std.ExtTreeMap.contains_iff_mem.2 h)]
  exact Nat.sub_add_cancel hpos

namespace Reference

variable {r : Reference} {named other : Bytes → Bool}

theorem getElem?_live (r : Reference) (key : Bytes) :
    r.live[key]? = r.entries[key]?.filter (Entry.liveAt r.now) := Std.ExtTreeMap.getElem?_filter'

theorem getElem?_purge (r : Reference) (named : Bytes → Bool) (key : Bytes) :
    (r.purge named).2.entries[key]? =
      r.entries[key]?.filter fun e => e.liveAt r.now || !named key :=
  Std.ExtTreeMap.getElem?_filter'

theorem size_purge_le (r : Reference) (named : Bytes → Bool) :
    (r.purge named).2.entries.size ≤ r.entries.size := Std.ExtTreeMap.size_filter_le_size

theorem purge_eq {entries : Entries}
    (h : ∀ key, r.entries[key]?.filter (fun e => e.liveAt r.now || !named key) = entries[key]?) :
    r.purge named = (r.entries.size - entries.size, { r with entries }) := by
  have hentries : (r.entries.filter fun key e => e.liveAt r.now || !named key) = entries := by
    apply Std.ExtTreeMap.ext_getElem?
    intro key
    rw [← h key]
    exact Std.ExtTreeMap.getElem?_filter'
  simp only [purge, hentries]

/-- Only what is said of expired keys matters to a purge. -/
theorem purge_congr
    (h : ∀ key e, r.entries[key]? = some e → e.liveAt r.now = false → named key = other key) :
    r.purge named = r.purge other := by
  apply purge_eq
  intro key
  refine Eq.trans ?_ (getElem?_purge r other key).symm
  cases hget : r.entries[key]? with
  | none => rfl
  | some e =>
    cases hlive : e.liveAt r.now with
    | true => simp [Option.filter, hlive]
    | false => rw [h key e hget hlive]

theorem purge_none (h : ∀ key e, r.entries[key]? = some e → e.liveAt r.now = false → named key = false) :
    r.purge named = (0, r) := by
  have hpurge : r.purge named = (r.entries.size - r.entries.size, { r with entries := r.entries }) := by
    apply purge_eq
    intro key
    cases hget : r.entries[key]? with
    | none => rfl
    | some e =>
      cases hlive : e.liveAt r.now with
      | true => simp [Option.filter, hlive]
      | false => simp [Option.filter, h key e hget hlive]
  rw [hpurge, Nat.sub_self]

theorem purge_one {key : Bytes} {e : Entry} (hget : r.entries[key]? = some e)
    (hexpired : e.liveAt r.now = false) :
    r.purge (fun other => other == key) = (1, { r with entries := r.entries.erase key }) := by
  have hmem : key ∈ r.entries := Std.ExtTreeMap.mem_iff_isSome_getElem?.2 (by rw [hget]; rfl)
  have hsize := Entries.size_erase_add_one hmem
  have hpurge : r.purge (fun other => other == key) =
      (r.entries.size - (r.entries.erase key).size,
        { r with entries := r.entries.erase key }) := by
    apply purge_eq
    intro other
    rw [Std.ExtTreeMap.getElem?_erase]
    simp only [Std.LawfulEqOrd.compare_eq_iff_eq]
    by_cases hother : key = other
    · subst hother
      rw [if_pos rfl, hget]
      simp [Option.filter, hexpired]
    · rw [if_neg hother]
      cases r.entries[other]? with
      | none => rfl
      | some d => simp [Option.filter, Ne.symm hother]
  rw [hpurge]
  congr 1
  omega

theorem purge_purge (r : Reference) (named other : Bytes → Bool) :
    r.purge (fun key => named key || other key) =
      ((r.purge named).1 + ((r.purge named).2.purge other).1, ((r.purge named).2.purge other).2) := by
  have hle := r.size_purge_le named
  have hle' := (r.purge named).2.size_purge_le other
  have hpurge : r.purge (fun key => named key || other key) =
      (r.entries.size - ((r.purge named).2.purge other).2.entries.size,
        { r with entries := ((r.purge named).2.purge other).2.entries }) := by
    apply purge_eq
    intro key
    rw [getElem?_purge, getElem?_purge, Option.filter_filter]
    congr 1
    funext e
    show _ = ((e.liveAt r.now || !named key) && (e.liveAt r.now || !other key))
    cases e.liveAt r.now <;> cases named key <;> cases other key <;> rfl
  have hcount : ∀ (r : Reference) (named : Bytes → Bool),
      (r.purge named).1 = r.entries.size - (r.purge named).2.entries.size := fun _ _ => rfl
  rw [hpurge, hcount r named, hcount (r.purge named).2 other]
  congr 1
  omega

theorem contains_cons_eq (key : Bytes) (rest : List Bytes) :
    (key :: rest).contains = fun other => other == key || rest.contains other := by
  funext other
  exact List.contains_cons

/-! ### Sweeps of some keys -/

/-- A sweep that removes no keys but the named ones. -/
def sweepNamed (r : Reference) (named : Bytes → Bool) : Nat × Reference :=
  let (count, r) := r.purge named
  (count, { r with tally.swept := r.tally.swept + count })

/-! ### What readers see -/

theorem live_purge (r : Reference) (named : Bytes → Bool) : (r.purge named).2.live = r.live := by
  apply Std.ExtTreeMap.ext_getElem?
  intro key
  rw [getElem?_live, getElem?_purge, getElem?_live, Option.filter_filter]
  congr 1
  funext e
  show ((e.liveAt r.now || !named key) && e.liveAt r.now) = e.liveAt r.now
  cases e.liveAt r.now <;> simp

/-! ### What reading changes -/

/-- A read that meets an expired entry removes it or names it in the queue. Any other read changes
nothing. -/
theorem read_cases (r : Reference) (key : Bytes) :
    (r.read key).2 = r ∨ (r.read key).2 = r.purgeLazily (fun other => other == key) ∨
      (r.read key).2 = { r with queue := r.queue ++ [key] } := by
  unfold read
  split
  · exact Or.inl rfl
  · simp only
    unfold onExpiredRead
    split
    · split
      · exact Or.inr (Or.inl rfl)
      · exact Or.inr (Or.inr rfl)
    · exact Or.inl rfl

/-! ### What no command changes -/

def settings (r : Reference) : ScoreMode × Eviction := (r.scoreMode, r.eviction)

/-- What nothing but a sweep changes. -/
def steady (r : Reference) : (ScoreMode × Eviction) × Nat := (r.settings, r.tally.swept)

theorem steady_read (r : Reference) (key : Bytes) : (r.read key).2.steady = r.steady := by
  obtain hsame | hpurge | hqueue := r.read_cases key
  · rw [hsame]
  · rw [hpurge]
    rfl
  · rw [hqueue]
    rfl

theorem steady_perform (r : Reference) {command : Command} (hremove : command ≠ .removeExpired)
    (hbackground : command ≠ .runBackground) : (r.perform command).2.steady = r.steady := by
  cases command with
  | setWithTtl key value ttl =>
    simp only [perform, setWithTtl]
    split <;> rfl
  | get key => exact steady_read { r with tally.gets := r.tally.gets + 1 } key
  | expire key ttl =>
    simp only [perform, expire]
    split
    · rfl
    · split <;> rfl
  | persist key =>
    simp only [perform, persist]
    split <;> rfl
  | removeExpired => exact absurd rfl hremove
  | runBackground => exact absurd rfl hbackground
  | _ => rfl

theorem settings_runBackgroundBy (timer : Timer) (r : Reference) :
    (r.runBackgroundBy timer).2.settings = r.settings := by
  unfold runBackgroundBy
  simp only
  split <;> rfl

theorem settings_perform (r : Reference) (command : Command) :
    (r.perform command).2.settings = r.settings := by
  by_cases hremove : command = .removeExpired
  · subst hremove
    rfl
  · by_cases hbackground : command = .runBackground
    · subst hbackground
      exact r.settings_runBackgroundBy .standard
    · exact congrArg Prod.fst (r.steady_perform hremove hbackground)

theorem settings_performBy (timer : Timer) (r : Reference) (command : Command) :
    (r.performBy timer command).2.2.settings = r.settings := by
  by_cases hbackground : command = .runBackground
  · subst hbackground
    exact r.settings_runBackgroundBy timer
  · rw [performBy_of_ne timer r hbackground]
    exact r.settings_perform command

theorem settings_runBy (timer : Timer) (r : Reference) (commands : List Command) :
    (r.runBy timer commands).2.2.settings = r.settings := by
  induction commands generalizing r with
  | nil => rfl
  | cons command rest ih =>
    exact (ih (r.performBy timer command).2.2).trans (r.settings_performBy timer command)

end Reference

end ExpiringStore
