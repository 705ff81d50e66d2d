import ExpiringStore.Proofs.Refinement

/-!
# Removal of what has expired is invisible

Two runs that share the commands of the users and the passing of time, and differ in their settings
and in everything that removes expired entries, show their readers the same. What the runs have in
common is the part of the map that readers see: every command takes equal parts to equal parts, and
whatever happens between two shared commands leaves that part alone.
-/

namespace ExpiringStore

/-- Whether a command belongs to the users or to the clock. The others look at what is stored, expired
or not, or run the removal of what has expired. -/
def Command.isShared : Command → Bool
  | .set .. | .setWithTtl .. | .get _ | .contains _ | .delete _ | .ttl _ | .expire .. | .persist _
  | .keys | .scan .. | .liveCount | .flush | .advance _ => true
  | .length | .isEmpty | .removeExpired | .stats | .close | .isClosed | .runBackground => false

/-- How far two replies to a shared command agree. What is written over or deleted may have expired,
so whether it was there is left open; the order of the keys is that of the scores. -/
def Command.Agrees (sameOrder : Prop) (command : Command) (a b : Reply) : Prop :=
  match command with
  | .set .. | .delete _ => True
  | .setWithTtl .. => ∀ error, a = .refused error ↔ b = .refused error
  | .keys => ∃ ks ks', a = .keys ks ∧ b = .keys ks' ∧ ks.Perm ks' ∧ (sameOrder → ks = ks')
  | .scan _ limit => limit = 0 ∨ sameOrder → a = b
  | _ => a = b

def sharedReplies (commands : List Command) (replies : List Reply) : List (Command × Reply) :=
  (commands.zip replies).filter fun step => step.1.isShared

theorem Entry.liveAt_of_le {now later : Instant} (hle : now ≤ later) {e : Entry}
    (h : e.liveAt later = true) : e.liveAt now = true := by
  unfold Entry.liveAt at h ⊢
  cases hdeadline : e.deadline? with
  | none => rfl
  | some deadline =>
    rw [hdeadline, Option.all_some, decide_eq_true_eq] at h
    rw [Option.all_some, decide_eq_true_eq]
    exact Nat.lt_of_le_of_lt hle h

namespace Reference

variable {r r' r'' : Reference}

/-- The two stores show their readers the same. -/
structure Alike (r r' : Reference) : Prop where
  now_eq : r.now = r'.now
  live_eq : r.live = r'.live

namespace Alike

theorem refl (r : Reference) : r.Alike r := ⟨rfl, rfl⟩

theorem symm (h : r.Alike r') : r'.Alike r := ⟨h.now_eq.symm, h.live_eq.symm⟩

theorem trans (h : r.Alike r') (h' : r'.Alike r'') : r.Alike r'' :=
  ⟨h.now_eq.trans h'.now_eq, h.live_eq.trans h'.live_eq⟩

end Alike

/-! ### What changes the visible part, changes it alike -/

theorem live_insert (r : Reference) (key : Bytes) (e : Entry) :
    live { r with entries := r.entries.insert key e } =
      if e.liveAt r.now then r.live.insert key e else r.live.erase key := by
  apply Std.ExtTreeMap.ext_getElem?
  intro other
  rw [getElem?_live, Std.ExtTreeMap.getElem?_insert]
  cases hlive : e.liveAt r.now with
  | true =>
    rw [if_pos rfl, Std.ExtTreeMap.getElem?_insert, getElem?_live]
    split
    · exact if_pos hlive
    · rfl
  | false =>
    rw [if_neg Bool.false_ne_true, Std.ExtTreeMap.getElem?_erase, getElem?_live]
    split
    · exact if_neg (by rw [hlive]; decide)
    · rfl

theorem live_erase (r : Reference) (key : Bytes) :
    live { r with entries := r.entries.erase key } = r.live.erase key := by
  apply Std.ExtTreeMap.ext_getElem?
  intro other
  rw [getElem?_live, Std.ExtTreeMap.getElem?_erase, Std.ExtTreeMap.getElem?_erase, getElem?_live]
  split <;> rfl

theorem live_advance (r : Reference) (d : Duration) :
    live { r with now := r.now + d } = r.live.filter fun _ e => e.liveAt (r.now + d) := by
  apply Std.ExtTreeMap.ext_getElem?
  intro key
  rw [getElem?_live, Std.ExtTreeMap.getElem?_filter', getElem?_live, Option.filter_filter]
  congr 1
  funext e
  show e.liveAt (r.now + d) = (e.liveAt r.now && e.liveAt (r.now + d))
  cases hlater : e.liveAt (r.now + d) with
  | false => rw [Bool.and_false]
  | true => rw [Entry.liveAt_of_le (Nat.le_add_right r.now d) hlater, Bool.and_self]

namespace Alike

theorem insert (h : r.Alike r') (key : Bytes) (e : Entry) :
    Alike { r with entries := r.entries.insert key e }
      { r' with entries := r'.entries.insert key e } := by
  refine ⟨h.now_eq, ?_⟩
  rw [live_insert, live_insert, h.now_eq, h.live_eq]

theorem erase (h : r.Alike r') (key : Bytes) :
    Alike { r with entries := r.entries.erase key }
      { r' with entries := r'.entries.erase key } := by
  refine ⟨h.now_eq, ?_⟩
  rw [live_erase, live_erase, h.live_eq]

theorem advance (h : r.Alike r') (d : Duration) :
    Alike { r with now := r.now + d } { r' with now := r'.now + d } := by
  refine ⟨congrArg (· + d) h.now_eq, ?_⟩
  rw [live_advance, live_advance, h.now_eq, h.live_eq]

end Alike

/-! ### What leaves the visible part alone -/

theorem alike_purgeLazily (r : Reference) (named : Bytes → Bool) :
    r.Alike (r.purgeLazily named) := ⟨rfl, (r.live_purge named).symm⟩

theorem alike_sweep (r : Reference) : r.Alike r.sweep.2 := ⟨rfl, (r.live_purge _).symm⟩

theorem alike_runBackgroundBy (timer : Timer) (r : Reference) :
    r.Alike (r.runBackgroundBy timer).2 := by
  have hqueue : r.Alike r.runQueue := ⟨rfl, (r.alike_purgeLazily _).live_eq⟩
  unfold runBackgroundBy
  simp only
  split
  · exact hqueue.trans ⟨rfl, r.runQueue.alike_sweep.live_eq⟩
  · exact hqueue

theorem alike_read (r : Reference) (key : Bytes) : r.Alike (r.read key).2 := by
  obtain hsame | hpurge | hqueue := r.read_cases key
  · rw [hsame]
    exact Alike.refl r
  · rw [hpurge]
    exact r.alike_purgeLazily _
  · rw [hqueue]
    exact ⟨rfl, rfl⟩

theorem alike_get (r : Reference) (key : Bytes) : r.Alike (r.get key).2 := by
  have hcounted : r.Alike { r with tally.gets := r.tally.gets + 1 } := ⟨rfl, rfl⟩
  exact hcounted.trans (alike_read _ key)

theorem alike_perform_of_not_shared (r : Reference) {command : Command}
    (h : command.isShared = false) : r.Alike (r.perform command).2 := by
  cases command with
  | removeExpired => exact r.alike_sweep
  | runBackground => exact r.alike_runBackgroundBy .standard
  | close => exact ⟨rfl, rfl⟩
  | length | isEmpty | stats | isClosed => exact Alike.refl r
  | _ => cases h

theorem Alike.perform (h : r.Alike r') {command : Command} (hshared : command.isShared = true) :
    (r.perform command).2.Alike (r'.perform command).2 := by
  cases command with
  | set key value => exact ⟨h.now_eq, (h.insert key ⟨value, none⟩).live_eq⟩
  | setWithTtl key value ttl =>
    have hdeadline : r.now + ttl = r'.now + ttl := congrArg (· + ttl) h.now_eq
    simp only [Reference.perform, setWithTtl, refusal?_congr h.now_eq ttl, hdeadline]
    split
    · exact h
    · exact ⟨h.now_eq, (h.insert key ⟨value, some (r'.now + ttl)⟩).live_eq⟩
  | get key => exact ((r.alike_get key).symm.trans h).trans (r'.alike_get key)
  | delete key => exact ⟨h.now_eq, (h.erase key).live_eq⟩
  | expire key ttl =>
    have hdeadline : r.now + ttl = r'.now + ttl := congrArg (· + ttl) h.now_eq
    simp only [Reference.perform, expire, refusal?_congr h.now_eq ttl, hdeadline, h.live_eq]
    split
    · exact h
    · split
      · exact h.insert key _
      · exact ((r.alike_purgeLazily _).symm.trans h).trans (r'.alike_purgeLazily _)
  | persist key =>
    simp only [Reference.perform, persist, h.live_eq]
    split
    · exact h.insert key _
    · exact h
  | flush => exact ⟨h.now_eq, Std.ExtTreeMap.ext_getElem? fun key => by
      rw [getElem?_live, getElem?_live]
      simp [Reference.perform, flush]⟩
  | advance d => exact h.advance d
  | contains | ttl | keys | scan | liveCount => exact h
  | _ => cases hshared

/-! ### Replies -/

theorem get_fst (r : Reference) (key : Bytes) : (r.get key).1 = r.live[key]?.map Entry.value := by
  show (read { r with tally.gets := r.tally.gets + 1 } key).1 = _
  have hlive : live { r with tally.gets := r.tally.gets + 1 } = r.live := rfl
  unfold read
  rw [hlive]
  cases r.live[key]? <;> rfl

theorem perm_listing (r : Reference) :
    r.listing.Perm (r.live.toList.map fun b => (b.1, b.2.value)) := List.mergeSort_perm ..

theorem getElem?_scan_zero (r : Reference) (stem key : Bytes) (value : Bytes) :
    (r.scan stem 0)[key]? = some value ↔
      stem.isPrefixOf key = true ∧ r.live[key]?.map Entry.value = some value := by
  have hscan : r.scan stem 0 = .ofList (r.listing.filter fun b => stem.isPrefixOf b.1) := rfl
  rw [hscan, getElem?_ofList_eq_some_iff (r.pairwise_ne_listing.filter _), List.mem_filter,
    mem_listing, and_comm]

namespace Alike

theorem listing_eq (h : r.Alike r') (hmode : r.scoreMode = r'.scoreMode) :
    r.listing = r'.listing := by
  rw [listing, listing, h.live_eq, hmode]

theorem scan_zero_eq (h : r.Alike r') (stem : Bytes) : r.scan stem 0 = r'.scan stem 0 := by
  apply Std.ExtTreeMap.ext_getElem?
  intro key
  apply Option.ext
  intro value
  rw [getElem?_scan_zero, getElem?_scan_zero, h.live_eq]

theorem ttl_eq (h : r.Alike r') (key : Bytes) : r.ttl key = r'.ttl key := by
  rw [ttl, ttl, h.live_eq, h.now_eq]

theorem expire_fst (h : r.Alike r') (key : Bytes) (ttl : Duration) :
    (r.expire key ttl).1 = (r'.expire key ttl).1 := by
  simp only [expire, refusal?_congr h.now_eq ttl, h.live_eq]
  split
  · rfl
  · split <;> rfl

theorem persist_fst (h : r.Alike r') (key : Bytes) : (r.persist key).1 = (r'.persist key).1 := by
  simp only [persist, h.live_eq]
  split <;> rfl

theorem setWithTtl_refused (h : r.Alike r') (key value : Bytes) (ttl : Duration) (error : TtlError) :
    Reply.ofOutcome (r.setWithTtl key value ttl).1 = .refused error ↔
      Reply.ofOutcome (r'.setWithTtl key value ttl).1 = .refused error := by
  simp only [setWithTtl, refusal?_congr h.now_eq ttl]
  split
  · rfl
  · simp [Reply.ofOutcome]

theorem agrees (h : r.Alike r') {command : Command} (hshared : command.isShared = true) :
    command.Agrees (r.scoreMode = r'.scoreMode) (r.perform command).1 (r'.perform command).1 := by
  cases command with
  | set | delete => trivial
  | setWithTtl key value ttl => exact fun error => h.setWithTtl_refused key value ttl error
  | get key =>
    show Reply.value (r.get key).1 = .value (r'.get key).1
    rw [get_fst, get_fst, h.live_eq]
  | contains key =>
    show Reply.flag (r.live.contains key) = .flag (r'.live.contains key)
    rw [h.live_eq]
  | ttl key => exact congrArg Reply.remaining (h.ttl_eq key)
  | expire key ttl => exact congrArg Reply.ofOutcome (h.expire_fst key ttl)
  | persist key => exact congrArg Reply.flag (h.persist_fst key)
  | keys =>
    refine ⟨_, _, rfl, rfl, ?_, fun hmode => by rw [h.listing_eq hmode]⟩
    have hperm := r'.perm_listing
    rw [← h.live_eq] at hperm
    exact (r.perm_listing.trans hperm.symm).map Prod.fst
  | scan stem limit =>
    rintro (rfl | hmode)
    · exact congrArg Reply.entries (h.scan_zero_eq stem)
    · show Reply.entries (r.scan stem limit) = .entries (r'.scan stem limit)
      rw [scan, scan, h.listing_eq hmode]
  | liveCount =>
    show Reply.count r.live.size = .count r'.live.size
    rw [h.live_eq]
  | flush | advance => exact rfl
  | _ => cases hshared

end Alike

/-! ### Runs -/

theorem scoreMode_perform (r : Reference) (command : Command) :
    (r.perform command).2.scoreMode = r.scoreMode :=
  congrArg Prod.fst (r.settings_perform command)

end Reference

/-! ### The shared part of a run -/

section SharedReplies

variable {command : Command} (commands : List Command) (reply : Reply) (replies : List Reply)

theorem sharedReplies_cons_of_shared (h : command.isShared = true) :
    sharedReplies (command :: commands) (reply :: replies) =
      (command, reply) :: sharedReplies commands replies := by
  simp only [sharedReplies, List.zip_cons_cons, List.filter_cons, h, ↓reduceIte]

theorem sharedReplies_cons_of_not_shared (h : command.isShared = false) :
    sharedReplies (command :: commands) (reply :: replies) = sharedReplies commands replies := by
  simp only [sharedReplies, List.zip_cons_cons, List.filter_cons, h, Bool.false_eq_true, ↓reduceIte]

theorem sharedReplies_eq_nil {commands : List Command}
    (h : commands.filter Command.isShared = []) : sharedReplies commands replies = [] := by
  rw [sharedReplies, List.filter_eq_nil_iff]
  intro ⟨command, reply⟩ hstep
  exact List.filter_eq_nil_iff.1 h command (List.of_mem_zip hstep).1

end SharedReplies

/-- Two runs that share the commands of the users reply alike to them. -/
theorem Reference.Alike.run {r r' : Reference} (h : r.Alike r') {commands commands' : List Command}
    (hsame : commands.filter Command.isShared = commands'.filter Command.isShared) :
    List.Forall₂ (fun a b => a.1 = b.1 ∧ a.1.Agrees (r.scoreMode = r'.scoreMode) a.2 b.2)
      (sharedReplies commands (r.run commands).1) (sharedReplies commands' (r'.run commands').1) := by
  induction commands generalizing r r' commands' with
  | nil =>
    rw [sharedReplies_eq_nil _ hsame.symm]
    exact List.Forall₂.nil
  | cons command rest ih =>
    rw [Reference.run_cons]
    cases hshared : command.isShared with
    | false =>
      rw [List.filter_cons_of_neg (by rw [hshared]; decide)] at hsame
      have hrest := ih ((r.alike_perform_of_not_shared hshared).symm.trans h) hsame
      rw [scoreMode_perform] at hrest
      rw [sharedReplies_cons_of_not_shared _ _ _ hshared]
      exact hrest
    | true =>
      rw [List.filter_cons_of_pos hshared] at hsame
      -- the other run may have to pass commands of its own before it comes to this one
      induction commands' generalizing r' with
      | nil => cases hsame
      | cons command' rest' ih' =>
        rw [Reference.run_cons]
        cases hshared' : command'.isShared with
        | false =>
          rw [List.filter_cons_of_neg (by rw [hshared']; decide)] at hsame
          have hrest := ih' (h.trans (r'.alike_perform_of_not_shared hshared')) hsame
          rw [scoreMode_perform] at hrest
          rw [sharedReplies_cons_of_not_shared _ _ _ hshared']
          exact hrest
        | true =>
          rw [List.filter_cons_of_pos hshared', List.cons.injEq] at hsame
          obtain ⟨rfl, hsame⟩ := hsame
          have hrest := ih (h.perform hshared) hsame
          rw [scoreMode_perform, scoreMode_perform] at hrest
          rw [sharedReplies_cons_of_shared _ _ _ hshared, sharedReplies_cons_of_shared _ _ _ hshared]
          exact List.Forall₂.cons ⟨rfl, h.agrees hshared⟩ hrest

/-! ### Stores -/

theorem Reply.eq_of_unleveled_eq {a b : Reply} (h : a.unleveled = b)
    (hstats : ∀ snapshot, b ≠ .stats snapshot) : a = b := by
  cases a with
  | stats snapshot => exact absurd h.symm (hstats _)
  | _ => exact h

theorem Reference.perform_ne_stats (r : Reference) {command : Command}
    (h : command.isShared = true) (snapshot : Stats) :
    (r.perform command).1 ≠ .stats snapshot := by
  cases command with
  | setWithTtl key value ttl =>
    show Reply.ofOutcome (r.setWithTtl key value ttl).1 ≠ .stats snapshot
    cases (r.setWithTtl key value ttl).1 <;> simp [Reply.ofOutcome]
  | expire key ttl =>
    show Reply.ofOutcome (r.expire key ttl).1 ≠ .stats snapshot
    cases (r.expire key ttl).1 <;> simp [Reply.ofOutcome]
  | removeExpired | runBackground | close | length | isEmpty | stats | isClosed => cases h
  | _ => exact Reply.noConfusion

theorem sharedReplies_of_unleveled {r : Reference} {commands : List Command} {replies : List Reply}
    (h : replies.map Reply.unleveled = (r.run commands).1) :
    sharedReplies commands replies = sharedReplies commands (r.run commands).1 := by
  induction commands generalizing r replies with
  | nil => rfl
  | cons command rest ih =>
    rw [Reference.run_cons] at h ⊢
    obtain ⟨reply, replies, rfl, hreply, hreplies⟩ := List.map_eq_cons_iff.1 h
    have hrest := ih hreplies
    cases hshared : command.isShared with
    | false =>
      rw [sharedReplies_cons_of_not_shared _ _ _ hshared,
        sharedReplies_cons_of_not_shared _ _ _ hshared, hrest]
    | true =>
      have heq := Reply.eq_of_unleveled_eq hreply (r.perform_ne_stats hshared)
      rw [sharedReplies_cons_of_shared _ _ _ hshared, sharedReplies_cons_of_shared _ _ _ hshared,
        hrest, heq]

/-- Whatever their settings and their heights are, and whatever removes expired entries in between,
two stores that are given the same commands by their users at the same times reply alike. -/
theorem removal_invisible {γ γ' : Type} [WordSource γ] [WordSource γ'] {config config' : Config}
    (hvalid : config.check = .ok ()) (hvalid' : config'.check = .ok ()) (source : γ) (source' : γ')
    {commands commands' : List Command}
    (hsame : commands.filter Command.isShared = commands'.filter Command.isShared) :
    ∃ s s' replies replies' t t',
      Store.create .present config source = .ok (.ok s) ∧
      Store.create .present config' source' = .ok (.ok s') ∧
      s.run commands = .ok (replies, t) ∧ s'.run commands' = .ok (replies', t') ∧
      List.Forall₂
        (fun a b => a.1 = b.1 ∧ a.1.Agrees (config.scoreMode = config'.scoreMode) a.2 b.2)
        (sharedReplies commands replies) (sharedReplies commands' replies') := by
  obtain ⟨s, hcreate, hshows⟩ := Store.shows_create hvalid source
  obtain ⟨s', hcreate', hshows'⟩ := Store.shows_create hvalid' source'
  obtain ⟨replies, t, hrun, hreplies, -⟩ := hshows.run commands
  obtain ⟨replies', t', hrun', hreplies', -⟩ := hshows'.run commands'
  refine ⟨s, s', replies, replies', t, t', hcreate, hcreate', hrun, hrun', ?_⟩
  rw [sharedReplies_of_unleveled hreplies, sharedReplies_of_unleveled hreplies']
  have halike : (Reference.create config).Alike (Reference.create config') := ⟨rfl, rfl⟩
  exact halike.run hsame

theorem removal_invisible_swept_and_not :
    Config.check {} = .ok () ∧
      Config.check { scoreMode := .ordered, eviction := .immediate, ceiling := 1 } = .ok () ∧
      ∃ s s' replies replies' t t',
        Store.create .present {} (Xoshiro.ofSeed 1) = .ok (.ok s) ∧
        Store.create .present { scoreMode := .ordered, eviction := .immediate, ceiling := 1 }
          (Xoshiro.ofSeed 2) = .ok (.ok s') ∧
        s.run [.setWithTtl [97] [1] 5, .advance 5, .removeExpired, .get [97], .keys] =
          .ok (replies, t) ∧
        s'.run [.setWithTtl [97] [1] 5, .close, .advance 5, .get [97], .keys, .runBackground] =
          .ok (replies', t') ∧
        List.Forall₂ (fun a b => a.1 = b.1 ∧ a.1.Agrees (ScoreMode.hashed = .ordered) a.2 b.2)
          (sharedReplies [.setWithTtl [97] [1] 5, .advance 5, .removeExpired, .get [97], .keys]
            replies)
          (sharedReplies
            [.setWithTtl [97] [1] 5, .close, .advance 5, .get [97], .keys, .runBackground]
            replies') :=
  ⟨by decide, by decide,
    removal_invisible (by decide) (by decide) (Xoshiro.ofSeed 1) (Xoshiro.ofSeed 2) (by decide)⟩

end ExpiringStore
