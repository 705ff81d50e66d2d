import ExpiringStore.Proofs.Visibility
import ExpiringStore.Ranking

/-!
# Standings

A ranking reads every ranked key once and shows the records among the values. The records come out of
the index in its order, and a stable sort by score keeps that order among equal scores. So the
ranking is determined by the values of the keys alone, however they came into the store.

## Main definitions

* `Ranking.standings`: the records of a list of entries, each with its key, as a ranking shows them.
* `Bytes.IsRanked`: whether a key is one of those that a ranking looks at.
* `Store.Ranks`: what a ranking of a store shows, what it reads and what it changes.
* `finalValue?`: the value that a list of writes leaves under a key.
-/

namespace ExpiringStore

/-! ### Stable sorting -/

/-- A sort by `le` keeps the order of the list among elements that `le` does not tell apart. -/
theorem pairwise_mergeSort_of_pairwise {α : Type} {le : α → α → Bool} {R : α → α → Prop}
    (htrans : ∀ a b c, le a b → le b c → le a c) (htotal : ∀ a b, le a b || le b a) {xs : List α}
    (hxs : xs.Pairwise R) : (xs.mergeSort le).Pairwise fun a b => le b a → R a b := by
  induction xs with
  | nil => simp
  | cons a xs ih =>
    obtain ⟨ha, hxs⟩ := List.pairwise_cons.1 hxs
    -- what has passed `a` is strictly smaller, so the new pairs are those of `a` with what follows
    obtain ⟨before, after, hcons, hsort, hless⟩ := List.mergeSort_cons htrans htotal a xs
    have hsplit := ih hxs
    rw [hsort, List.pairwise_append] at hsplit
    obtain ⟨hbefore, hafter, hacross⟩ := hsplit
    rw [hcons, List.pairwise_append, List.pairwise_cons]
    have hmem : ∀ b ∈ after, b ∈ xs := fun b hb =>
      List.mem_mergeSort.1 (hsort ▸ List.mem_append_right before hb)
    refine ⟨hbefore, ⟨fun b hb _ => ha b (hmem b hb), hafter⟩, fun b hb c hc hle => ?_⟩
    rcases List.mem_cons.1 hc with rfl | hc
    · have hnot := hless b hb
      rw [hle] at hnot
      cases hnot
    · exact hacross b hb c hc hle

/-! ### The standings of a list of entries -/

namespace Ranking

def readable (bs : List (Bytes × Bytes)) : List (Bytes × Record) :=
  bs.filterMap fun b => (Record.decode? b.2).map fun record => (b.1, record)

/-- Whether a record may stand before another one, each with its key. -/
def mayPrecede (a b : Bytes × Record) : Bool := b.2.score ≤ a.2.score

/-- The records among the entries with their keys, by descending score. -/
def standings (bs : List (Bytes × Bytes)) : List (Bytes × Record) :=
  (readable bs).mergeSort mayPrecede

variable {bs : List (Bytes × Bytes)}

theorem mayPrecede_trans (a b c : Bytes × Record) (hab : mayPrecede a b) (hbc : mayPrecede b c) :
    mayPrecede a c := by
  simp only [mayPrecede, decide_eq_true_iff] at hab hbc ⊢
  exact UInt32.le_trans hbc hab

theorem mayPrecede_total (a b : Bytes × Record) : mayPrecede a b || mayPrecede b a := by
  simp only [mayPrecede, Bool.or_eq_true, decide_eq_true_iff]
  exact UInt32.le_total b.2.score a.2.score

theorem mem_readable {key : Bytes} {record : Record} :
    (key, record) ∈ readable bs ↔
      ∃ value, (key, value) ∈ bs ∧ Record.decode? value = some record := by
  simp only [readable, List.mem_filterMap, Option.map_eq_some_iff, Prod.exists, Prod.mk.injEq]
  constructor
  · rintro ⟨_, value, hmem, _, hdecode, rfl, rfl⟩
    exact ⟨value, hmem, hdecode⟩
  · rintro ⟨value, hmem, hdecode⟩
    exact ⟨key, value, hmem, record, hdecode, rfl, rfl⟩

theorem map_snd_readable :
    (readable bs).map Prod.snd = bs.filterMap fun b => Record.decode? b.2 := by
  rw [readable, List.map_filterMap]
  simp [Function.comp_def]

theorem sorted_eq :
    sorted (bs.filterMap fun b => Record.decode? b.2) = (standings bs).map Prod.snd := by
  rw [standings, List.map_mergeSort (s := fun a b => b.score ≤ a.score), map_snd_readable, sorted]
  exact fun _ _ _ _ => rfl

theorem line_eq (rank : Nat) (r : Record) :
    line rank r = "  #" ++ toString rank ++ ": " ++ r.name ++ " - " ++ toString r.score.toNat := by
  simp only [line, String.join_cons, String.join_nil, String.append_empty, String.append_assoc]

theorem lines_eq : lines (bs.filterMap fun b => Record.decode? b.2) =
    "Leaderboard (highest first):" :: (standings bs).mapIdx fun i b =>
      "  #" ++ toString (i + 1) ++ ": " ++ b.2.name ++ " - " ++ toString b.2.score.toNat := by
  rw [lines, sorted_eq]
  congr 1
  rw [List.mapIdx_eq_iff]
  intro i
  simp only [List.getElem?_mapIdx, List.getElem?_map, Option.map_map, ← line_eq]
  rfl

theorem mem_standings {key : Bytes} {record : Record} :
    (key, record) ∈ standings bs ↔
      ∃ value, (key, value) ∈ bs ∧ Record.decode? value = some record := by
  rw [standings, List.mem_mergeSort, mem_readable]

theorem pairwise_readable {R : Bytes → Bytes → Prop} (hbs : bs.Pairwise fun a b => R a.1 b.1) :
    (readable bs).Pairwise fun a b => R a.1 b.1 := by
  refine hbs.filterMap _ fun a b hab c hc d hd => ?_
  obtain ⟨_, -, rfl⟩ := Option.map_eq_some_iff.1 hc
  obtain ⟨_, -, rfl⟩ := Option.map_eq_some_iff.1 hd
  exact hab

theorem pairwise_standings {R : Bytes → Bytes → Prop} (hbs : bs.Pairwise fun a b => R a.1 b.1) :
    (standings bs).Pairwise fun a b =>
      b.2.score < a.2.score ∨ a.2.score = b.2.score ∧ R a.1 b.1 := by
  have hsorted := List.pairwise_mergeSort mayPrecede_trans mayPrecede_total (readable bs)
  have hstable := pairwise_mergeSort_of_pairwise mayPrecede_trans mayPrecede_total
    (pairwise_readable hbs)
  refine (hsorted.and hstable).imp fun {a b} ⟨hle, hties⟩ => ?_
  simp only [mayPrecede, decide_eq_true_iff] at hle hties
  rcases UInt32.lt_or_eq_of_le hle with hlt | heq
  · exact .inl hlt
  · exact .inr ⟨heq.symm, hties (UInt32.le_of_eq heq.symm)⟩

theorem nodup_standings (hbs : bs.Pairwise fun a b => a.1 ≠ b.1) :
    ((standings bs).map Prod.fst).Nodup := by
  have hperm := (List.mergeSort_perm (readable bs) mayPrecede).map Prod.fst
  exact hperm.nodup_iff.2 (List.pairwise_map.2 (pairwise_readable hbs))

end Ranking

/-! ### Reading keys that hold values -/

namespace Store

variable {γ : Type} {s : Store γ}

/-- Readers see this value under the key. -/
def Holds (s : Store γ) (key value : Bytes) : Prop :=
  s.isLive key = true ∧ ∃ e, s.entry? key = .ok (some e) ∧ e.value = value

theorem get_of_holds {key value : Bytes} (h : s.Holds key value) :
    s.get key = .ok (some value, { s with tally.gets := s.tally.gets + 1 }) := by
  obtain ⟨hlive, e, hentry, rfl⟩ := h
  have hlive' : isLive { s with tally.gets := s.tally.gets + 1 } key = true := hlive
  have hentry' : entry? { s with tally.gets := s.tally.gets + 1 } key = .ok (some e) := hentry
  simp only [get, hlive', ↓reduceIte, hentry', Checked.ok_bind]
  rfl

/-- Reading keys that hold values changes nothing but the count of reads. -/
theorem getAll_of_holds {bs : List (Bytes × Bytes)} (h : ∀ b ∈ bs, s.Holds b.1 b.2) :
    s.getAll (bs.map Prod.fst) =
      .ok (bs.map fun b => some b.2, { s with tally.gets := s.tally.gets + bs.length }) := by
  induction bs generalizing s with
  | nil => rfl
  | cons b bs ih =>
    have hrest : ∀ c ∈ bs, Holds { s with tally.gets := s.tally.gets + 1 } c.1 c.2 :=
      fun c hc => h c (List.mem_cons_of_mem b hc)
    simp only [List.map_cons, getAll, get_of_holds (h b List.mem_cons_self), Checked.ok_bind,
      ih hrest, List.length_cons, Nat.add_assoc, Nat.add_comm 1]
    rfl

/-- The reads of a list of keys are the commands that read them, one after the other. -/
theorem run_get [WordSource γ] (s : Store γ) (keys : List Bytes) :
    s.run (keys.map .get) = do
      let (values, s) ← s.getAll keys
      return (values.map .value, s) := by
  induction keys generalizing s with
  | nil => rfl
  | cons key keys ih =>
    simp only [List.map_cons, run_cons, perform, getAll, ih, bind_assoc, pure_bind]

end Store

/-- The key starts with the bytes of `player:`. -/
def Bytes.IsRanked (key : Bytes) : Prop := [112, 108, 97, 121, 101, 114, 58] <+: key

instance (key : Bytes) : Decidable key.IsRanked :=
  inferInstanceAs (Decidable ([112, 108, 97, 121, 101, 114, 58] <+: key))

theorem Ranking.stem_prefix_iff {key : Bytes} : stem <+: key ↔ key.IsRanked := by
  have hstem : stem = [112, 108, 97, 121, 101, 114, 58] := by decide
  rw [hstem, Bytes.IsRanked]

namespace Reference

/-- The live entries under ranked keys, in the order of the index. -/
def contenders (r : Reference) : List (Bytes × Bytes) :=
  r.listing.filter fun b => Ranking.stem.isPrefixOf b.1

theorem mem_contenders {r : Reference} {b : Bytes × Bytes} :
    b ∈ r.contenders ↔ b.1.IsRanked ∧ r.live[b.1]?.map Entry.value = some b.2 := by
  rw [contenders, List.mem_filter, mem_listing, List.isPrefixOf_iff_prefix, And.comm,
    Ranking.stem_prefix_iff]

end Reference

namespace Store

variable {γ : Type} {s : Store γ} {r : Reference}

/-- A ranking of `t` reads the keys `read`, which leads to the store `u`, and shows the records among
the values `value?` of ranked keys as `standings`, each with its key. -/
structure Ranks [WordSource γ] (t u : Store γ) (value? : Bytes → Option Bytes)
    (standings : List (Bytes × Record)) (read : List Bytes) : Prop where
  ranking_eq : t.ranking = .ok ("Leaderboard (highest first):" :: standings.mapIdx fun i b =>
    "  #" ++ toString (i + 1) ++ ": " ++ b.2.name ++ " - " ++ toString b.2.score.toNat, u)
  nodup : (standings.map Prod.fst).Nodup
  mem_iff : ∀ (key : Bytes) record, (key, record) ∈ standings ↔
    key.IsRanked ∧ (value? key).bind Record.decode? = some record
  sorted : standings.Pairwise fun a b => b.2.score < a.2.score ∨
    a.2.score = b.2.score ∧ t.scoreMode.position a.1 < t.scoreMode.position b.1
  run_get : t.run (read.map .get) = .ok (read.map fun key => .value (value? key), u)
  nodup_read : read.Nodup
  mem_read_iff : ∀ key : Bytes, key ∈ read ↔ key.IsRanked ∧ (value? key).isSome
  reads_only : u = { t with tally.gets := t.tally.gets + read.length }

/-- A ranking shows the one list that has the right records in the right order. -/
theorem Ranks.eq_standings [WordSource γ] {t u : Store γ} {value? : Bytes → Option Bytes}
    {standings others : List (Bytes × Record)} {read : List Bytes}
    (h : t.Ranks u value? standings read)
    (hsorted : others.Pairwise fun a b => b.2.score < a.2.score ∨
      a.2.score = b.2.score ∧ t.scoreMode.position a.1 < t.scoreMode.position b.1)
    (hmem : ∀ (key : Bytes) record, (key, record) ∈ others ↔
      key.IsRanked ∧ (value? key).bind Record.decode? = some record) : standings = others := by
  have hirrefl : Std.Irrefl fun a b : Bytes × Record => b.2.score < a.2.score ∨
      a.2.score = b.2.score ∧ t.scoreMode.position a.1 < t.scoreMode.position b.1 := by
    refine ⟨fun a => ?_⟩
    rintro (hlt | ⟨-, hlt⟩)
    · exact UInt32.lt_irrefl _ hlt
    · exact Position.lt_irrefl _ hlt
  have hantisymm : Std.Antisymm fun a b : Bytes × Record => b.2.score < a.2.score ∨
      a.2.score = b.2.score ∧ t.scoreMode.position a.1 < t.scoreMode.position b.1 := by
    refine ⟨fun a b => ?_⟩
    rintro (hab | ⟨heq, hab⟩) (hba | ⟨heq', hba⟩)
    · exact absurd hba (UInt32.lt_asymm hab)
    · exact absurd hab (heq' ▸ UInt32.lt_irrefl _)
    · exact absurd hba (heq ▸ UInt32.lt_irrefl _)
    · exact absurd hba (Position.lt_asymm hab)
  refine h.sorted.eq_of_mem_iff hsorted fun b => ?_
  rw [h.mem_iff b.1 b.2, hmem b.1 b.2]

/-- Stores that hold the same values show the same standings, however the values came into them. -/
theorem Ranks.standings_eq [WordSource γ] {t u t' u' : Store γ} {value? : Bytes → Option Bytes}
    {standings standings' : List (Bytes × Record)} {read read' : List Bytes}
    (h : t.Ranks u value? standings read) (h' : t'.Ranks u' value? standings' read')
    (hmode : t.scoreMode = t'.scoreMode) : standings = standings' :=
  h.eq_standings (hmode ▸ h'.sorted) h'.mem_iff

namespace Shows

theorem holds_of_mem_listing (h : s.Shows r) {b : Bytes × Bytes} (hb : b ∈ r.listing) :
    s.Holds b.1 b.2 := by
  obtain ⟨e, hlive, hvalue⟩ := Option.map_eq_some_iff.1 (Reference.mem_listing.1 hb)
  rw [Reference.getElem?_live, Option.filter_eq_some_iff] at hlive
  obtain ⟨hget, hlive⟩ := hlive
  obtain ⟨found, hentry, hfound⟩ := h.entry?_eq b.1
  rw [hget, Option.map_some, hvalue, Option.map_eq_some_iff] at hfound
  obtain ⟨e', rfl, hvalue'⟩ := hfound
  refine ⟨?_, e', hentry, hvalue'⟩
  rw [h.isLive_eq, hget, Option.all_some, hlive]

theorem getAll_contenders (h : s.Shows r) :
    s.getAll (r.contenders.map Prod.fst) =
      .ok (r.contenders.map fun b => some b.2,
        { s with tally.gets := s.tally.gets + r.contenders.length }) :=
  getAll_of_holds fun _ hb => h.holds_of_mem_listing (List.mem_filter.1 hb).1

theorem rankedRecords (h : s.Shows r) :
    s.rankedRecords = .ok (r.contenders.filterMap fun b => Record.decode? b.2,
      { s with tally.gets := s.tally.gets + r.contenders.length }) := by
  have hkeys : (r.listing.map Prod.fst).filter (fun key => Ranking.stem.isPrefixOf key) =
      r.contenders.map Prod.fst := by
    rw [List.filter_map]
    rfl
  simp only [Store.rankedRecords, h.keys, Checked.ok_bind, hkeys, h.getAll_contenders,
    List.filterMap_map]
  rfl

theorem ranking (h : s.Shows r) :
    s.ranking = .ok ("Leaderboard (highest first):" ::
        (Ranking.standings r.contenders).mapIdx fun i b =>
          "  #" ++ toString (i + 1) ++ ": " ++ b.2.name ++ " - " ++ toString b.2.score.toNat,
      { s with tally.gets := s.tally.gets + r.contenders.length }) := by
  simp only [Store.ranking, h.rankedRecords, Checked.ok_bind, Ranking.lines_eq]
  rfl

theorem ranks [WordSource γ] (h : s.Shows r) :
    s.Ranks { s with tally.gets := s.tally.gets + r.contenders.length }
      (fun key => r.live[key]?.map Entry.value) (Ranking.standings r.contenders)
      (r.contenders.map Prod.fst) := by
  have hdistinct : r.contenders.Pairwise fun a b => a.1 ≠ b.1 := r.pairwise_ne_listing.filter _
  constructor
  case ranking_eq => exact h.ranking
  case nodup => exact Ranking.nodup_standings hdistinct
  case mem_iff =>
    intro key record
    simp only [Ranking.mem_standings, Reference.mem_contenders, Option.bind_eq_some_iff, and_assoc,
      exists_and_left]
  case sorted =>
    rw [h.scoreMode_eq]
    exact Ranking.pairwise_standings
      (R := fun a b => r.scoreMode.position a < r.scoreMode.position b) (r.pairwise_listing.filter _)
  case run_get =>
    have hvalues : (r.contenders.map fun b => some b.2).map Reply.value =
        (r.contenders.map Prod.fst).map fun key => .value (r.live[key]?.map Entry.value) := by
      rw [List.map_map, List.map_map]
      exact List.map_congr_left fun b hb =>
        congrArg Reply.value (Reference.mem_contenders.1 hb).2.symm
    rw [Store.run_get, h.getAll_contenders, ← hvalues]
    rfl
  case nodup_read => exact List.pairwise_map.2 hdistinct
  case mem_read_iff =>
    intro key
    simp only [List.mem_map, Reference.mem_contenders, Prod.exists, exists_and_right, exists_eq_right,
      Option.isSome_iff_exists, exists_and_left]
  case reads_only => rw [List.length_map]

end Shows

end Store

/-! ### Stores that are written key by key -/

/-- The value that writes, one after the other, leave under a key. -/
def finalValue? (writes : List (Bytes × Bytes)) (key : Bytes) : Option Bytes :=
  writes.reverse.lookup key

theorem finalValue?_cons (b : Bytes × Bytes) (writes : List (Bytes × Bytes)) (key : Bytes) :
    finalValue? (b :: writes) key =
      (finalValue? writes key).or (if key == b.1 then some b.2 else none) := by
  rw [finalValue?, List.reverse_cons, List.lookup_append, List.lookup_singleton]
  rfl

theorem isSome_finalValue? {writes : List (Bytes × Bytes)} {key : Bytes} :
    (finalValue? writes key).isSome ↔ key ∈ writes.map Prod.fst := by
  simp only [finalValue?, List.lookup_isSome_iff, List.mem_reverse, List.mem_map, beq_iff_eq]
  exact exists_congr fun b => and_congr_right' eq_comm

namespace Reference

theorem getElem?_foldl_insert (writes : List (Bytes × Bytes)) (entries : Entries) (key : Bytes) :
    (writes.foldl (fun entries b => entries.insert b.1 ⟨b.2, none⟩) entries)[key]? =
      ((finalValue? writes key).map fun value => ⟨value, none⟩).or entries[key]? := by
  induction writes generalizing entries with
  | nil => rfl
  | cons b writes ih =>
    rw [List.foldl_cons, ih, finalValue?_cons]
    by_cases hkey : key = b.1
    · subst hkey
      rw [Std.ExtTreeMap.getElem?_insert_self, if_pos BEq.rfl]
      cases finalValue? writes b.1 <;> rfl
    · rw [Entries.getElem?_insert_of_ne (Ne.symm hkey), if_neg (by simpa using hkey), Option.or_none]

theorem run_set (r : Reference) (writes : List (Bytes × Bytes)) :
    (r.run (writes.map fun b => .set b.1 b.2)).2 =
      { r with
        entries := writes.foldl (fun entries b => entries.insert b.1 ⟨b.2, none⟩) r.entries
        tally.sets := r.tally.sets + writes.length } := by
  induction writes generalizing r with
  | nil => rfl
  | cons b writes ih =>
    rw [List.map_cons, run_cons]
    refine (ih (r.perform (.set b.1 b.2)).2).trans ?_
    rw [List.length_cons, Nat.add_comm writes.length, ← Nat.add_assoc]
    rfl

theorem live_run_set (config : Config) (writes : List (Bytes × Bytes)) (key : Bytes) :
    (((create config).run (writes.map fun b => .set b.1 b.2)).2.live[key]?).map Entry.value =
      finalValue? writes key := by
  rw [run_set, getElem?_live, getElem?_foldl_insert]
  cases finalValue? writes key <;> rfl

end Reference

/-- Whatever is written, in whatever order, to a new store with a valid configuration, the ranking shows
the record that each ranked key holds in the end, if it holds one, the highest score first and equal
scores in the order of the index. It reads each ranked key once and does nothing else. -/
theorem ranking_is_complete_and_stable {γ : Type} [WordSource γ] {config : Config}
    (hvalid : config.check = .ok ()) (source : γ) (writes : List (Bytes × Bytes)) :
    ∃ s replies t u standings read, Store.create .present config source = .ok (.ok s) ∧
      s.run (writes.map fun b => .set b.1 b.2) = .ok (replies, t) ∧
      t.scoreMode = config.scoreMode ∧ t.tally.gets = 0 ∧
      t.Ranks u (finalValue? writes) standings read ∧
      ∀ key : Bytes, key ∈ read ↔ key.IsRanked ∧ key ∈ writes.map Prod.fst := by
  obtain ⟨s, hcreate, hshows⟩ := Store.shows_create hvalid source
  obtain ⟨replies, t, hrun, -, hshows'⟩ := hshows.run (writes.map fun b => .set b.1 b.2)
  have hranks := hshows'.ranks
  simp only [Reference.live_run_set] at hranks
  refine ⟨s, replies, t, _, _, _, hcreate, hrun, ?_, ?_, hranks, fun key => ?_⟩
  · rw [hshows'.scoreMode_eq, Reference.run_set]
    rfl
  · rw [hshows'.tally_eq, Reference.run_set]
    rfl
  · rw [hranks.mem_read_iff, isSome_finalValue?]

/-- The two records of equal score stand in the order of the index, not in that of the writes. -/
theorem ranking_is_complete_and_stable_with_an_overwritten_record :
    Config.check { scoreMode := .hashed, ceiling := 4 } = .ok () ∧
      ∃ writes : List (Bytes × Bytes),
        writes = [(Bytes.ofText "player:1", Bytes.ofText "Li|7"),
          (Bytes.ofText "player:2", Bytes.ofText "Wu|9"), (Bytes.ofText "other", Bytes.ofText "x|1"),
          (Bytes.ofText "player:3", Bytes.ofText "Sun"),
          (Bytes.ofText "player:4", Bytes.ofText "Han|12"),
          (Bytes.ofText "player:2", Bytes.ofText "Zhou|+07")] ∧
        ∃ s replies t u standings read,
          Store.create .present { scoreMode := .hashed, ceiling := 4 } (Xoshiro.ofSeed 3) =
            .ok (.ok s) ∧
          s.run (writes.map fun b => .set b.1 b.2) = .ok (replies, t) ∧
          t.Ranks u (finalValue? writes) standings read ∧
          t.ranking = .ok (["Leaderboard (highest first):", "  #1: Han - 12", "  #2: Zhou - 7",
            "  #3: Li - 7"], u) ∧
          Bytes.ofText "player:3" ∈ read := by
  have hvalid : Config.check { scoreMode := .hashed, ceiling := 4 } = .ok () := by decide
  obtain ⟨writes, hwrites⟩ : ∃ writes : List (Bytes × Bytes),
      writes = [(Bytes.ofText "player:1", Bytes.ofText "Li|7"),
        (Bytes.ofText "player:2", Bytes.ofText "Wu|9"), (Bytes.ofText "other", Bytes.ofText "x|1"),
        (Bytes.ofText "player:3", Bytes.ofText "Sun"),
        (Bytes.ofText "player:4", Bytes.ofText "Han|12"),
        (Bytes.ofText "player:2", Bytes.ofText "Zhou|+07")] := ⟨_, rfl⟩
  obtain ⟨s, replies, t, u, standings, read, hcreate, hrun, hmode, -, hranks, hread⟩ :=
    ranking_is_complete_and_stable hvalid (Xoshiro.ofSeed 3) writes
  have hstandings : standings = [(Bytes.ofText "player:4", ⟨"Han", 12⟩),
      (Bytes.ofText "player:2", ⟨"Zhou", 7⟩), (Bytes.ofText "player:1", ⟨"Li", 7⟩)] := by
    refine hranks.eq_standings ?_ fun key record => ⟨fun hmem => ?_, fun ⟨hranked, hrecord⟩ => ?_⟩
    · rw [hmode]
      decide +kernel
    · simp only [List.mem_cons, Prod.mk.injEq, List.not_mem_nil, or_false] at hmem
      rw [hwrites]
      rcases hmem with ⟨rfl, rfl⟩ | ⟨rfl, rfl⟩ | ⟨rfl, rfl⟩
      all_goals exact ⟨by decide, by decide⟩
    · -- only a key that was written holds a record
      obtain ⟨value, hvalue, -⟩ := Option.bind_eq_some_iff.1 hrecord
      have hkey := isSome_finalValue?.1 (Option.isSome_of_eq_some hvalue)
      have hrecords : ∀ key ∈ writes.map Prod.fst, key.IsRanked →
          ((finalValue? writes key).bind Record.decode?).all (fun record =>
            (key, record) ∈ [(Bytes.ofText "player:4", (⟨"Han", 12⟩ : Record)),
              (Bytes.ofText "player:2", ⟨"Zhou", 7⟩), (Bytes.ofText "player:1", ⟨"Li", 7⟩)]) := by
        rw [hwrites]
        decide
      have hshown := hrecords key hkey hranked
      rw [hrecord, Option.all_some, decide_eq_true_iff] at hshown
      exact hshown
  refine ⟨hvalid, writes, hwrites, s, replies, t, u, standings, read, hcreate, hrun, hranks, ?_,
    (hread _).2 ⟨by decide, by rw [hwrites]; decide⟩⟩
  rw [hranks.ranking_eq, hstandings]
  rfl

end ExpiringStore
