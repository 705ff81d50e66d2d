import ExpiringStore.Proofs.Events

/-!
# The two tables of a store agree

A store keeps its entries in an index and their deadlines in a table beside it. Whatever happens to
the store, no deadline outlives its entry, no key has two entries, and every entry stands at the score
of its key. The table therefore tells how many entries have expired.
-/

namespace ExpiringStore

/-- `es` are the elements in the index of `s`, and the table of deadlines is about some of them. -/
structure Store.Agrees {γ : Type} (s : Store γ) (es : List Element) : Prop where
  elements_eq : s.index.elements = .ok es
  nodup_keys : (es.map Element.key).Nodup
  score_eq : ∀ e ∈ es, e.score = s.scoreOf e.key
  mem_of_deadline : ∀ key ∈ s.deadlines, ∃ e ∈ es, e.key = key
  keysWithTtl_le : s.keysWithTtl ≤ s.length
  length_eq : ∃ live, s.liveCount = .ok live ∧
    s.length = live + (s.deadlines.filter fun _ deadline => decide (deadline ≤ s.now)).size

namespace Entries

variable {mode : ScoreMode} {entries : Entries} {es : List Element}

theorem exists_element_of_mem (hes : es.map Element.binding = (entries.contents mode).toList)
    {key : Bytes} (hkey : key ∈ entries) : ∃ e ∈ es, e.key = key := by
  obtain ⟨value, hvalue⟩ : ∃ value, entries[key]?.map Entry.value = some value := by
    rw [← Option.isSome_iff_exists, Option.isSome_map]
    exact Std.ExtTreeMap.mem_iff_isSome_getElem?.1 hkey
  obtain ⟨e, he, heq, -⟩ := (exists_element_iff hes).2 hvalue
  exact ⟨e, he, heq⟩

theorem mem_of_mem_deadlines {key : Bytes} (h : key ∈ entries.deadlines) : key ∈ entries := by
  rw [Std.ExtTreeMap.mem_iff_isSome_getElem?, getElem?_deadlines] at h
  rw [Std.ExtTreeMap.mem_iff_isSome_getElem?]
  exact Option.isSome_of_isSome_bind h

theorem size_deadlines_le (entries : Entries) : entries.deadlines.size ≤ entries.size := by
  rw [size_deadlines]
  exact Std.ExtTreeMap.size_filter_le_size

/-- The entries that are not live are those whose deadline has passed. -/
theorem size_filter_expired (entries : Entries) (now : Instant) :
    (entries.filter fun _ e => !e.liveAt now).size =
      (entries.deadlines.filter fun _ deadline => decide (deadline ≤ now)).size := by
  refine size_eq_of_mem_iff fun key => ?_
  rw [Std.ExtTreeMap.mem_iff_isSome_getElem?, Std.ExtTreeMap.mem_iff_isSome_getElem?,
    Std.ExtTreeMap.getElem?_filter', Std.ExtTreeMap.getElem?_filter', getElem?_deadlines]
  cases entries[key]? with
  | none => rfl
  | some e =>
    cases hdeadline : e.deadline? with
    | none => simp [Entry.liveAt, hdeadline, Option.filter]
    | some deadline => simp [Entry.liveAt, hdeadline, Option.filter]

end Entries

theorem Store.Shows.agrees {γ : Type} {s : Store γ} {r : Reference} (h : s.Shows r) :
    ∃ es, s.Agrees es := by
  obtain ⟨es, helements, hes⟩ := h.index.elements
  refine ⟨es, ?_⟩
  constructor
  case elements_eq => exact helements
  case nodup_keys => exact Entries.nodup_keys_of_contents hes
  case score_eq =>
    intro e he
    have hposition := Entries.position_of_mem hes he
    rw [Store.scoreOf, h.scoreMode_eq]
    exact congrArg Position.score hposition
  case mem_of_deadline =>
    intro key hkey
    rw [h.deadlines_eq] at hkey
    exact Entries.exists_element_of_mem hes (Entries.mem_of_mem_deadlines hkey)
  case keysWithTtl_le =>
    rw [Store.keysWithTtl, h.deadlines_eq, h.length_eq]
    exact Entries.size_deadlines_le r.entries
  case length_eq =>
    refine ⟨r.live.size, h.liveCount, ?_⟩
    rw [h.length_eq, h.deadlines_eq, h.now_eq, ← Entries.size_filter_expired]
    exact Entries.size_eq_size_filter_add r.entries fun _ e => e.liveAt r.now

/-- The index and the deadlines of a store with a valid configuration agree, whatever has happened to
it. -/
theorem tables_agree {γ : Type} [WordSource γ] {config : Config} (hvalid : config.check = .ok ())
    (source : γ) (events : List Event) :
    ∃ s t es, Store.create .present config source = .ok (.ok s) ∧ s.handleAll events = .ok t ∧
      t.scoreMode = config.scoreMode ∧ t.Agrees es := by
  obtain ⟨s, t, r, hcreate, hall, hshows, hsettings⟩ := Store.shows_handleAll hvalid source events
  obtain ⟨es, hagrees⟩ := hshows.agrees
  refine ⟨s, t, es, hcreate, hall, ?_, hagrees⟩
  rw [hshows.scoreMode_eq]
  exact congrArg Prod.fst hsettings

theorem tables_agree_after_refusal :
    Config.check { scoreMode := .ordered, eviction := .immediate, ceiling := 2 } = .ok () ∧
      ∃ s t es,
        Store.create .present { scoreMode := .ordered, eviction := .immediate, ceiling := 2 }
          (Xoshiro.ofSeed 3) = .ok (.ok s) ∧
        s.handleAll
          [.command (.setWithTtl [97] [1] 5), .command (.setWithTtl [97] [2] 0),
            .command (.expire [98] 0), .command (.set [98] [2]), .command (.advance 5),
            .sweep [[97], [98]], .queued 0, .command (.setWithTtl [97] [3] 4)] = .ok t ∧
        t.scoreMode = .ordered ∧ t.Agrees es :=
  ⟨by decide, tables_agree (by decide) (Xoshiro.ofSeed 3) _⟩

end ExpiringStore
