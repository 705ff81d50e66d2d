import ExpiringStore.Proofs.Events
import ExpiringStore.Proofs.Levels

/-!
# Nothing goes wrong

An operation on a skip list stops with a fault where it meets an empty slot, a level without a link, a
predecessor that does not lead to the element it should lead to, or a count that it cannot lower. No
operation on a list that was made by such operations meets one, and no event does in a store. The
predecessors that an operation collects fit a table of `maxCeiling` places.

## Main definitions

* `SkipList.Inquiry`, `SkipList.Operation`: what can be asked of a list, and what can be done with it.
* `SkipList.operate`, `SkipList.operateAll`: the operations, without their answers.
* `SkipList.Bounded`: how many levels there are to collect predecessors for.
-/

namespace ExpiringStore

namespace SkipList

open Tower

variable {γ : Type} {l : SkipList γ} {ts : List Tower}

/-! ### Operations as data -/

inductive Inquiry where
  | search (p : Position)
  | range (least greatest : Score) (limit : Nat)
  | first
  | last
  /-- A cursor over the list, and what is requested of it. -/
  | iterate (requests : List Cursor.Take)
  | iterateFrom (p : Position) (requests : List Cursor.Take)
  | levelCounts
  | drawing
  deriving DecidableEq, Repr

inductive Operation where
  | edit (edit : Edit)
  | inquire (inquiry : Inquiry)
  deriving DecidableEq, Repr

def inquire (l : SkipList γ) : Inquiry → Checked Unit
  | .search p => do let _ ← l.search p
  | .range least greatest limit => do let _ ← l.range least greatest limit
  | .first => do let _ ← l.first
  | .last => do let _ ← l.last
  | .iterate requests => do let _ ← (← l.cursor).takes l requests
  | .iterateFrom p requests => do let _ ← (← l.cursorFrom p).takes l requests
  | .levelCounts => do let _ ← l.levelCounts
  | .drawing => do let _ ← l.drawing

def operate [WordSource γ] (l : SkipList γ) : Operation → Checked (SkipList γ)
  | .edit edit => l.apply edit
  | .inquire inquiry => do
    l.inquire inquiry
    return l

def operateAll [WordSource γ] (l : SkipList γ) (operations : List Operation) :
    Checked (SkipList γ) :=
  operations.foldlM operate l

/-! ### Answers -/

namespace Layout

theorem exists_search (h : l.Layout ts) (p : Position) : ∃ e?, l.search p = .ok e? := by
  by_cases htaken : p ∈ ts.map position
  · obtain ⟨before, t, after, hsplit, rfl⟩ := exists_split_of_mem htaken
    exact ⟨_, h.search_eq_some hsplit⟩
  · exact ⟨none, h.search_eq_none (absent_of_not_mem htaken)⟩

theorem inquire_eq (h : l.Layout ts) (inquiry : Inquiry) : l.inquire inquiry = .ok () := by
  cases inquiry with
  | search p =>
    obtain ⟨e?, hsearch⟩ := h.exists_search p
    rw [inquire, hsearch, Checked.ok_bind]
    rfl
  | range least greatest limit =>
    rw [inquire, h.range_eq, Checked.ok_bind]
    rfl
  | first =>
    rw [inquire, h.first_eq, Checked.ok_bind]
    rfl
  | last =>
    rw [inquire, h.last_eq, Checked.ok_bind]
    rfl
  | iterate requests =>
    obtain ⟨c, hcursor, hspans⟩ := h.cursor_eq
    obtain ⟨c', htakes, -⟩ := h.takes_eq hspans requests
    rw [inquire, hcursor, Checked.ok_bind, htakes, Checked.ok_bind]
    rfl
  | iterateFrom p requests =>
    obtain ⟨c, hcursor, hspans⟩ := h.cursorFrom_eq p
    obtain ⟨c', htakes, -⟩ := h.takes_eq hspans requests
    rw [inquire, hcursor, Checked.ok_bind, htakes, Checked.ok_bind]
    rfl
  | levelCounts =>
    rw [inquire, h.levelCounts_eq, Checked.ok_bind]
    rfl
  | drawing =>
    rw [inquire, h.drawing_eq, Checked.ok_bind]
    rfl

/-! ### Runs of operations -/

theorem operate_inquire [WordSource γ] (h : l.Layout ts) (inquiry : Inquiry) :
    l.operate (.inquire inquiry) = .ok l := by
  rw [SkipList.operate, h.inquire_eq, Checked.ok_bind]
  rfl

theorem operate [WordSource γ] (h : l.Layout ts) (operation : Operation) :
    ∃ l' ts', l.operate operation = .ok l' ∧ l'.Layout ts' := by
  cases operation with
  | edit edit =>
    obtain ⟨l', happly, hlayout, -⟩ := h.apply edit
    exact ⟨l', _, happly, hlayout⟩
  | inquire inquiry => exact ⟨l, ts, h.operate_inquire inquiry, h⟩

theorem operateAll [WordSource γ] (h : l.Layout ts) (operations : List Operation) :
    ∃ l' ts', l.operateAll operations = .ok l' ∧ l'.Layout ts' := by
  induction operations generalizing l ts with
  | nil => exact ⟨l, ts, rfl, h⟩
  | cons operation rest ih =>
    obtain ⟨mid, ts₁, hoperate, hlayout⟩ := h.operate operation
    obtain ⟨l', ts', hall, hlayout'⟩ := ih hlayout
    refine ⟨l', ts', ?_, hlayout'⟩
    rw [SkipList.operateAll, List.foldlM_cons, hoperate, Checked.ok_bind]
    exact hall

end Layout

/-! ### The table of predecessors -/

/-- A table of `maxCeiling` predecessors has a place for every level that a descent goes down through,
for every level that an element of `l` is on, and for every level of the next element. -/
structure Bounded (l : SkipList γ) : Prop where
  one_le_level : 1 ≤ l.level
  level_le : l.level ≤ maxCeiling
  locate_length : ∀ p, ∃ found, l.locate p = .ok found ∧ found.length = l.level
  height_le : ∀ slot e, l.arena.get? slot = some e → 1 ≤ e.height ∧ e.height ≤ l.level
  heightOf_le : ∀ word, 1 ≤ heightOf word l.ceiling ∧ heightOf word l.ceiling ≤ maxCeiling

theorem Layout.bounded (h : l.Layout ts) : l.Bounded := by
  constructor
  case one_le_level => exact h.level_eq ▸ one_le_levels ts
  case level_le => exact Nat.le_trans h.level_le_ceiling h.ceiling_le
  case locate_length =>
    intro p
    refine ⟨_, h.locate_eq p, ?_⟩
    rw [List.length_map, List.length_range]
  case height_le =>
    intro slot e he
    obtain ⟨t, ht, rfl⟩ := h.occupied slot e he
    obtain ⟨before, after, -, hget⟩ := h.get?_of_mem ht
    rw [hget] at he
    cases he
    rw [height_element, h.level_eq]
    exact ⟨h.height_pos t ht, height_le_levels ht⟩
  case heightOf_le =>
    intro word
    exact ⟨one_le_heightOf word h.ceiling_pos,
      Nat.le_trans (heightOf_le_ceiling word l.ceiling) h.ceiling_le⟩

end SkipList

theorem Store.Shows.bounded {γ : Type} {s : Store γ} {r : Reference} (h : s.Shows r) :
    s.index.Bounded := by
  obtain ⟨ts, hlayout, -⟩ := h.index
  exact hlayout.bounded

/-- Opening a store ends with an error or with a store, whatever the configuration. -/
theorem Store.exists_create {γ : Type} (executor : Executor) (config : Config) (source : γ) :
    ∃ outcome, Store.create executor config source = .ok outcome ∧
      ∀ s, outcome = .ok s → ∃ r, s.Shows r := by
  cases executor with
  | absent => exact ⟨.error .noExecutor, rfl, fun _ h => nomatch h⟩
  | present =>
    cases hcheck : config.check with
    | error error =>
      refine ⟨.error (.config error), ?_, fun _ h => nomatch h⟩
      simp only [Store.create, hcheck]
      rfl
    | ok =>
      obtain ⟨s, hcreate, hshows⟩ := Store.shows_create hcheck source
      refine ⟨.ok s, hcreate, fun t ht => ?_⟩
      cases ht
      exact ⟨_, hshows⟩

/-- Under every ceiling that a list accepts, every series of operations runs without a fault, and so
does every series of events in a store, under every configuration that lets one be opened. -/
theorem no_fault {γ : Type} [WordSource γ] (source : γ) :
    (∀ ceiling, 1 ≤ ceiling → ceiling ≤ maxCeiling → ∀ operations, ∃ l,
      (SkipList.create ceiling source >>= fun l => l.operateAll operations) = .ok l ∧
        l.Bounded) ∧
    ∀ executor config, ∃ outcome, Store.create executor config source = .ok outcome ∧
      ∀ s, outcome = .ok s → ∀ events, ∃ t, s.handleAll events = .ok t ∧ t.index.Bounded := by
  constructor
  · intro ceiling hpos hle operations
    obtain ⟨empty, hcreate, hlayout, -⟩ := SkipList.layout_create hpos hle source
    obtain ⟨l, ts, hall, hlayout'⟩ := hlayout.operateAll operations
    refine ⟨l, ?_, hlayout'.bounded⟩
    rw [hcreate, Checked.ok_bind, hall]
  · intro executor config
    obtain ⟨outcome, hcreate, hopened⟩ := Store.exists_create executor config source
    refine ⟨outcome, hcreate, fun s hs events => ?_⟩
    obtain ⟨r, hshows⟩ := hopened s hs
    obtain ⟨t, r', hall, hshows', -⟩ := hshows.handleAll events
    exact ⟨t, hall, hshows'.bounded⟩

theorem no_fault_under_the_highest_ceiling :
    (∃ l, (SkipList.create 64 (Xoshiro.ofSeed 7) >>= fun l => l.operateAll
        [.edit (.insert [97] [1] 5), .edit (.insert [98] [2] 5), .inquire (.range 0 9 1),
          .edit (.delete [97] 5), .inquire (.iterate [.one .back, .all .front]),
          .edit (.insert [99] [3] 4), .inquire .drawing, .edit .clear, .inquire .levelCounts]) =
        .ok l ∧ l.Bounded) ∧
      ∃ s t, Store.create .present { ceiling := 64 } (Xoshiro.ofSeed 7) = .ok (.ok s) ∧
        s.handleAll
          [.command (.setWithTtl [97] [1] 5), .command (.advance 5), .command (.get [97]),
            .queued 0, .sweep [[97]]] = .ok t ∧ t.index.Bounded := by
  obtain ⟨hlists, hstores⟩ := no_fault (Xoshiro.ofSeed 7)
  refine ⟨hlists 64 (by decide) (by decide) _, ?_⟩
  obtain ⟨outcome, hcreate, hruns⟩ := hstores .present { ceiling := 64 }
  have hvalid : Config.check { ceiling := 64 } = .ok () := by decide
  obtain ⟨s, hopened, -⟩ := Store.shows_create hvalid (Xoshiro.ofSeed 7)
  obtain rfl : outcome = .ok s := Except.ok.inj (hcreate.symm.trans hopened)
  obtain ⟨t, hall, hbounded⟩ := hruns s rfl
    [.command (.setWithTtl [97] [1] 5), .command (.advance 5), .command (.get [97]), .queued 0,
      .sweep [[97]]]
  exact ⟨s, t, hcreate, hall, hbounded⟩

end ExpiringStore
