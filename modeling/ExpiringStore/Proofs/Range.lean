import ExpiringStore.Proofs.History
import ExpiringStore.Proofs.SortedMap
import ExpiringStore.Random.Xoshiro

/-!
# Intervals of scores

The elements whose score is in an interval stand together in a skip list. No key is smaller than the
empty one, so a search for the least score with the empty key leads to the first of them. A walk from
there can stop at the first score that is too great, or once it has found as many elements as were
asked for, and it misses nothing.

## Main definitions

* `SkipList.inside`: the elements with a score in an interval.
* `SkipList.gather`, `SkipList.gatherRange`: the walk that stops as soon as it can.
-/

namespace ExpiringStore.SkipList

open Tower

variable {γ : Type} {l : SkipList γ} {ts : List Tower}

def inside (least greatest : Score) (es : List Element) : List Element :=
  es.filter fun e => decide (least ≤ e.score) && decide (e.score ≤ greatest)

/-! ### Where an interval starts and ends -/

/-- From the position of the empty key on, all elements with at least that score follow. -/
theorem not_lt_start_iff (least : Score) (e : Element) :
    (!decide (e.position < ⟨least, []⟩)) = decide (least ≤ e.score) := by
  have hkey : ¬ e.key < [] := List.not_lt_nil _
  simp only [Position.lt_iff, Element.position, hkey, and_false, or_false]
  rw [← decide_not, decide_eq_decide, UInt64.not_lt]

/-- In front of an element with a score that is not too great there is none with a score that is. -/
theorem pairwise_score_le {es : List Element}
    (hsorted : es.Pairwise fun d e => d.position < e.position) (greatest : Score) :
    es.Pairwise fun d e =>
      decide (e.score ≤ greatest) = true → decide (d.score ≤ greatest) = true := by
  refine hsorted.imp fun {d e} hlt he => ?_
  simp only [decide_eq_true_eq] at he ⊢
  rcases hlt with hlt | ⟨heq, -⟩
  · exact UInt64.le_of_lt (UInt64.lt_of_lt_of_le hlt he)
  · have hscore : d.score = e.score := heq
    rw [hscore]
    exact he

theorem inside_eq_nil {least greatest : Score} (h : greatest < least) (es : List Element) :
    inside least greatest es = [] := by
  refine List.filter_eq_nil_iff.2 fun e _ hinside => ?_
  simp only [Bool.and_eq_true, decide_eq_true_eq] at hinside
  exact UInt64.lt_irrefl _ (UInt64.lt_of_lt_of_le h (UInt64.le_trans hinside.1 hinside.2))

theorem capped_eq_self {α : Type} {limit : Nat} {xs : List α}
    (h : limit = 0 ∨ xs.length ≤ limit) : capped limit xs = xs := by
  unfold capped
  split
  next => rfl
  next hlimit => exact List.take_of_length_le (h.resolve_left hlimit)

theorem capped_append_of_length_eq {α : Type} {limit : Nat} {xs : List α} (hpos : 0 < limit)
    (hlength : xs.length = limit) (ys : List α) : capped limit (xs ++ ys) = xs := by
  rw [capped, if_neg (Nat.ne_of_gt hpos)]
  exact List.take_left' hlength

namespace Layout

/-- From the first element of an interval on, its elements are those up to the first score that is too
great. -/
theorem takeWhile_onward (h : l.Layout ts) (least greatest : Score) :
    (elementsIn (below ⟨least, []⟩ ts) (onward ⟨least, []⟩ ts) []).takeWhile
        (·.score ≤ greatest) =
      inside least greatest (elementsIn [] ts []) := by
  have hsorted := pairwise_elementsIn h.sorted [] []
  rw [elementsIn_onward h.sorted, takeWhile_eq_filter (pairwise_score_le (hsorted.filter _) greatest),
    List.filter_filter, inside]
  refine List.filter_congr fun e _ => ?_
  rw [not_lt_start_iff, Bool.and_comm]

theorem range_eq_inside (h : l.Layout ts) (least greatest : Score) (limit : Nat) :
    l.range least greatest limit =
      .ok (capped limit (inside least greatest (elementsIn [] ts []))) := by
  rw [h.range_eq, h.takeWhile_onward]

end Layout

/-! ### A walk that stops early -/

/-- Walks along level 0 from a link on and puts what it meets behind `found`, up to the first score
above `greatest`, and only until there are `limit` elements unless `limit` is zero. There is room for
so many more elements. -/
def gather (l : SkipList γ) (greatest : Score) (limit : Nat) :
    Nat → Link → List Element → Checked (List Element)
  | _, none, found => return found
  | 0, some _, _ => throw .endless
  | room + 1, some slot, found => do
    let e ← l.element slot
    if greatest < e.score then return found
    let found := found ++ [e]
    if 0 < limit ∧ limit ≤ found.length then return found
    l.gather greatest limit room (← linkAt e.next 0) found

def gatherRange (l : SkipList γ) (least greatest : Score) (limit : Nat) :
    Checked (List Element) := do
  l.gather greatest limit l.slots (← l.seek ⟨least, []⟩) []

namespace Layout

/-- As long as the walk has not found enough, it finds what a longer walk would be cut to. -/
theorem gather_eq (h : l.Layout ts) {done rest : List Tower} (hsplit : ts = done ++ rest)
    (greatest : Score) {limit room : Nat} (hroom : rest.length ≤ room) {found : List Element}
    (hfound : limit = 0 ∨ found.length < limit) :
    l.gather greatest limit room (firstOn 0 rest) found =
      .ok (capped limit (found ++ (elementsIn done rest []).takeWhile (·.score ≤ greatest))) := by
  have hshort : capped limit found = found := capped_eq_self (hfound.imp_right Nat.le_of_lt)
  induction rest generalizing done room found with
  | nil =>
    rw [firstOn_nil, gather, elementsIn_nil, List.takeWhile_nil, List.append_nil, hshort]
    rfl
  | cons t rest ih =>
    obtain ⟨room, rfl⟩ : ∃ n, room = n + 1 :=
      Nat.exists_eq_add_one.2 (Nat.lt_of_lt_of_le (by simp) hroom)
    have hpos : 0 < t.height := h.height_pos t (by simp [hsplit])
    rw [firstOn_cons_of_lt hpos, elementsIn_cons, List.append_nil]
    simp only [gather, h.element_eq hsplit, Checked.ok_bind]
    by_cases hgreat : greatest < (t.element done rest).score
    · have hnot : ¬ decide ((t.element done rest).score ≤ greatest) = true := by
        simpa using hgreat
      rw [if_pos hgreat, List.takeWhile_cons, if_neg hnot, List.append_nil, hshort]
      rfl
    · have hle : decide ((t.element done rest).score ≤ greatest) = true := by
        simpa using hgreat
      rw [if_neg hgreat, List.takeWhile_cons, if_pos hle,
        List.append_cons found _ (List.takeWhile _ _)]
      by_cases henough : 0 < limit ∧ limit ≤ (found ++ [t.element done rest]).length
      · have hlength : (found ++ [t.element done rest]).length = limit := by
          have hlt := hfound.resolve_left (Nat.ne_of_gt henough.1)
          have hle := henough.2
          simp only [List.length_append, List.length_singleton] at hle ⊢
          omega
        rw [if_pos henough, capped_append_of_length_eq henough.1 hlength]
        rfl
      · have hmore : limit = 0 ∨ (found ++ [t.element done rest]).length < limit := by omega
        have hlink : linkAt (t.element done rest).next 0 = .ok (firstOn 0 rest) :=
          linkAt_links hpos rest
        rw [if_neg henough, hlink, Checked.ok_bind]
        exact ih (by simp [hsplit]) (Nat.le_of_succ_le_succ hroom) hmore
          (capped_eq_self (hmore.imp_right Nat.le_of_lt))

theorem gatherRange_eq (h : l.Layout ts) (least greatest : Score) (limit : Nat) :
    l.gatherRange least greatest limit =
      .ok (capped limit (inside least greatest (elementsIn [] ts []))) := by
  have hsplit := (below_append_onward ⟨least, []⟩ ts).symm
  have hroom : (onward ⟨least, []⟩ ts).length ≤ l.slots := by
    have hle := h.lengths_le_slots hsplit
    omega
  simp only [gatherRange, h.seek_eq, Checked.ok_bind]
  rw [h.gather_eq hsplit greatest hroom (by simp; omega), List.nil_append, h.takeWhile_onward]

end Layout

/-- After every history of changes, an interval of scores yields just the elements with a score in it,
in order, and only the first of them if there is a limit. A walk that stops as soon as it can yields
the same. -/
theorem range_exact [WordSource γ] {ceiling : Nat} (hpos : 1 ≤ ceiling) (hle : ceiling ≤ maxCeiling)
    (source : γ) (edits : List Edit) :
    ∃ l es, ofHistory ceiling source edits = .ok l ∧ l.elements = .ok es ∧
      es.Pairwise (fun d e => d.position < e.position) ∧
      ∀ least greatest limit, ∃ found,
        l.range least greatest limit = .ok found ∧ l.gatherRange least greatest limit = .ok found ∧
        (found = if limit = 0 then inside least greatest es
          else (inside least greatest es).take limit) ∧
        (greatest < least → found = []) := by
  obtain ⟨l, ts, hall, hlayout, -⟩ := layout_ofHistory hpos hle source edits
  refine ⟨l, _, hall, hlayout.elements_eq, pairwise_elementsIn hlayout.sorted [] [], ?_⟩
  intro least greatest limit
  refine ⟨_, hlayout.range_eq_inside least greatest limit, hlayout.gatherRange_eq _ _ _, rfl, ?_⟩
  intro hempty
  rw [inside_eq_nil hempty, capped_eq_self (Or.inr (Nat.zero_le limit))]

theorem range_exact_between_equal_scores :
    1 ≤ 3 ∧ 3 ≤ maxCeiling ∧
      ∃ l es found, ofHistory 3 (Xoshiro.ofSeed 5)
          [.insert [98] [1] 5, .insert [] [2] 5, .insert [97] [3] 5, .insert [97] [4] 4,
            .insert [] [5] 6, .insert [99] [6] 18446744073709551615] = .ok l ∧
        l.elements = .ok es ∧ l.range 5 18446744073709551615 2 = .ok found ∧
        l.gatherRange 5 18446744073709551615 2 = .ok found ∧
        found = (inside 5 18446744073709551615 es).take 2 ∧ l.range 6 5 0 = .ok [] := by
  obtain ⟨l, es, hall, helements, -, hrange⟩ :=
    range_exact (show 1 ≤ 3 by decide) (by decide) (Xoshiro.ofSeed 5)
      [.insert [98] [1] 5, .insert [] [2] 5, .insert [97] [3] 5, .insert [97] [4] 4,
        .insert [] [5] 6, .insert [99] [6] 18446744073709551615]
  obtain ⟨found, hfound, hgather, hcut, -⟩ := hrange 5 18446744073709551615 2
  obtain ⟨none, hnone, -, -, hempty⟩ := hrange 6 5 0
  obtain rfl := hempty (by decide)
  exact ⟨by decide, by decide, l, es, found, hall, helements, hfound, hgather, hcut, hnone⟩

end ExpiringStore.SkipList
