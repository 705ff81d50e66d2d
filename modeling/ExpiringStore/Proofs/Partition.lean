import ExpiringStore.Proofs.Cursor
import ExpiringStore.Proofs.History
import ExpiringStore.Random.Xoshiro

/-!
# Walks from both ends meet

Whoever calls for elements at the two ends of a cursor, in any order, gets the first elements of the
stretch from one end and the last ones from the other. What is left stands in the middle, and once
nothing is left there, neither end yields anything any more.

## Main definitions

* `End.yielded`, `End.leftOver`: what a series of calls hands out at one end, and what it leaves.
* `Cursor.SharesOut`: the two ends of a cursor share out a list of elements.
* `SkipList.cursorAt`: the cursor from a start on.
-/

namespace ExpiringStore

variable {α : Type}

/-! ### Calls at the two ends of a list -/

namespace End

/-- The items that the answers to the calls hand out at one end, in the order of the calls. -/
def yielded (side : End) (calls : List End) (answers : List (Option α)) : List α :=
  ((calls.zip answers).filter fun call => call.1 = side).filterMap Prod.snd

def leftOver (calls : List End) (xs : List α) : List α :=
  calls.foldl (fun xs side => side.rest xs) xs

theorem yielded_cons_self (side : End) (calls : List End) (x? : Option α)
    (answers : List (Option α)) :
    side.yielded (side :: calls) (x? :: answers) = x?.toList ++ side.yielded calls answers := by
  cases x? <;> simp [yielded]

theorem yielded_cons_of_ne {side other : End} (h : other ≠ side) (calls : List End) (x? : Option α)
    (answers : List (Option α)) :
    side.yielded (other :: calls) (x? :: answers) = side.yielded calls answers := by
  simp [yielded, h]

theorem eq_item?_append_rest (xs : List α) :
    xs = (End.front.item? xs).toList ++ End.front.rest xs := by
  cases xs <;> rfl

theorem eq_rest_append_item? (xs : List α) :
    xs = End.back.rest xs ++ (End.back.item? xs).toList := by
  rcases List.eq_nil_or_concat' xs with rfl | ⟨init, x, rfl⟩
  · rfl
  · simp [rest, item?]

end End

namespace Cursor.Take

theorem answers_cons_one (xs : List α) (side : End) (calls : List End) :
    answers xs ((side :: calls).map .one) =
      side.item? xs :: answers (side.rest xs) (calls.map .one) := rfl

theorem length_answers_one (xs : List α) (calls : List End) :
    (answers xs (calls.map .one)).length = calls.length := by
  induction calls generalizing xs with
  | nil => rfl
  | cons side calls ih => rw [answers_cons_one, List.length_cons, ih, List.length_cons]

theorem answers_one_nil (calls : List End) :
    answers ([] : List α) (calls.map .one) = calls.map fun _ => none := by
  induction calls with
  | nil => rfl
  | cons side calls ih =>
    rw [answers_cons_one, List.map_cons, ← ih]
    cases side <;> rfl

/-- What is handed out at the front, what is left and what is handed out at the back make up the list
again. -/
theorem answers_share_out (xs : List α) (calls : List End) :
    xs = End.front.yielded calls (answers xs (calls.map .one)) ++ (End.leftOver calls xs ++
      (End.back.yielded calls (answers xs (calls.map .one))).reverse) := by
  induction calls generalizing xs with
  | nil => simp [End.yielded, End.leftOver]
  | cons side calls ih =>
    have hrest := ih (side.rest xs)
    have hleft : End.leftOver (side :: calls) xs = End.leftOver calls (side.rest xs) := rfl
    rw [answers_cons_one, hleft]
    cases side with
    | front =>
      rw [End.yielded_cons_self, End.yielded_cons_of_ne (by decide), List.append_assoc, ← hrest]
      exact End.eq_item?_append_rest xs
    | back =>
      have hsingle : (End.back.item? xs).toList.reverse = (End.back.item? xs).toList := by
        cases End.back.item? xs <;> rfl
      rw [End.yielded_cons_self, End.yielded_cons_of_ne (by decide), List.reverse_append, hsingle,
        ← List.append_assoc, ← List.append_assoc, List.append_assoc _ (End.leftOver _ _), ← hrest]
      exact End.eq_rest_append_item? xs

end Cursor.Take

/-! ### Cursors -/

/-- Whatever calls are made at the two ends of `c`, the front end yields the first elements of `es` in
order and the back end the last ones in reverse. A call yields nothing just if the two have met, and
then no later call does. -/
def Cursor.SharesOut {γ : Type} (l : SkipList γ) (c : Cursor) (es : List Element) : Prop :=
  ∀ calls : List End, ∃ answers middle c',
    c.takes l (calls.map .one) = .ok (answers, c') ∧ answers.length = calls.length ∧
      es = End.front.yielded calls answers ++
        (middle ++ (End.back.yielded calls answers).reverse) ∧
      (∀ side, ∃ e? c'', c'.step l side = .ok (e?, c'') ∧ (e? = none ↔ middle = [])) ∧
      (middle = [] → ∀ later : List End, ∃ c'',
        c'.takes l (later.map .one) = .ok (later.map fun _ => none, c''))

namespace SkipList

variable {γ : Type} {l : SkipList γ} {ts : List Tower}

/-- The cursor over the whole list, or over what is not less than a position. -/
def cursorAt (l : SkipList γ) : Option Position → Checked Cursor
  | none => l.cursor
  | some p => l.cursorFrom p

namespace Layout

theorem cursorAt_eq (h : l.Layout ts) (start? : Option Position) :
    ∃ c, l.cursorAt start? = .ok c ∧ c.Spans ts ((Tower.elementsIn [] ts []).filter fun e =>
      start?.all fun p => !decide (e.position < p)) := by
  cases start? with
  | none =>
    simp only [Option.all_none, List.filter_true]
    exact h.cursor_eq
  | some p =>
    simp only [Option.all_some]
    rw [← Tower.elementsIn_onward h.sorted p]
    exact h.cursorFrom_eq p

theorem sharesOut (h : l.Layout ts) {c : Cursor} {es : List Element} (hspans : c.Spans ts es) :
    c.SharesOut l es := by
  intro calls
  obtain ⟨c', htakes, hspans'⟩ := h.takes_eq hspans (calls.map .one)
  rw [List.foldl_map] at hspans'
  refine ⟨_, End.leftOver calls es, c', htakes, Cursor.Take.length_answers_one es calls,
    Cursor.Take.answers_share_out es calls, fun side => ?_, fun hnil later => ?_⟩
  · obtain ⟨c'', hstep, -⟩ := h.step_eq hspans' side
    exact ⟨_, c'', hstep, End.item?_eq_none⟩
  · have hnone : c'.Spans ts [] := by
      rw [← hnil]
      exact hspans'
    obtain ⟨c'', hlater, -⟩ := h.takes_eq hnone (later.map .one)
    rw [Cursor.Take.answers_one_nil] at hlater
    exact ⟨c'', hlater⟩

end Layout

/-- From whatever start a list is walked, the two ends of the walk share out the elements that are not
less than the start. -/
theorem cursors_share_out [WordSource γ] {ceiling : Nat} (hpos : 1 ≤ ceiling)
    (hle : ceiling ≤ maxCeiling) (source : γ) (edits : List Edit) :
    ∃ l es, ofHistory ceiling source edits = .ok l ∧ l.elements = .ok es ∧
      es.Pairwise (fun d e => d.position < e.position) ∧
      (∀ start?, ∃ c, l.cursorAt start? = .ok c ∧
        c.SharesOut l (es.filter fun e => start?.all fun p => !decide (e.position < p))) ∧
      l.visit .front = .ok es ∧ l.visit .back = .ok es.reverse := by
  obtain ⟨l, ts, hall, hlayout, -⟩ := layout_ofHistory hpos hle source edits
  refine ⟨l, _, hall, hlayout.elements_eq, Tower.pairwise_elementsIn hlayout.sorted [] [],
    fun start? => ?_, hlayout.visit_eq .front, hlayout.visit_eq .back⟩
  obtain ⟨c, hcursor, hspans⟩ := hlayout.cursorAt_eq start?
  exact ⟨c, hcursor, hlayout.sharesOut hspans⟩

theorem cursors_share_out_from_an_equal_score :
    1 ≤ 3 ∧ 3 ≤ maxCeiling ∧
      ∃ l es c,
        ofHistory 3 (Xoshiro.ofSeed 6)
          [.insert [99] [1] 3, .insert [97] [2] 3, .insert [98] [3] 7, .delete [97] 3,
            .insert [97] [4] 3] = .ok l ∧
        l.elements = .ok es ∧ l.cursorAt (some ⟨3, [98]⟩) = .ok c ∧
        c.SharesOut l (es.filter fun e => !decide (e.position < ⟨3, [98]⟩)) := by
  obtain ⟨l, es, hall, helements, -, hstarts, -⟩ :=
    cursors_share_out (show 1 ≤ 3 by decide) (by decide) (Xoshiro.ofSeed 6)
      [.insert [99] [1] 3, .insert [97] [2] 3, .insert [98] [3] 7, .delete [97] 3,
        .insert [97] [4] 3]
  obtain ⟨c, hcursor, hshares⟩ := hstarts (some ⟨3, [98]⟩)
  exact ⟨by decide, by decide, l, es, c, hall, helements, hcursor, hshares⟩

end SkipList

end ExpiringStore
