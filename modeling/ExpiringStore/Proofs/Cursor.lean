import ExpiringStore.Proofs.Descent
import ExpiringStore.SkipList.Cursor

/-!
# Walks from both ends

A cursor over a layout stands for the stretch of elements that it has not yielded. A step at one end
takes the element off that end of the stretch, whatever steps were made at the other end.
-/

namespace ExpiringStore

open Tower

variable {α β : Type}

/-! ### Taking from the ends of a list -/

namespace End

def item? (side : End) (xs : List α) : Option α :=
  match side with
  | .front => xs.head?
  | .back => xs.getLast?

def rest (side : End) (xs : List α) : List α :=
  match side with
  | .front => xs.tail
  | .back => xs.dropLast

def ordered (side : End) (xs : List α) : List α :=
  match side with
  | .front => xs
  | .back => xs.reverse

theorem ordered_eq_cons {side : End} {xs : List α} {x : α} (h : side.item? xs = some x) :
    side.ordered xs = x :: side.ordered (side.rest xs) := by
  cases side with
  | front => exact (List.cons_head?_tail h).symm
  | back =>
    obtain ⟨init, rfl⟩ := List.getLast?_eq_some_iff.1 h
    simp [ordered, rest]

theorem item?_eq_none {side : End} {xs : List α} : side.item? xs = none ↔ xs = [] := by
  cases side <;> simp [item?]

theorem length_rest (side : End) (xs : List α) : (side.rest xs).length = xs.length - 1 := by
  cases side <;> simp [rest]

theorem item?_map (side : End) (f : α → β) (xs : List α) :
    side.item? (xs.map f) = (side.item? xs).map f := by
  cases side <;> simp [item?]

theorem rest_map (side : End) (f : α → β) (xs : List α) :
    side.rest (xs.map f) = (side.rest xs).map f := by
  cases side <;> simp [rest]

theorem ordered_map (side : End) (f : α → β) (xs : List α) :
    side.ordered (xs.map f) = (side.ordered xs).map f := by
  cases side <;> simp [ordered]

end End

namespace Cursor.Take

def answer (xs : List α) : Take → List (Option α)
  | .one side => [side.item? xs]
  | .all side => (side.ordered xs).map some

def left (xs : List α) : Take → List α
  | .one side => side.rest xs
  | .all _ => []

def answers (xs : List α) : List Take → List (Option α)
  | [] => []
  | request :: requests => request.answer xs ++ answers (request.left xs) requests

theorem answer_map (f : α → β) (xs : List α) (request : Take) :
    request.answer (xs.map f) = (request.answer xs).map (Option.map f) := by
  cases request with
  | one side => simp [answer, side.item?_map]
  | all side => simp [answer, side.ordered_map]

theorem left_map (f : α → β) (xs : List α) (request : Take) :
    request.left (xs.map f) = (request.left xs).map f := by
  cases request with
  | one side => exact side.rest_map f xs
  | all side => rfl

theorem answers_map (f : α → β) (xs : List α) (requests : List Take) :
    answers (xs.map f) requests = (answers xs requests).map (Option.map f) := by
  induction requests generalizing xs with
  | nil => rfl
  | cons request requests ih =>
    rw [answers, answer_map, left_map, ih, answers, List.map_append]

end Cursor.Take

/-! ### The stretch of a cursor -/

/-- The cursor `c` over the towers `ts` has yet to yield the elements `es`. -/
def Cursor.Spans (ts : List Tower) (c : Cursor) (es : List Element) : Prop :=
  ∃ pre mid post, ts = pre ++ (mid ++ post) ∧ es = elementsIn pre mid post ∧
    c.done = mid.isEmpty ∧
    (mid ≠ [] → c.front = mid.head?.map slot ∧ c.back = lastSlot mid)

namespace SkipList.Layout

variable {γ : Type} {l : SkipList γ} {ts : List Tower}

theorem spans_of_split (h : l.Layout ts) {pre mid : List Tower} (hsplit : ts = pre ++ mid)
    {done : Bool} (hdone : done = mid.isEmpty) :
    Cursor.Spans ts ⟨firstOn 0 mid, l.back, done⟩ (elementsIn pre mid []) := by
  refine ⟨pre, mid, [], by rw [List.append_nil]; exact hsplit, rfl, hdone, fun hmid => ⟨?_, ?_⟩⟩
  · exact h.firstOn_zero_eq hsplit
  · obtain ⟨t, rest, rfl⟩ := List.exists_cons_of_ne_nil hmid
    rw [h.back_eq, hsplit, lastSlot_append_cons]

theorem cursor_eq (h : l.Layout ts) :
    ∃ c, l.cursor = .ok c ∧ c.Spans ts (elementsIn [] ts []) := by
  refine ⟨_, ?_, h.spans_of_split (List.nil_append ts).symm h.isEmpty_eq⟩
  simp only [SkipList.cursor, h.next_front h.ceiling_pos, Checked.ok_bind]
  rfl

theorem cursorFrom_eq (h : l.Layout ts) (p : Position) :
    ∃ c, l.cursorFrom p = .ok c ∧ c.Spans ts (elementsIn (below p ts) (onward p ts) []) := by
  have hsplit := (below_append_onward p ts).symm
  have hdone : (firstOn 0 (onward p ts)).isNone = (onward p ts).isEmpty := by
    rw [h.firstOn_zero_eq hsplit]
    cases onward p ts <;> rfl
  refine ⟨_, ?_, h.spans_of_split hsplit hdone⟩
  simp only [SkipList.cursorFrom, h.seek_eq, Checked.ok_bind]
  rfl

/-! ### Steps -/

theorem head_eq_last_iff (h : l.Layout ts) {pre mid post : List Tower} {t : Tower}
    (hsplit : ts = pre ++ (t :: mid ++ post)) :
    some t.slot = lastSlot (t :: mid) ↔ mid = [] := by
  rcases List.eq_nil_or_concat' mid with rfl | ⟨init, u, rfl⟩
  · simp [lastSlot]
  · have hne : u.slot ≠ t.slot :=
      h.slot_ne_of_split (show ts = pre ++ t :: (init ++ [u] ++ post) by simpa using hsplit) u
        (by simp)
    rw [← List.cons_append, lastSlot_concat, Option.some.injEq]
    simp [Ne.symm hne]

theorem step_front (h : l.Layout ts) {c : Cursor} {pre mid post : List Tower} {t : Tower}
    (hsplit : ts = pre ++ (t :: mid ++ post)) (hdone : c.done = false)
    (hfront : c.front = some t.slot) (hback : c.back = lastSlot (t :: mid)) :
    ∃ c', c.step l .front = .ok (some (t.element pre (mid ++ post)), c') ∧
      c'.Spans ts (elementsIn (pre ++ [t]) mid post) := by
  have hcut : ts = pre ++ t :: (mid ++ post) := hsplit
  have hcut' : ts = (pre ++ [t]) ++ (mid ++ post) := by simpa using hsplit
  have hpos : 0 < t.height := h.height_pos t (by simp [hsplit])
  have hlink : linkAt (t.element pre (mid ++ post)).next 0 = .ok (firstOn 0 (mid ++ post)) :=
    linkAt_links hpos (mid ++ post)
  simp only [Cursor.step, hdone, Bool.false_eq_true, ↓reduceIte, Cursor.slot?, hfront,
    h.element_eq hcut, Checked.ok_bind, Cursor.shrink, hback, h.head_eq_last_iff hsplit, hlink]
  by_cases hmid : mid = []
  · simp only [hmid, ↓reduceIte]
    refine ⟨_, rfl, pre ++ [t], [], post, by simpa [hmid] using hcut', rfl, rfl, ?_⟩
    exact fun hne => absurd rfl hne
  · simp only [hmid, ↓reduceIte]
    refine ⟨_, rfl, pre ++ [t], mid, post, hcut', rfl, ?_, fun _ => ⟨?_, ?_⟩⟩
    · simpa [hdone] using hmid
    · obtain ⟨u, rest, rfl⟩ := List.exists_cons_of_ne_nil hmid
      rw [h.firstOn_zero_eq hcut']
      rfl
    · obtain ⟨u, rest, rfl⟩ := List.exists_cons_of_ne_nil hmid
      simp [lastSlot]

theorem step_back (h : l.Layout ts) {c : Cursor} {pre mid post : List Tower} {t : Tower}
    (hsplit : ts = pre ++ (mid ++ [t] ++ post)) (hdone : c.done = false)
    (hfront : c.front = (mid ++ [t]).head?.map slot) (hback : c.back = some t.slot) :
    ∃ c', c.step l .back = .ok (some (t.element (pre ++ mid) post), c') ∧
      c'.Spans ts (elementsIn pre mid (t :: post)) := by
  have hcut : ts = (pre ++ mid) ++ t :: post := by simpa using hsplit
  have hcut' : ts = pre ++ (mid ++ t :: post) := by simpa using hsplit
  have hmeet : c.front = c.back ↔ mid = [] := by
    rw [hfront, hback]
    cases mid with
    | nil => simp
    | cons u mid =>
      have hne : u.slot ≠ t.slot := h.slot_ne_of_split hcut u (by simp)
      simp [hne]
  simp only [Cursor.step, hdone, Bool.false_eq_true, ↓reduceIte, Cursor.slot?, hback,
    h.element_eq hcut, Checked.ok_bind, Cursor.shrink]
  rw [hback] at hmeet
  by_cases hmid : mid = []
  · rw [if_pos (hmeet.2 hmid)]
    refine ⟨_, rfl, pre, [], t :: post, by simpa [hmid] using hcut', by rw [hmid], rfl, ?_⟩
    exact fun hne => absurd rfl hne
  · rw [if_neg (mt hmeet.1 hmid)]
    refine ⟨_, rfl, pre, mid, t :: post, hcut', rfl, ?_, fun _ => ⟨?_, ?_⟩⟩
    · simpa [hdone] using hmid
    · obtain ⟨u, rest, rfl⟩ := List.exists_cons_of_ne_nil hmid
      rw [hfront]
      rfl
    · obtain ⟨init, u, rfl⟩ := (List.eq_nil_or_concat' mid).resolve_left hmid
      simp [Tower.element, lastSlot, List.getLast?_append]

/-- A step takes the element at its end off the stretch, and yields nothing once the stretch is
empty. -/
theorem step_eq (h : l.Layout ts) {c : Cursor} {es : List Element} (hspans : c.Spans ts es)
    (side : End) :
    ∃ c', c.step l side = .ok (side.item? es, c') ∧ c'.Spans ts (side.rest es) := by
  have hspans' := hspans
  obtain ⟨pre, mid, post, hsplit, rfl, hdone, hends⟩ := hspans
  by_cases hmid : mid = []
  · subst hmid
    refine ⟨c, ?_, ?_⟩
    · simp only [Cursor.step, hdone, List.isEmpty_nil, ↓reduceIte]
      cases side <;> rfl
    · cases side <;> exact hspans'
  · obtain ⟨hfront, hback⟩ := hends hmid
    cases side with
    | front =>
      obtain ⟨t, mid, rfl⟩ := List.exists_cons_of_ne_nil hmid
      exact h.step_front hsplit hdone hfront hback
    | back =>
      obtain ⟨mid, t, rfl⟩ := (List.eq_nil_or_concat' mid).resolve_left hmid
      rw [elementsIn_concat]
      simp only [End.item?, End.rest, List.getLast?_concat, List.dropLast_concat]
      refine h.step_back hsplit (by rw [hdone]; simp) hfront ?_
      rw [hback, lastSlot_concat]

/-! ### Series of steps -/

theorem takeUpTo_eq (h : l.Layout ts) {c : Cursor} {es : List Element} (hspans : c.Spans ts es)
    (side : End) {count : Nat} (hcount : es.length ≤ count) :
    ∃ c', Cursor.takeUpTo l side count c = .ok (side.ordered es, c') ∧ c'.Spans ts [] := by
  induction count generalizing c es with
  | zero =>
    obtain rfl := List.eq_nil_of_length_eq_zero (Nat.le_zero.1 hcount)
    refine ⟨c, ?_, hspans⟩
    cases side <;> rfl
  | succ count ih =>
    obtain ⟨c', hstep, hspans'⟩ := h.step_eq hspans side
    simp only [Cursor.takeUpTo, hstep, Checked.ok_bind]
    cases hitem : side.item? es with
    | none =>
      obtain rfl := End.item?_eq_none.1 hitem
      refine ⟨c', ?_, ?_⟩
      · cases side <;> rfl
      · cases side <;> exact hspans'
    | some e =>
      have hlength := side.length_rest es
      obtain ⟨c'', htake, hspans''⟩ := ih hspans' (by omega)
      refine ⟨c'', ?_, hspans''⟩
      simp only [htake, Checked.ok_bind, End.ordered_eq_cons hitem]
      rfl

theorem length_le_of_spans (h : l.Layout ts) {c : Cursor} {es : List Element}
    (hspans : c.Spans ts es) : es.length ≤ l.length := by
  obtain ⟨pre, mid, post, hsplit, rfl, -, -⟩ := hspans
  rw [h.length_eq, hsplit, length_elementsIn, List.length_append, List.length_append]
  omega

theorem takeAll_eq (h : l.Layout ts) {c : Cursor} {es : List Element} (hspans : c.Spans ts es)
    (side : End) :
    ∃ c', c.takeAll l side = .ok (side.ordered es, c') ∧ c'.Spans ts [] :=
  h.takeUpTo_eq hspans side (h.length_le_of_spans hspans)

theorem take_eq (h : l.Layout ts) {c : Cursor} {es : List Element} (hspans : c.Spans ts es)
    (request : Cursor.Take) :
    ∃ c', c.take l request = .ok (request.answer es, c') ∧ c'.Spans ts (request.left es) := by
  cases request with
  | one side =>
    obtain ⟨c', hstep, hspans'⟩ := h.step_eq hspans side
    refine ⟨c', ?_, hspans'⟩
    simp only [Cursor.take, hstep, Checked.ok_bind]
    rfl
  | all side =>
    obtain ⟨c', htake, hspans'⟩ := h.takeAll_eq hspans side
    refine ⟨c', ?_, hspans'⟩
    simp only [Cursor.take, htake, Checked.ok_bind]
    rfl

theorem takes_eq (h : l.Layout ts) {c : Cursor} {es : List Element} (hspans : c.Spans ts es)
    (requests : List Cursor.Take) :
    ∃ c', c.takes l requests = .ok (Cursor.Take.answers es requests, c') ∧
      c'.Spans ts (requests.foldl Cursor.Take.left es) := by
  induction requests generalizing c es with
  | nil => exact ⟨c, rfl, hspans⟩
  | cons request requests ih =>
    obtain ⟨c', htake, hspans'⟩ := h.take_eq hspans request
    obtain ⟨c'', htakes, hspans''⟩ := ih hspans'
    refine ⟨c'', ?_, hspans''⟩
    simp only [Cursor.takes, htake, Checked.ok_bind, htakes]
    rfl

theorem visit_eq (h : l.Layout ts) (side : End) :
    l.visit side = .ok (side.ordered (elementsIn [] ts [])) := by
  obtain ⟨c, hcursor, hspans⟩ := h.cursor_eq
  obtain ⟨c', htake, -⟩ := h.takeAll_eq hspans side
  simp only [visit, hcursor, Checked.ok_bind, htake]
  rfl

end SkipList.Layout

end ExpiringStore
