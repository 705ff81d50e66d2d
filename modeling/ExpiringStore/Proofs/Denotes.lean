import ExpiringStore.Proofs.Contents

/-!
# What a store relies on of its index

A skip list denotes a sorted map if it is laid out and has the bindings of the map. A store needs no
more of its index than what each operation does to that map.
-/

namespace ExpiringStore.SkipList

open Tower

variable {γ : Type} {l : SkipList γ} {m : SortedMap}

/-- `l` is a well-formed list with the bindings of `m`. -/
def Denotes (l : SkipList γ) (m : SortedMap) : Prop :=
  ∃ ts, l.Layout ts ∧ m.toList = ts.map binding

theorem denotes_create {ceiling : Nat} (hpos : 1 ≤ ceiling) (hle : ceiling ≤ maxCeiling)
    (source : γ) : ∃ l, create ceiling source = .ok l ∧ l.Denotes ∅ := by
  obtain ⟨l, hcreate, hlayout, -, -, -⟩ := layout_create hpos hle source
  exact ⟨l, hcreate, [], hlayout, Std.ExtTreeMap.toList_eq_nil_iff.2 rfl⟩

namespace Denotes

theorem insert [WordSource γ] (h : l.Denotes m) (key value : Bytes) (score : Score) :
    ∃ e l', l.insert key value score = .ok (e, l') ∧
      l'.Denotes (m.insert ⟨score, key⟩ value) := by
  obtain ⟨ts, hlayout, hm⟩ := h
  obtain ⟨e, l', hinsert, -, -, -, hlayout', -⟩ := hlayout.insert_eq key value score
  exact ⟨e, l', hinsert, _, hlayout', Layout.bindings_after hm (.insert key value score) hlayout'⟩

theorem delete (h : l.Denotes m) (key : Bytes) (score : Score) :
    ∃ e? l', l.delete key score = .ok (e?, l') ∧
      e?.isSome = decide ((⟨score, key⟩ : Position) ∈ m) ∧ l'.Denotes (m.erase ⟨score, key⟩) := by
  obtain ⟨ts, hlayout, hm⟩ := h
  obtain ⟨e?, l', hdelete, hsome, -, hlayout', -⟩ := hlayout.delete_eq key score
  refine ⟨e?, l', hdelete, ?_, _, hlayout', Layout.bindings_remove hm hlayout'⟩
  rw [Bool.eq_iff_iff, hsome, decide_eq_true_iff, Layout.mem_iff hm]

theorem clear (h : l.Denotes m) : l.clear.Denotes ∅ := by
  obtain ⟨ts, hlayout, -⟩ := h
  exact ⟨[], hlayout.clear, Std.ExtTreeMap.toList_eq_nil_iff.2 rfl⟩

theorem search (h : l.Denotes m) (p : Position) :
    ∃ e?, l.search p = .ok e? ∧ e?.map Element.value = m[p]? := by
  obtain ⟨ts, hlayout, hm⟩ := h
  have hsearch := hlayout.search_mirrors hm p
  cases hfound : l.search p with
  | error fault =>
    rw [hfound] at hsearch
    cases hsearch
  | ok e? =>
    rw [hfound] at hsearch
    have hentry : e?.map Element.binding = m.entryAt? p := Except.ok.inj hsearch
    refine ⟨e?, rfl, ?_⟩
    have hvalue := congrArg (Option.map Prod.snd) hentry
    rw [SortedMap.entryAt?, Option.map_map, Option.map_map] at hvalue
    exact hvalue.trans Option.map_id'

theorem length_eq (h : l.Denotes m) : l.length = m.size := by
  obtain ⟨ts, hlayout, hm⟩ := h
  rw [hlayout.length_eq, ← Std.ExtTreeMap.length_toList, hm, List.length_map]

theorem elements (h : l.Denotes m) :
    ∃ es, l.elements = .ok es ∧ es.map Element.binding = m.toList := by
  obtain ⟨ts, hlayout, hm⟩ := h
  exact ⟨_, hlayout.elements_eq, Layout.map_elements hm⟩

theorem elementsFrom (h : l.Denotes m) (p : Position) :
    ∃ es link, l.elements = .ok es ∧ es.map Element.binding = m.toList ∧ l.seek p = .ok link ∧
      l.elementsFrom link = .ok (es.filter fun e => !decide (e.position < p)) := by
  obtain ⟨ts, hlayout, hm⟩ := h
  refine ⟨_, _, hlayout.elements_eq, Layout.map_elements hm, hlayout.seek_eq p, ?_⟩
  rw [← elementsIn_onward hlayout.sorted]
  exact hlayout.elementsFrom_eq (below_append_onward p ts).symm

end Denotes

end ExpiringStore.SkipList
