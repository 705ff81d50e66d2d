import Mathlib.Data.Set.Function
import ExpiringStore.Record
import ExpiringStore.Proofs.Numeral

/-!
# The grammar of records

A written record is the form of a name without a bar, a bar, a plus sign or nothing, and a numeral.
`Spells` says this of the bytes alone. What is read from a byte string is the record that it spells,
and nothing is read from one that spells none. A name with a bar has no written form that is read:
the first bar of the form lies in the name, and the second one in what is read as the score.
-/

namespace ExpiringStore

namespace Record

open Numeral

/-! ### Reading the parts -/

theorem splitBar?_append {before : List Char} (hbefore : '|' ∉ before) (after : List Char) :
    splitBar? (before ++ '|' :: after) = some (before, after) := by
  have hne : ∀ c ∈ before, (c != '|') = true := fun c hc =>
    bne_iff_ne.2 fun h => hbefore (h ▸ hc)
  rw [splitBar?, List.dropWhile_append_of_pos hne, List.takeWhile_append_of_pos hne]
  simp

theorem splitBar?_eq_some_iff {text before after : List Char} :
    splitBar? text = some (before, after) ↔ text = before ++ '|' :: after ∧ '|' ∉ before := by
  constructor
  · intro h
    unfold splitBar? at h
    split at h
    next => cases h
    next c rest hrest =>
      cases h
      have hc : (c != '|') = false := by
        have hhead := List.head?_dropWhile_not (· != '|') text
        simpa [hrest] using hhead
      have hjoin := List.takeWhile_append_dropWhile (p := (· != '|')) (l := text)
      rw [hrest, bne_eq_false_iff_eq.1 hc] at hjoin
      refine ⟨hjoin.symm, fun hmem => ?_⟩
      exact absurd (List.all_eq_true.1 List.all_takeWhile '|' hmem) (by decide)
  · rintro ⟨rfl, hbefore⟩
    exact splitBar?_append hbefore after

theorem unsigned_append {plus digits : List Char} (hplus : plus = [] ∨ plus = ['+'])
    (hdigits : ∀ c ∈ digits, c.isDigit) : unsigned (plus ++ digits) = digits := by
  rcases hplus with rfl | rfl
  · cases digits with
    | nil => rfl
    | cons c digits =>
      have hc : c ≠ '+' := by
        rintro rfl
        exact absurd (hdigits '+' List.mem_cons_self) (by decide)
      simp [unsigned, hc]
  · rfl

theorem exists_sign (text : List Char) :
    ∃ plus, text = plus ++ unsigned text ∧ (plus = [] ∨ plus = ['+']) := by
  unfold unsigned
  split
  next digits => exact ⟨['+'], rfl, .inr rfl⟩
  next => exact ⟨[], rfl, .inl rfl⟩

theorem readScore?_eq_some_iff {text : List Char} {score : UInt32} :
    readScore? text = some score ↔
      ∃ plus digits, text = plus ++ digits ∧ (plus = [] ∨ plus = ['+']) ∧ digits ≠ [] ∧
        (∀ c ∈ digits, c.isDigit) ∧ Nat.ofDigitChars 10 digits 0 = score.toNat := by
  constructor
  · intro h
    obtain ⟨plus, htext, hplus⟩ := exists_sign text
    simp only [readScore?] at h
    split at h
    next hread =>
      obtain ⟨hne, hdigits, hlt⟩ := hread
      cases h
      exact ⟨plus, unsigned text, htext, hplus, hne, List.all_eq_true.1 hdigits,
        (UInt32.toNat_ofNat_of_lt' hlt).symm⟩
    next => cases h
  · rintro ⟨plus, digits, rfl, hplus, hne, hdigits, hvalue⟩
    have hlt : score.toNat < UInt32.size := score.toNat_lt
    simp only [readScore?, unsigned_append hplus hdigits, hvalue]
    rw [if_pos ⟨hne, List.all_eq_true.2 hdigits, hlt⟩]
    exact congrArg some UInt32.ofNat_toNat

theorem decode?_eq_some_iff {b : Bytes} {r : Record} :
    decode? b = some r ↔ ∃ text, b = Bytes.ofText (r.name ++ "|" ++ String.ofList text) ∧
      '|' ∉ r.name.toList ∧ readScore? text = some r.score := by
  simp only [decode?, Option.bind_eq_bind, Option.bind_eq_some_iff, Prod.exists]
  constructor
  · rintro ⟨t, ht, before, after, hsplit, score, hscore, hr⟩
    obtain ⟨hlist, hbefore⟩ := splitBar?_eq_some_iff.1 hsplit
    have htext : t = String.ofList before ++ "|" ++ String.ofList after := by
      rw [← String.toList_inj, hlist]
      simp
    cases hr
    exact ⟨after, by rw [Bytes.text?_eq_some_iff.1 ht, htext], by simpa using hbefore, hscore⟩
  · rintro ⟨text, rfl, hname, hscore⟩
    refine ⟨_, Bytes.text?_ofText _, r.name.toList, text, ?_, r.score, hscore, by simp⟩
    simpa using splitBar?_append hname text

/-! ### The written form -/

theorem ofText_bar (name text : String) :
    Bytes.ofText (name ++ "|" ++ text) = Bytes.ofText name ++ 124 :: Bytes.ofText text := by
  have hbar : Bytes.ofText "|" = [124] := rfl
  rw [Bytes.ofText_append, Bytes.ofText_append, hbar, List.append_assoc, List.singleton_append]

theorem encode_eq (r : Record) :
    encode r = Bytes.ofText r.name ++ 124 :: Bytes.ofText (toString r.score.toNat) :=
  ofText_bar r.name _

theorem bar_mem_ofText_iff (name : String) : 124 ∈ Bytes.ofText name ↔ '|' ∈ name.toList := by
  rw [Bytes.mem_ofText (by decide)]
  constructor
  · rintro ⟨c, hc, hbar⟩
    have hc' : c = '|' := Char.toNat_inj.1 hbar
    rwa [← hc']
  · intro hmem
    exact ⟨'|', hmem, rfl⟩

/-- The bytes `b` are the form of the name of `r`, which has no bar, then a bar, then `plus`, a plus
sign or nothing, then `digits`, a numeral of the score of `r`. -/
structure Spells (b : Bytes) (r : Record) (plus digits : Bytes) : Prop where
  valid : ByteArray.IsValidUTF8 ⟨b.toArray⟩
  split : b = Bytes.ofText r.name ++ 124 :: (plus ++ digits)
  name : 124 ∉ Bytes.ofText r.name
  sign : plus = [] ∨ plus = [43]
  numeral : IsNumeral digits
  score : value digits = r.score.toNat

variable {b plus digits : Bytes} {r : Record}

theorem ofText_signed {plus digits : List Char} (hplus : plus = [] ∨ plus = ['+'])
    (hdigits : ∀ c ∈ digits, c.isDigit) :
    Bytes.ofText (String.ofList (plus ++ digits)) =
      Bytes.ofAscii plus ++ Bytes.ofAscii digits := by
  rw [String.ofList_append, Bytes.ofText_append,
    Bytes.ofText_ofAscii fun c hc => toNat_lt_of_isDigit (hdigits c hc), Bytes.ofText_ofAscii]
  rcases hplus with rfl | rfl <;> simp

theorem Spells.decode?_eq (h : Spells b r plus digits) : decode? b = some r := by
  obtain ⟨cs, rfl, hne, hcs⟩ := h.numeral.exists_chars
  obtain ⟨ps, rfl, hps⟩ : ∃ ps, plus = Bytes.ofAscii ps ∧ (ps = [] ∨ ps = ['+']) := by
    rcases h.sign with rfl | rfl
    · exact ⟨[], rfl, .inl rfl⟩
    · exact ⟨['+'], rfl, .inr rfl⟩
  rw [decode?_eq_some_iff]
  refine ⟨ps ++ cs, ?_, fun hbar => h.name ((bar_mem_ofText_iff _).2 hbar), ?_⟩
  · rw [h.split, ofText_bar, ofText_signed hps hcs]
  · exact readScore?_eq_some_iff.2 ⟨ps, cs, rfl, hps, hne, hcs, by
      rw [← value_ofAscii hcs, h.score]⟩

theorem exists_spells (h : decode? b = some r) : ∃ plus digits, Spells b r plus digits := by
  obtain ⟨text, rfl, hname, hscore⟩ := decode?_eq_some_iff.1 h
  obtain ⟨ps, cs, rfl, hps, hne, hcs, hvalue⟩ := readScore?_eq_some_iff.1 hscore
  exact ⟨Bytes.ofAscii ps, Bytes.ofAscii cs, {
    valid := Bytes.isValidUTF8_ofText _
    split := by rw [ofText_bar, ofText_signed hps hcs]
    name := fun hbar => hname ((bar_mem_ofText_iff _).1 hbar)
    sign := hps.imp (congrArg Bytes.ofAscii) (congrArg Bytes.ofAscii)
    numeral := isNumeral_ofAscii hne hcs
    score := by rw [value_ofAscii hcs, hvalue] }⟩

theorem decode?_eq_some_iff_exists_spells :
    decode? b = some r ↔ ∃ plus digits, Spells b r plus digits := by
  constructor
  · exact exists_spells
  · rintro ⟨plus, digits, h⟩
    exact h.decode?_eq

/-- The spelling that is written is the one without a sign and without needless zeros. -/
theorem Spells.encode_eq_iff (h : Spells b r plus digits) :
    encode r = b ↔ plus = [] ∧ (digits.head? = some 48 → digits = [48]) := by
  have hform : encode r = b ↔ Bytes.ofText (toString (value digits)) = plus ++ digits := by
    rw [encode_eq, h.split, h.score, List.append_cancel_left_eq, List.cons_inj_right]
  rw [hform]
  rcases h.sign with rfl | rfl
  · rw [List.nil_append, h.numeral.toString_value]
    simp
  · refine iff_of_false (fun hsign => ?_) (by simp)
    -- a printed number has digits only
    have hplus := (isNumeral_toString (value digits)).digit 43 (by rw [hsign]; simp)
    exact absurd hplus.1 (by decide)

/-- Every byte string is classified: it is read as the record that it spells, in one way or another,
and as none otherwise; and the record is written as the string again exactly if the score has no sign
and no needless zeros there. -/
theorem reads_exactly_what_is_spelled (b : Bytes) :
    (∀ r, decode? b = some r ↔ ∃ plus digits, Spells b r plus digits) ∧
      (decode? b = none ↔ ∀ r plus digits, ¬ Spells b r plus digits) ∧
      ∀ r plus digits, Spells b r plus digits →
        (encode r = b ↔ plus = [] ∧ (digits.head? = some 48 → digits = [48])) := by
  refine ⟨fun r => decode?_eq_some_iff_exists_spells, ?_, fun r plus digits h => h.encode_eq_iff⟩
  rw [Option.eq_none_iff_forall_ne_some]
  simp only [ne_eq, decode?_eq_some_iff_exists_spells, not_exists]

theorem reads_a_signed_score_of_no_name :
    Spells (Bytes.ofText "|+04294967295") ⟨"", 4294967295⟩ [43]
        [48, 52, 50, 57, 52, 57, 54, 55, 50, 57, 53] ∧
      decode? (Bytes.ofText "|+04294967295") = some ⟨"", 4294967295⟩ ∧
      encode ⟨"", 4294967295⟩ ≠ Bytes.ofText "|+04294967295" := by
  have hspells : Spells (Bytes.ofText "|+04294967295") ⟨"", 4294967295⟩ [43]
      [48, 52, 50, 57, 52, 57, 54, 55, 50, 57, 53] := {
    valid := Bytes.isValidUTF8_ofText _
    split := by decide
    name := by simp [bar_mem_ofText_iff]
    sign := .inr rfl
    numeral := ⟨by simp, by simp⟩
    score := by rfl }
  obtain ⟨hreads, -, hwrites⟩ := reads_exactly_what_is_spelled (Bytes.ofText "|+04294967295")
  refine ⟨hspells, (hreads _).2 ⟨_, _, hspells⟩, fun hwritten => ?_⟩
  exact absurd ((hwrites _ _ _ hspells).1 hwritten).1 (by decide)

/-! ### Writing and reading -/

theorem bar_notMem_of_readScore? {text : List Char} {score : UInt32}
    (h : readScore? text = some score) : '|' ∉ text := by
  obtain ⟨plus, digits, rfl, hplus, -, hdigits, -⟩ := readScore?_eq_some_iff.1 h
  rw [List.mem_append, not_or]
  constructor
  · rcases hplus with rfl | rfl <;> decide
  · exact fun hbar => absurd (hdigits '|' hbar) (by decide)

theorem decode?_encode_of_notMem (hname : '|' ∉ r.name.toList) : decode? (encode r) = some r := by
  have hspells : Spells (encode r) r [] (Bytes.ofText (toString r.score.toNat)) := {
    valid := Bytes.isValidUTF8_ofText _
    split := encode_eq r
    name := fun hbar => hname ((bar_mem_ofText_iff _).1 hbar)
    sign := .inl rfl
    numeral := isNumeral_toString _
    score := value_toString _ }
  exact hspells.decode?_eq

theorem decode?_encode_of_mem (hname : '|' ∈ r.name.toList) : decode? (encode r) = none := by
  rw [Option.eq_none_iff_forall_ne_some]
  intro r' h
  obtain ⟨text, htext, hname', hscore⟩ := decode?_eq_some_iff.1 h
  -- a form that is read has one bar, and this one has two
  have hcount := congrArg (List.count '|' ·.toList) (Bytes.ofText_inj.1 htext)
  simp only [String.toList_append, String.toList_ofList, List.count_append] at hcount
  have hread : List.count '|' text = 0 := List.count_eq_zero.2 (bar_notMem_of_readScore? hscore)
  have hfree : List.count '|' r'.name.toList = 0 := List.count_eq_zero.2 hname'
  have hbar : 0 < List.count '|' r.name.toList := List.count_pos_iff.2 hname
  omega

/-- A record is read back from its written form if its name has no bar, and nothing is read from the
form otherwise; so records without bars have different forms. -/
theorem written_records_are_read_back :
    (∀ r, decode? (encode r) = if '|' ∈ r.name.toList then none else some r) ∧
      Set.InjOn encode {r | '|' ∉ r.name.toList} := by
  constructor
  · intro r
    split
    next hname => exact decode?_encode_of_mem hname
    next hname => exact decode?_encode_of_notMem hname
  · intro r hr r' hr' heq
    have hread := congrArg decode? heq
    rw [decode?_encode_of_notMem hr, decode?_encode_of_notMem hr'] at hread
    exact Option.some.inj hread

end Record

end ExpiringStore
