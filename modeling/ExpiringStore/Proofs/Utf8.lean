import ExpiringStore.Bytes

/-!
# Texts as bytes

In UTF-8 a character below 128 is one byte, its number, and every byte of another character is 128 or
more. So a byte below 128 is found in the bytes of a text exactly where its character is found in the
text, and a string of such bytes is the form of one text, character by character.
-/

namespace ExpiringStore.Bytes

/-! ### One character -/

theorem mem_utf8EncodeChar {c : Char} {x : UInt8} (hx : x.toNat < 128) :
    x ∈ String.utf8EncodeChar c ↔ c.toNat = x.toNat := by
  have hc : c.val.toNat = c.toNat := rfl
  unfold String.utf8EncodeChar
  simp only [hc]
  split
  next hone =>
    rw [List.mem_singleton, ← UInt8.toNat_inj, UInt8.toNat_ofNat']
    omega
  next hlarge =>
    have hne : c.toNat ≠ x.toNat := by omega
    refine iff_of_false ?_ hne
    -- every byte of the longer forms has its highest bit set
    split
    case' isFalse => split
    all_goals
      simp only [List.mem_cons, List.not_mem_nil, or_false, ← UInt8.toNat_inj,
        UInt8.toNat_ofNat', Nat.reducePow]
      omega

theorem utf8EncodeChar_of_lt {c : Char} (hc : c.toNat < 128) :
    String.utf8EncodeChar c = [c.toNat.toUInt8] := by
  have hle : c.val.toNat ≤ 127 := Nat.le_of_lt_succ hc
  unfold String.utf8EncodeChar
  simp only [hle, ↓reduceIte]
  rfl

/-! ### Texts -/

theorem ofText_eq_flatMap (t : String) : ofText t = t.toList.flatMap String.utf8EncodeChar := by
  rw [ofText, String.toUTF8_eq_toByteArray, ← String.utf8Encode_toList, List.utf8Encode,
    List.toList_data_toByteArray]

theorem ofText_append (s t : String) : ofText (s ++ t) = ofText s ++ ofText t := by
  rw [ofText_eq_flatMap, String.toList_append, List.flatMap_append, ← ofText_eq_flatMap,
    ← ofText_eq_flatMap]

theorem ofText_inj {s t : String} : ofText s = ofText t ↔ s = t := by
  constructor
  · intro h
    have htexts := congrArg text? h
    rw [text?_ofText, text?_ofText] at htexts
    exact Option.some.inj htexts
  · exact congrArg ofText

theorem text?_eq_some_iff {b : Bytes} {t : String} : text? b = some t ↔ b = ofText t := by
  constructor
  · intro h
    rw [text?, String.fromUTF8?] at h
    split at h
    next hvalid =>
      cases h
      simp [ofText, String.fromUTF8]
    next => cases h
  · rintro rfl
    exact text?_ofText t

/-- A text has a form, and what has no text is not well-formed. -/
theorem isValidUTF8_ofText (t : String) : ByteArray.IsValidUTF8 ⟨(ofText t).toArray⟩ := by
  have hbytes : (⟨(ofText t).toArray⟩ : ByteArray) = t.toByteArray := by simp [ofText]
  rw [hbytes]
  exact t.isValidUTF8

theorem mem_ofText {x : UInt8} (hx : x.toNat < 128) (t : String) :
    x ∈ ofText t ↔ ∃ c ∈ t.toList, c.toNat = x.toNat := by
  rw [ofText_eq_flatMap, List.mem_flatMap]
  simp only [mem_utf8EncodeChar hx]

/-! ### Characters below 128 -/

/-- The numbers of characters as bytes. -/
def ofAscii (cs : List Char) : Bytes := cs.map fun c => c.toNat.toUInt8

theorem ofText_ofAscii {cs : List Char} (hcs : ∀ c ∈ cs, c.toNat < 128) :
    ofText (String.ofList cs) = ofAscii cs := by
  rw [ofText_eq_flatMap, String.toList_ofList]
  induction cs with
  | nil => rfl
  | cons c cs ih =>
    rw [List.flatMap_cons, utf8EncodeChar_of_lt (hcs c List.mem_cons_self),
      ih fun d hd => hcs d (List.mem_cons_of_mem c hd)]
    rfl

theorem ofAscii_inj {cs ds : List Char} (hcs : ∀ c ∈ cs, c.toNat < 128)
    (hds : ∀ d ∈ ds, d.toNat < 128) : ofAscii cs = ofAscii ds ↔ cs = ds := by
  rw [← ofText_ofAscii hcs, ← ofText_ofAscii hds, ofText_inj, String.ofList_inj]

theorem toNat_toUInt8 {n : Nat} (hn : n < 128) : n.toUInt8.toNat = n :=
  UInt8.toNat_ofNat_of_lt' (Nat.lt_trans hn (by decide))

theorem toNat_charOfNat {n : Nat} (hn : n < 128) : (Char.ofNat n).toNat = n := by
  have hvalid : n.isValidChar := Or.inl (by omega)
  rw [Char.ofNat, dif_pos hvalid]
  rfl

theorem exists_ofAscii {b : Bytes} (hb : ∀ x ∈ b, x.toNat < 128) :
    ∃ cs, b = ofAscii cs ∧ ∀ c ∈ cs, c.toNat < 128 := by
  refine ⟨b.map fun x => Char.ofNat x.toNat, ?_, ?_⟩
  · have hback : ∀ x ∈ b, (Char.ofNat x.toNat).toNat.toUInt8 = id x := by
      intro x hx
      rw [toNat_charOfNat (hb x hx)]
      exact UInt8.ofNat_toNat
    calc b = b.map id := b.map_id.symm
      _ = b.map fun x => (Char.ofNat x.toNat).toNat.toUInt8 := (List.map_congr_left hback).symm
      _ = ofAscii (b.map fun x => Char.ofNat x.toNat) := by
        rw [ofAscii, List.map_map]
        rfl
  · intro c hc
    obtain ⟨x, hx, rfl⟩ := List.mem_map.1 hc
    rw [toNat_charOfNat (hb x hx)]
    exact hb x hx

end ExpiringStore.Bytes
