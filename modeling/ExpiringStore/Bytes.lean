/-!
# Byte strings

Keys and values are byte strings. They are compared byte by byte as unsigned numbers, and a string
that runs out first is the smaller one, so the order of `List UInt8` is the order of keys.
-/

namespace ExpiringStore

abbrev Bytes := List UInt8

namespace Bytes

def ofText (text : String) : Bytes := text.toUTF8.data.toList

/-- The text whose UTF-8 form is `b`, or `none` if `b` is not well-formed UTF-8. -/
def text? (b : Bytes) : Option String := String.fromUTF8? ⟨b.toArray⟩

/-- `stem` followed by `i` in decimal: the `i`-th of a run of numbered keys or values. -/
def numbered (stem : Bytes) (i : Nat) : Bytes := stem ++ ofText (toString i)

theorem text?_ofText (t : String) : text? (ofText t) = some t := by
  have h : (⟨(ofText t).toArray⟩ : ByteArray) = t.toUTF8 := by simp [ofText]
  rw [text?, h, String.fromUTF8?, String.toUTF8_eq_toByteArray, dif_pos t.isValidUTF8]
  rfl

end Bytes

end ExpiringStore
