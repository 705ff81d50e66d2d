import Mathlib.Data.List.Induction
import Mathlib.Data.Nat.Digits.Defs
import ExpiringStore.Proofs.Utf8

/-!
# Decimal numerals

A numeral is a non-empty string of digits. It writes the number whose places are its digits, the
highest first. A number has one numeral that starts with a zero only where it is that zero, and this
is how the number is printed.
-/

namespace ExpiringStore.Numeral

/-! ### Digits -/

theorem bounds_of_isDigit {c : Char} (hc : c.isDigit) : 48 ≤ c.toNat ∧ c.toNat ≤ 57 :=
  Char.isDigit_iff_toNat.1 hc

theorem toNat_lt_of_isDigit {c : Char} (hc : c.isDigit) : c.toNat < 128 :=
  Nat.lt_of_le_of_lt (bounds_of_isDigit hc).2 (by decide)

theorem digitChar_toNat_sub {c : Char} (hc : c.isDigit) : (c.toNat - 48).digitChar = c := by
  obtain ⟨hlow, hhigh⟩ := bounds_of_isDigit hc
  apply Char.toNat_inj.1
  rw [Nat.toNat_digitChar_of_lt_ten (by omega)]
  omega

theorem toDigits_digit {c : Char} (hc : c.isDigit) : Nat.toDigits 10 (c.toNat - 48) = [c] := by
  obtain ⟨-, hhigh⟩ := bounds_of_isDigit hc
  rw [Nat.toDigits_of_lt_base (by omega), digitChar_toNat_sub hc]

/-! ### Printing what a numeral writes -/

/-- Digits read after a positive number are printed after it, leading zeros among them too. -/
theorem toDigits_ofDigitChars_of_pos {cs : List Char} (hcs : ∀ c ∈ cs, c.isDigit) {n : Nat}
    (hn : 0 < n) : Nat.toDigits 10 (Nat.ofDigitChars 10 cs n) = Nat.toDigits 10 n ++ cs := by
  induction cs generalizing n with
  | nil => rw [Nat.ofDigitChars_nil, List.append_nil]
  | cons c cs ih =>
    have hc := hcs c List.mem_cons_self
    obtain ⟨-, hhigh⟩ := bounds_of_isDigit hc
    calc Nat.toDigits 10 (Nat.ofDigitChars 10 (c :: cs) n)
        = Nat.toDigits 10 (Nat.ofDigitChars 10 cs (10 * n + (c.toNat - 48))) := by
          rw [Nat.ofDigitChars_cons]
          rfl
      _ = Nat.toDigits 10 (10 * n + (c.toNat - 48)) ++ cs :=
          ih (fun d hd => hcs d (List.mem_cons_of_mem c hd)) (by omega)
      _ = Nat.toDigits 10 n ++ c :: cs := by
          rw [← Nat.toDigits_append_toDigits (by decide) hn (by omega), toDigits_digit hc,
            List.append_assoc, List.singleton_append]

theorem toDigits_ofDigitChars {cs : List Char} (hcs : ∀ c ∈ cs, c.isDigit) (hne : cs ≠ [])
    (hshort : cs.head? = some '0' → cs = ['0']) :
    Nat.toDigits 10 (Nat.ofDigitChars 10 cs 0) = cs := by
  obtain ⟨c, cs, rfl⟩ := List.exists_cons_of_ne_nil hne
  by_cases hzero : c = '0'
  · rw [hshort (congrArg some hzero)]
    rfl
  · have hc := hcs c List.mem_cons_self
    obtain ⟨hlow, -⟩ := bounds_of_isDigit hc
    have hpos : c.toNat ≠ 48 := fun h => hzero (Char.toNat_inj.1 h)
    calc Nat.toDigits 10 (Nat.ofDigitChars 10 (c :: cs) 0)
        = Nat.toDigits 10 (Nat.ofDigitChars 10 cs (c.toNat - 48)) := by
          rw [Nat.ofDigitChars_cons, Nat.mul_zero, Nat.zero_add]
          rfl
      _ = Nat.toDigits 10 (c.toNat - 48) ++ cs :=
          toDigits_ofDigitChars_of_pos (fun d hd => hcs d (List.mem_cons_of_mem c hd)) (by omega)
      _ = c :: cs := by rw [toDigits_digit hc, List.singleton_append]

theorem toDigits_of_head? {n : Nat} (hzero : (Nat.toDigits 10 n).head? = some '0') :
    Nat.toDigits 10 n = ['0'] := by
  induction n using Nat.base_induction 10 (by decide) with
  | single m hm =>
    rw [Nat.toDigits_of_lt_base hm] at hzero ⊢
    exact congrArg (fun c => [c]) (Option.some.inj hzero)
  | digit m k hk hm ih =>
    -- the first digit is that of `m`, which is not zero
    obtain ⟨c, cs, hcs⟩ := List.exists_cons_of_ne_nil (Nat.toDigits_ne_nil (n := m) (b := 10))
    rw [← Nat.toDigits_append_toDigits (by decide) hm hk, hcs] at hzero
    have hm0 : Nat.toDigits 10 m = ['0'] := ih (by rw [hcs]; exact hzero)
    have hvalue := congrArg (Nat.ofDigitChars 10 · 0) hm0
    simp only [Nat.ofDigitChars_ten_toDigits] at hvalue
    exact absurd hvalue (Nat.ne_of_gt hm)

theorem toDigits_eq_iff {cs : List Char} (hcs : ∀ c ∈ cs, c.isDigit) (hne : cs ≠ []) :
    Nat.toDigits 10 (Nat.ofDigitChars 10 cs 0) = cs ↔ (cs.head? = some '0' → cs = ['0']) := by
  constructor
  · intro h hzero
    rw [← h] at hzero ⊢
    exact toDigits_of_head? hzero
  · exact toDigits_ofDigitChars hcs hne

/-! ### Numerals as bytes -/

/-- The number that a string of digit bytes writes. -/
def value (digits : Bytes) : Nat := Nat.ofDigits 10 (digits.reverse.map fun d => d.toNat - 48)

theorem value_concat (digits : Bytes) (d : UInt8) :
    value (digits ++ [d]) = 10 * value digits + (d.toNat - 48) := by
  rw [value, value, List.reverse_append, List.reverse_singleton, List.singleton_append,
    List.map_cons, Nat.ofDigits_cons, Nat.add_comm]

structure IsNumeral (digits : Bytes) : Prop where
  ne_nil : digits ≠ []
  digit : ∀ d ∈ digits, 48 ≤ d ∧ d ≤ 57

theorem isDigit_iff {c : Char} (hc : c.toNat < 128) :
    c.isDigit ↔ 48 ≤ c.toNat.toUInt8 ∧ c.toNat.toUInt8 ≤ 57 := by
  rw [Char.isDigit_iff_toNat, UInt8.le_iff_toNat_le, UInt8.le_iff_toNat_le,
    Bytes.toNat_toUInt8 hc]
  rfl

theorem isNumeral_ofAscii {cs : List Char} (hne : cs ≠ []) (hcs : ∀ c ∈ cs, c.isDigit) :
    IsNumeral (Bytes.ofAscii cs) where
  ne_nil h := hne (List.map_eq_nil_iff.1 h)
  digit d hd := by
    obtain ⟨c, hc, rfl⟩ := List.mem_map.1 hd
    exact (isDigit_iff (toNat_lt_of_isDigit (hcs c hc))).1 (hcs c hc)

theorem IsNumeral.exists_chars {digits : Bytes} (h : IsNumeral digits) :
    ∃ cs, digits = Bytes.ofAscii cs ∧ cs ≠ [] ∧ ∀ c ∈ cs, c.isDigit := by
  obtain ⟨cs, rfl, hlt⟩ := Bytes.exists_ofAscii fun d hd =>
    Nat.lt_of_le_of_lt (UInt8.le_iff_toNat_le.1 (h.digit d hd).2) (by decide)
  refine ⟨cs, rfl, fun hnil => h.ne_nil (by rw [hnil]; rfl), fun c hc => ?_⟩
  exact (isDigit_iff (hlt c hc)).2 (h.digit _ (List.mem_map_of_mem hc))

theorem value_ofAscii {cs : List Char} (hcs : ∀ c ∈ cs, c.isDigit) :
    value (Bytes.ofAscii cs) = Nat.ofDigitChars 10 cs 0 := by
  induction cs using List.reverseRecOn with
  | nil => rfl
  | append_singleton cs c ih =>
    have hc := toNat_lt_of_isDigit (hcs c (by simp))
    rw [Bytes.ofAscii, List.map_append, List.map_singleton, value_concat, Bytes.toNat_toUInt8 hc,
      Nat.ofDigitChars_append, Nat.ofDigitChars_cons, Nat.ofDigitChars_nil]
    exact congrArg (10 * · + (c.toNat - 48)) (ih fun d hd => hcs d (List.mem_append_left _ hd))

/-! ### The form of a printed number -/

theorem isDigit_of_mem_toDigits {n : Nat} : ∀ c ∈ Nat.toDigits 10 n, c.isDigit := fun _ hc =>
  Nat.isDigit_of_mem_toDigits (by decide) (by decide) hc

theorem ofText_toString (n : Nat) :
    Bytes.ofText (toString n) = Bytes.ofAscii (Nat.toDigits 10 n) := by
  rw [Nat.toString_eq_ofList_toDigits]
  exact Bytes.ofText_ofAscii fun c hc => toNat_lt_of_isDigit (isDigit_of_mem_toDigits c hc)

theorem isNumeral_toString (n : Nat) : IsNumeral (Bytes.ofText (toString n)) := by
  rw [ofText_toString]
  exact isNumeral_ofAscii Nat.toDigits_ne_nil isDigit_of_mem_toDigits

theorem value_toString (n : Nat) : value (Bytes.ofText (toString n)) = n := by
  rw [ofText_toString, value_ofAscii isDigit_of_mem_toDigits, Nat.ofDigitChars_ten_toDigits]

/-- A numeral is printed again exactly if none of its zeros could be left out. -/
theorem IsNumeral.toString_value {digits : Bytes} (h : IsNumeral digits) :
    Bytes.ofText (toString (value digits)) = digits ↔ (digits.head? = some 48 → digits = [48]) := by
  obtain ⟨cs, rfl, hne, hcs⟩ := h.exists_chars
  have hlt : ∀ c ∈ cs, c.toNat < 128 := fun c hc => toNat_lt_of_isDigit (hcs c hc)
  have hzero : ∀ c ∈ ['0'], c.toNat < 128 := by simp
  have hhead : (Bytes.ofAscii cs).head? = some 48 ↔ cs.head? = some '0' := by
    obtain ⟨c, cs, rfl⟩ := List.exists_cons_of_ne_nil hne
    have hc : Bytes.ofAscii [c] = Bytes.ofAscii ['0'] ↔ [c] = ['0'] :=
      Bytes.ofAscii_inj (by simpa using hlt c List.mem_cons_self) hzero
    simpa [Bytes.ofAscii] using hc
  have hsingle : Bytes.ofAscii cs = [48] ↔ cs = ['0'] := Bytes.ofAscii_inj hlt hzero
  rw [ofText_toString, value_ofAscii hcs, Bytes.ofAscii_inj _ hlt, hhead, hsingle]
  · exact toDigits_eq_iff hcs hne
  · exact fun c hc => toNat_lt_of_isDigit (isDigit_of_mem_toDigits c hc)

end ExpiringStore.Numeral
