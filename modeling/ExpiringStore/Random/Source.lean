/-!
# Word sources and heights

A word source is anything that yields 64-bit words one after the other. The height of a new element
is drawn from one word: each trailing one bit promotes the element by a level, so half of the
elements reach the second level, a quarter the third, and so on up to the ceiling.
-/

namespace ExpiringStore

/-- A deterministic stream of 64-bit words, kept as a state. -/
class WordSource (γ : Type) where
  next : γ → UInt64 × γ

namespace WordSource

variable {γ : Type} [WordSource γ]

def skip : Nat → γ → γ
  | 0, g => g
  | n + 1, g => skip n (next g).2

end WordSource

/-- The number of one bits below the lowest zero bit. -/
def trailingOnes (w : UInt64) : Nat :=
  ((List.range 64).takeWhile fun i => w.toNat.testBit i).length

def heightOf (w : UInt64) (ceiling : Nat) : Nat := min (trailingOnes w + 1) ceiling

theorem trailingOnes_eq_findIdx (w : UInt64) :
    trailingOnes w = (List.range 64).findIdx fun i => !w.toNat.testBit i := by
  rw [trailingOnes, List.takeWhile_eq_take_findIdx_not, List.length_take]
  exact Nat.min_eq_left List.findIdx_le_length

theorem testBit_of_lt_trailingOnes {w : UInt64} {i : Nat} (h : i < trailingOnes w) :
    w.toNat.testBit i = true := by
  rw [trailingOnes_eq_findIdx] at h
  have hbit := List.not_of_lt_findIdx h
  rwa [List.getElem_range, Bool.not_eq_false'] at hbit

theorem testBit_trailingOnes (w : UInt64) : w.toNat.testBit (trailingOnes w) = false := by
  by_cases h : trailingOnes w < 64
  · rw [trailingOnes_eq_findIdx] at h ⊢
    have hlt : (List.range 64).findIdx (fun i => !w.toNat.testBit i) < (List.range 64).length := by
      rwa [List.length_range]
    have hbit := List.findIdx_getElem (w := hlt)
    rwa [List.getElem_range, Bool.not_eq_true'] at hbit
  · -- all the bits of the word are ones
    exact Nat.testBit_lt_two_pow
      (Nat.lt_of_lt_of_le w.toNat_lt (Nat.pow_le_pow_right (by decide) (Nat.le_of_not_lt h)))

theorem heightOf_le_ceiling (w : UInt64) (ceiling : Nat) : heightOf w ceiling ≤ ceiling :=
  Nat.min_le_right _ _

theorem one_le_heightOf (w : UInt64) {ceiling : Nat} (h : 1 ≤ ceiling) : 1 ≤ heightOf w ceiling := by
  unfold heightOf
  omega

end ExpiringStore
