import ExpiringStore.Score

/-!
# The hash of a key

Each byte of a key takes the 64 bits of the hash to 64 bits from which they can be told again: the
byte is mixed in by exclusive or, and the multiplier has an inverse modulo 2^64. So whatever bytes
follow, two hashes that differ go on to differ, and two that agree go on to agree.
-/

namespace ExpiringStore

/-! ### One byte -/

/-- The inverse of the multiplier modulo 2^64. -/
def fnvInverse : UInt64 := 0xce965057aff6957b

theorem fnvPrime_mul_fnvInverse : fnvPrime * fnvInverse = 1 := by decide

theorem mul_fnvPrime_inj {x y : UInt64} : x * fnvPrime = y * fnvPrime ↔ x = y := by
  have hcancel (z : UInt64) : z * fnvPrime * fnvInverse = z := by
    rw [UInt64.mul_assoc, fnvPrime_mul_fnvInverse, UInt64.mul_one]
  constructor
  · intro h
    calc x = x * fnvPrime * fnvInverse := (hcancel x).symm
      _ = y * fnvPrime * fnvInverse := by rw [h]
      _ = y := hcancel y
  · rintro rfl
    rfl

theorem fnvStep_state_inj {h h' : UInt64} (b : UInt8) : fnvStep h b = fnvStep h' b ↔ h = h' := by
  rw [fnvStep, fnvStep, mul_fnvPrime_inj, UInt64.xor_left_inj]

theorem fnvStep_byte_inj (h : UInt64) {b c : UInt8} : fnvStep h b = fnvStep h c ↔ b = c := by
  rw [fnvStep, fnvStep, mul_fnvPrime_inj, UInt64.xor_right_inj, UInt8.toUInt64_inj]

theorem toNat_fnvStep (h : UInt64) (b : UInt8) :
    (fnvStep h b).toNat = (h.toNat ^^^ b.toNat) * 1099511628211 % UInt64.size := by
  have hprime : fnvPrime.toNat = 1099511628211 := rfl
  rw [fnvStep, UInt64.toNat_mul, UInt64.toNat_xor, UInt8.toNat_toUInt64, hprime, UInt64.size]

/-! ### Whole keys -/

theorem foldl_fnvStep_inj (s : Bytes) {h h' : UInt64} :
    s.foldl fnvStep h = s.foldl fnvStep h' ↔ h = h' := by
  induction s generalizing h h' with
  | nil => exact Iff.rfl
  | cons b s ih => rw [List.foldl_cons, List.foldl_cons, ih, fnvStep_state_inj]

theorem fnv1a_append_inj {a a' : Bytes} (s : Bytes) :
    fnv1a (a ++ s) = fnv1a (a' ++ s) ↔ fnv1a a = fnv1a a' := by
  rw [fnv1a_append, fnv1a_append, foldl_fnvStep_inj]

theorem fnv1a_concat (a : Bytes) (b : UInt8) : fnv1a (a ++ [b]) = fnvStep (fnv1a a) b :=
  fnv1a_append a [b]

/-- Keys that differ in one byte have different hashes. A common ending neither brings the hashes of
two keys together nor takes them apart, and each byte is hashed by arithmetic modulo 2^64. -/
theorem one_byte_changes_the_hash (p a a' s : Bytes) (b c : UInt8) :
    (b ≠ c → fnv1a (p ++ [b] ++ s) ≠ fnv1a (p ++ [c] ++ s)) ∧
      (fnv1a (a ++ s) = fnv1a (a' ++ s) ↔ fnv1a a = fnv1a a') ∧
      (fnv1a (a ++ [b])).toNat = ((fnv1a a).toNat ^^^ b.toNat) * 1099511628211 % UInt64.size := by
  refine ⟨fun hne heq => hne ?_, fnv1a_append_inj s, ?_⟩
  · rw [fnv1a_append_inj, fnv1a_concat, fnv1a_concat] at heq
    exact (fnvStep_byte_inj _).1 heq
  · rw [fnv1a_concat, toNat_fnvStep]

/-- The keys `user:1/a` and `user:2/a`. -/
theorem one_byte_changes_the_hash_of_a_numbered_key :
    (49 : UInt8) ≠ 50 ∧
      fnv1a ([117, 115, 101, 114, 58] ++ [49] ++ [47, 97]) ≠
        fnv1a ([117, 115, 101, 114, 58] ++ [50] ++ [47, 97]) :=
  ⟨by decide, (one_byte_changes_the_hash _ [] [] _ 49 50).1 (by decide)⟩

end ExpiringStore
