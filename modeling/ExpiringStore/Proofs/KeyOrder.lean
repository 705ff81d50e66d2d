import Mathlib.Tactic.Ring
import ExpiringStore.Position

/-!
# The order of keys

A score that is read off the first bytes of a key never goes against the order of the keys, so with
such scores the order of positions is the order of keys, and the keys with a common stem stand
together.
-/

namespace ExpiringStore

/-! ### The number that the first digits of a key make -/

/-- The number of the first `n` base-256 digits, where missing ones are zero. -/
def digitsValue : Nat → Bytes → Nat
  | 0, _ => 0
  | _ + 1, [] => 0
  | n + 1, d :: b => d.toNat * 256 ^ n + digitsValue n b

theorem digitsValue_nil (n : Nat) : digitsValue n [] = 0 := by
  cases n <;> rfl

theorem digitsValue_lt (n : Nat) (b : Bytes) : digitsValue n b < 256 ^ n := by
  induction n generalizing b with
  | zero => exact Nat.one_pos
  | succ n ih =>
    cases b with
    | nil => exact Nat.pow_pos (by decide)
    | cons d b =>
      have hd : d.toNat ≤ 255 := Nat.le_of_lt_succ d.toNat_lt
      have hmul : d.toNat * 256 ^ n ≤ 255 * 256 ^ n := Nat.mul_le_mul_right _ hd
      have hrest := ih b
      rw [digitsValue, Nat.pow_succ]
      omega

theorem digitsValue_le_of_lt (n : Nat) {a b : Bytes} (h : a < b) :
    digitsValue n a ≤ digitsValue n b := by
  induction n generalizing a b with
  | zero => exact Nat.le_refl 0
  | succ n ih =>
    cases a with
    | nil => exact Nat.zero_le _
    | cons d a =>
      cases b with
      | nil => exact absurd h (List.not_lt_nil _)
      | cons e b =>
        rw [digitsValue, digitsValue]
        rcases List.cons_lt_cons_iff.1 h with hde | ⟨rfl, hab⟩
        · have hsucc : d.toNat + 1 ≤ e.toNat := UInt8.lt_iff_toNat_lt.1 hde
          have hmul : (d.toNat + 1) * 256 ^ n ≤ e.toNat * 256 ^ n := Nat.mul_le_mul_right _ hsucc
          have hlt := digitsValue_lt n a
          rw [Nat.add_mul, Nat.one_mul] at hmul
          omega
        · exact Nat.add_le_add_left (ih hab) _

/-! ### The score of a key -/

def appendDigits (n : Nat) (b : Bytes) : Nat := b.foldl (fun n d => n * 256 + UInt8.toNat d) n

theorem toNat_foldl_digits (b : Bytes) (n : UInt64) (m : Nat) (h : n.toNat = m % 2 ^ 64) :
    (b.foldl (fun n d => n * 256 + d.toUInt64) n).toNat = appendDigits m b % 2 ^ 64 := by
  induction b generalizing n m with
  | nil => exact h
  | cons d b ih =>
    rw [List.foldl_cons, appendDigits, List.foldl_cons]
    apply ih
    have hdigit : (256 : UInt64).toNat = 256 := rfl
    rw [UInt64.toNat_add, UInt64.toNat_mul, UInt8.toNat_toUInt64, h, hdigit]
    omega

theorem appendDigits_take (n k : Nat) (b : Bytes) (m : Nat) (h : n ≤ k) :
    appendDigits m ((b ++ List.replicate k 0).take n) = m * 256 ^ n + digitsValue n b := by
  induction n generalizing b m k with
  | zero => simp [digitsValue, appendDigits]
  | succ n ih =>
    cases b with
    | nil =>
      obtain ⟨k, rfl⟩ : ∃ j, k = j + 1 := ⟨k - 1, by omega⟩
      have hrest := ih k [] (m * 256 + (0 : UInt8).toNat) (by omega)
      rw [List.nil_append] at hrest ⊢
      rw [List.replicate_succ, List.take_succ_cons, appendDigits, List.foldl_cons, ← appendDigits,
        hrest, digitsValue_nil, digitsValue_nil, Nat.pow_succ]
      have hzero : (0 : UInt8).toNat = 0 := rfl
      rw [hzero]
      ring
    | cons d b =>
      rw [List.cons_append, List.take_succ_cons, appendDigits, List.foldl_cons, ← appendDigits,
        ih k b _ (by omega), digitsValue, Nat.pow_succ]
      ring

theorem toNat_prefixScore (key : Bytes) : (prefixScore key).toNat = digitsValue 8 key := by
  have hlt := digitsValue_lt 8 key
  rw [prefixScore, bigEndian, toNat_foldl_digits _ 0 0 rfl, appendDigits_take 8 8 key 0 (by decide)]
  omega

theorem prefixScore_le_of_lt {a b : Bytes} (h : a < b) : prefixScore a ≤ prefixScore b := by
  rw [UInt64.le_iff_toNat_le, toNat_prefixScore, toNat_prefixScore]
  exact digitsValue_le_of_lt 8 h

/-- With scores read off the keys, positions are ordered as the keys are. -/
theorem position_ordered_lt_iff {a b : Bytes} :
    ScoreMode.ordered.position a < ScoreMode.ordered.position b ↔ a < b := by
  have hforward : ∀ {a b : Bytes}, a < b →
      ScoreMode.ordered.position a < ScoreMode.ordered.position b := by
    intro a b h
    rcases UInt64.lt_or_eq_of_le (prefixScore_le_of_lt h) with hlt | heq
    · exact Or.inl hlt
    · exact Or.inr ⟨heq, h⟩
  constructor
  · intro h
    rcases Std.lt_trichotomy a b with hlt | rfl | hgt
    · exact hlt
    · exact absurd h (Position.lt_irrefl _)
    · exact absurd (Position.lt_trans h (hforward hgt)) (Position.lt_irrefl _)
  · exact hforward

/-! ### Keys with a common stem -/

theorem not_lt_stem {stem key : Bytes} (h : stem <+: key) : ¬ key < stem := by
  induction stem generalizing key with
  | nil => exact List.not_lt_nil _
  | cons d stem ih =>
    cases key with
    | nil => cases h.ne_nil (by simp) rfl
    | cons e key =>
      obtain ⟨rfl, hrest⟩ := List.cons_prefix_cons.1 h
      intro hlt
      rcases List.cons_lt_cons_iff.1 hlt with hdd | ⟨-, hrest'⟩
      · exact UInt8.lt_irrefl _ hdd
      · exact ih hrest hrest'

/-- A key between a stem and a key that starts with it starts with it as well. -/
theorem startsWith_of_between {stem a b : Bytes} (hstem : ¬ a < stem) (hab : a < b)
    (h : stem <+: b) : stem <+: a := by
  induction stem generalizing a b with
  | nil => exact List.nil_prefix
  | cons d stem ih =>
    cases a with
    | nil => exact absurd (List.nil_lt_cons d stem) hstem
    | cons e a =>
      cases b with
      | nil => exact absurd hab (List.not_lt_nil _)
      | cons f b =>
        obtain ⟨rfl, hrest⟩ := List.cons_prefix_cons.1 h
        rw [List.cons_lt_cons_iff] at hstem hab
        obtain ⟨hed, hstem'⟩ := not_or.1 hstem
        rcases hab with hlt | ⟨rfl, hab'⟩
        · exact absurd hlt hed
        · exact List.cons_prefix_cons.2 ⟨rfl, ih (fun hlt => hstem' ⟨rfl, hlt⟩) hab' hrest⟩

/-! ### Comparing three ways -/

theorem Bytes.compare_eq_lt {a b : Bytes} : compare a b = .lt ↔ a < b := by
  induction a generalizing b with
  | nil => cases b <;> simp [compare, List.compareLex]
  | cons d a ih =>
    cases b with
    | nil => simp [compare, List.compareLex]
    | cons e b =>
      rw [List.cons_lt_cons_iff, ← ih, List.compare_cons_cons, Ordering.then_eq_lt,
        Std.compare_eq_lt, Std.LawfulEqOrd.compare_eq_iff_eq]

/-- What the scores decide, the keys decide alike, and where the scores agree it is left to the
keys. -/
theorem compare_prefixScore_then (a b : Bytes) :
    (compare (prefixScore a) (prefixScore b)).then (compare a b) = compare a b := by
  have hless : ∀ {a b : Bytes}, a < b →
      (compare (prefixScore a) (prefixScore b)).then (compare a b) = compare a b := by
    intro a b h
    rw [Bytes.compare_eq_lt.2 h, Ordering.then_eq_lt, Std.compare_eq_lt,
      Std.LawfulEqOrd.compare_eq_iff_eq]
    exact (UInt64.lt_or_eq_of_le (prefixScore_le_of_lt h)).imp_right fun heq => ⟨heq, rfl⟩
  rcases Std.lt_trichotomy a b with hlt | rfl | hgt
  · exact hless hlt
  · rw [Std.ReflOrd.compare_self, Std.ReflOrd.compare_self]
    rfl
  · have hswap := congrArg Ordering.swap (hless hgt)
    rw [Ordering.swap_then, ← Std.OrientedOrd.eq_swap, ← Std.OrientedOrd.eq_swap] at hswap
    exact hswap

/-- With scores read off the keys, to compare two keys by score and then byte by byte is to compare
them byte by byte, and this is how the index orders them. A stem scores no more than a key that starts
with it, and does not come behind it. -/
theorem ordered_scores_keep_key_order (a b : Bytes) :
    (compare (prefixScore a) (prefixScore b)).then (compare a b) = compare a b ∧
      (ScoreMode.ordered.position a < ScoreMode.ordered.position b ↔ a < b) ∧
      (a <+: b → prefixScore a ≤ prefixScore b ∧
        ¬ ScoreMode.ordered.position b < ScoreMode.ordered.position a) := by
  refine ⟨compare_prefixScore_then a b, position_ordered_lt_iff, fun hstem => ?_⟩
  have hle : ¬ ScoreMode.ordered.position b < ScoreMode.ordered.position a := by
    rw [position_ordered_lt_iff]
    exact not_lt_stem hstem
  exact ⟨UInt64.not_lt.1 fun hlt => hle (Or.inl hlt), hle⟩

theorem ordered_scores_keep_key_order_among_zeros :
    ([97, 0] : Bytes) <+: [97, 0, 0, 0, 0, 0, 0, 0, 0, 98] ∧
      prefixScore [97, 0] ≤ prefixScore [97, 0, 0, 0, 0, 0, 0, 0, 0, 98] ∧
      ¬ ScoreMode.ordered.position [97, 0, 0, 0, 0, 0, 0, 0, 0, 98] <
        ScoreMode.ordered.position [97, 0] := by
  have hstem : [97, 0] <+: ([97, 0, 0, 0, 0, 0, 0, 0, 0, 98] : Bytes) := by decide
  exact ⟨hstem, (ordered_scores_keep_key_order _ _).2.2 hstem⟩

end ExpiringStore
