import ExpiringStore.Score

/-!
# Positions

A position is a score and a key. Positions are ordered by score, and by key where the scores agree.
-/

namespace ExpiringStore

structure Position where
  score : Score
  key : Bytes
  deriving DecidableEq, Repr

namespace Position

instance : LT Position where
  lt p q := p.score < q.score ∨ p.score = q.score ∧ p.key < q.key

instance (p q : Position) : Decidable (p < q) :=
  inferInstanceAs (Decidable (p.score < q.score ∨ p.score = q.score ∧ p.key < q.key))

theorem lt_iff {p q : Position} :
    p < q ↔ p.score < q.score ∨ p.score = q.score ∧ p.key < q.key := Iff.rfl

/-! ### The order is strict and total -/

theorem lt_irrefl (p : Position) : ¬ p < p := by
  rw [lt_iff]
  rintro (hscore | ⟨-, hkey⟩)
  · exact UInt64.lt_irrefl _ hscore
  · exact List.lt_irrefl _ hkey

theorem lt_trans {p q r : Position} (hpq : p < q) (hqr : q < r) : p < r := by
  rw [lt_iff] at hpq hqr ⊢
  rcases hpq with hpq | ⟨hpq, hkey⟩
  · rcases hqr with hqr | ⟨hqr, -⟩
    · exact Or.inl (UInt64.lt_trans hpq hqr)
    · exact Or.inl (hqr ▸ hpq)
  · rcases hqr with hqr | ⟨hqr, hkey'⟩
    · exact Or.inl (hpq ▸ hqr)
    · exact Or.inr ⟨hpq.trans hqr, List.lt_trans hkey hkey'⟩

theorem lt_or_eq_or_lt (p q : Position) : p < q ∨ p = q ∨ q < p := by
  obtain ⟨score, key⟩ := p
  obtain ⟨score', key'⟩ := q
  simp only [lt_iff, mk.injEq]
  rcases Std.lt_trichotomy score score' with hscore | hscore | hscore
  · exact Or.inl (Or.inl hscore)
  · rcases Std.lt_trichotomy key key' with hkey | hkey | hkey
    · exact Or.inl (Or.inr ⟨hscore, hkey⟩)
    · exact Or.inr (Or.inl ⟨hscore, hkey⟩)
    · exact Or.inr (Or.inr (Or.inr ⟨hscore.symm, hkey⟩))
  · exact Or.inr (Or.inr (Or.inl hscore))

end Position

def ScoreMode.position (mode : ScoreMode) (key : Bytes) : Position := ⟨mode.score key, key⟩

end ExpiringStore
