import Mathlib.Data.Nat.ModEq

/-!
# Ranges of positions cut at the strides they cross

A span of `m` entries of `S` positions each is walked entry by entry.  A range
that starts in entry `i`, at `a` into it, splits into what lies in that entry and
a range that starts where the next one does (`range_split`); the amount consumed
on the way is `min n (S - a)`.
-/

namespace Strides

variable {S a b i j n m x : ℕ}

/-- A position of the span, as an entry and an offset into it. -/
theorem mod_mul_eq (x S m : ℕ) : x % (S * m) = x / S % m * S + x % S := by
  rw [Nat.mod_mul, Nat.mul_comm S, Nat.add_comm]

/-- The offset into an entry is what the start is modulo the stride. -/
theorem offset_eq (h : x % (S * m) = i * S + a) (ha : a < S) : x % S = a := by
  have hmod : x % (S * m) % S = x % S := Nat.mod_mul_right_mod x S m
  rw [← hmod, h, Nat.mul_comm, Nat.mul_add_mod, Nat.mod_eq_of_lt ha]

/-- Consuming the rest of an entry leads to the start of the next one. -/
theorem next_entry (h : x % (S * m) = i * S + a) (ha : a < S) (hi : i + 1 < m) :
    (x + (S - a)) % (S * m) = (i + 1) * S := by
  have hx := Nat.div_add_mod x (S * m)
  have hlt : (i + 1) * S < S * m := by
    rw [Nat.mul_comm]
    exact Nat.mul_lt_mul_of_pos_left hi (by omega)
  have hstep : (i + 1) * S = i * S + S := Nat.succ_mul i S
  have hsum : x + (S - a) = S * m * (x / (S * m)) + (i + 1) * S := by omega
  rw [hsum, Nat.mul_add_mod, Nat.mod_eq_of_lt hlt]

/-- **Splitting a range at the end of its first entry.** -/
theorem range_split (ha : a < S) (hb : b < S) :
    (i * S + a ≤ j * S + b ∧ j * S + b < i * S + a + n) ↔
      (j = i ∧ a ≤ b ∧ b < a + n) ∨
        ((i + 1) * S ≤ j * S + b ∧ j * S + b < (i + 1) * S + (n - min n (S - a))) := by
  have hstep : (i + 1) * S = i * S + S := Nat.succ_mul i S
  rcases lt_trichotomy j i with hlt | rfl | hgt
  · have : j * S + S ≤ i * S := by
      rw [← Nat.succ_mul]
      exact Nat.mul_le_mul_right S hlt
    omega
  · omega
  · have : (i + 1) * S ≤ j * S := Nat.mul_le_mul_right S hgt
    omega

/-- What is left of the span after the first entry. -/
theorem consumed_split (ha : a < S) (hi : i < m) :
    min n (S - a) + min (n - min n (S - a)) (S * m - (i + 1) * S) =
      min n (S * m - (i * S + a)) := by
  have hstep : (i + 1) * S = i * S + S := Nat.succ_mul i S
  have hle : (i + 1) * S ≤ S * m := by
    rw [Nat.mul_comm]
    exact Nat.mul_le_mul_left S hi
  omega

/-- Distances from the start carry over to the next entry. -/
theorem distance_after {k y p : ℕ} (ha : a < S) (hk : k = min n (S - a))
    (hlow : (i + 1) * S ≤ p) (hhigh : p < (i + 1) * S + (n - k)) :
    y + k + (p - (i + 1) * S) = y + (p - (i * S + a)) := by
  have hstep : (i + 1) * S = i * S + S := Nat.succ_mul i S
  omega

/-- A range of whole entries. -/
theorem entry_range (hb : b < S) :
    (i * S ≤ j * S + b ∧ j * S + b < (i + n) * S) ↔ i ≤ j ∧ j < i + n := by
  constructor
  · rintro ⟨hlow, hhigh⟩
    constructor
    · by_contra hlt
      have : (j + 1) * S ≤ i * S := Nat.mul_le_mul_right S (by omega)
      rw [Nat.succ_mul] at this
      omega
    · by_contra hge
      have : (i + n) * S ≤ j * S := Nat.mul_le_mul_right S (by omega)
      omega
  · rintro ⟨hlow, hhigh⟩
    have hle : i * S ≤ j * S := Nat.mul_le_mul_right S hlow
    have hlt : (j + 1) * S ≤ (i + n) * S := Nat.mul_le_mul_right S hhigh
    rw [Nat.succ_mul] at hlt
    omega

end Strides
