import Mathlib.Data.Nat.Bits
import Mathlib.Data.BitVec

/-!
# Bit fields of a machine word

A packed C++ structure with bit-field members is one word; a member is the `len`
bits from bit `start` on.  `getField` reads it, `setField` assigns it — the value
assigned is truncated to the width of the member, which its type enforces — and
the two laws are those of a lens: a field reads back what was assigned
(`getField_setField_same`) and assigning one field leaves a disjoint one alone
(`getField_setField_disjoint`).
-/

namespace BitField

variable {w : ℕ}

/-- Read the `len` bits from bit `start` on. -/
def getField (word : BitVec w) (start len : ℕ) : BitVec len :=
  word.extractLsb' start len

/-- Replace the `len` bits from bit `start` on. -/
def setField (word : BitVec w) (start : ℕ) {len : ℕ} (value : BitVec len) : BitVec w :=
  (word &&& ~~~((BitVec.allOnes len).setWidth w <<< start)) ||| (value.setWidth w <<< start)

@[simp] theorem getLsbD_getField (word : BitVec w) (start len i : ℕ) :
    (getField word start len).getLsbD i = (decide (i < len) && word.getLsbD (start + i)) := by
  simp [getField]

/-- The bits of a word after an assignment to one of its fields. -/
theorem getLsbD_setField (word : BitVec w) (start : ℕ) {len : ℕ} (value : BitVec len)
    (hfit : start + len ≤ w) (i : ℕ) :
    (setField word start value).getLsbD i =
      if start ≤ i ∧ i < start + len then value.getLsbD (i - start) else word.getLsbD i := by
  unfold setField
  by_cases hin : start ≤ i ∧ i < start + len
  · have hw : i < w := by omega
    have hnot : ¬ i < start := by omega
    have hlen : i - start < len := by omega
    simp [hin, hw, hnot, hlen]
  · by_cases hw : i < w
    · by_cases hlow : i < start
      · simp [hlow, hw]
      · have hhigh : ¬ i - start < len := by omega
        have hge : len ≤ i - start := by omega
        simp [hlow, hw, hin, hhigh, BitVec.getLsbD_of_ge value _ hge]
    · have hge : w ≤ i := by omega
      simp [hin, hw, BitVec.getLsbD_of_ge word _ hge]

/-- A field reads back what was assigned to it. -/
theorem getField_setField_same (word : BitVec w) (start : ℕ) {len : ℕ} (value : BitVec len)
    (hfit : start + len ≤ w) : getField (setField word start value) start len = value := by
  refine BitVec.eq_of_getLsbD_eq fun i hi => ?_
  rw [getLsbD_getField, getLsbD_setField word start value hfit, if_pos (by omega)]
  simp [hi]

/-- Assigning a field leaves a disjoint one alone. -/
theorem getField_setField_disjoint (word : BitVec w) (start : ℕ) {len : ℕ}
    (value : BitVec len) (hfit : start + len ≤ w) {start' len' : ℕ}
    (hdisjoint : start' + len' ≤ start ∨ start + len ≤ start') :
    getField (setField word start value) start' len' = getField word start' len' := by
  refine BitVec.eq_of_getLsbD_eq fun i hi => ?_
  rw [getLsbD_getField, getLsbD_getField, getLsbD_setField word start value hfit,
    if_neg (by omega)]

end BitField
